import SnekCpp.Lib.Transition

/-!
# Objects behind a mutex

Threads call the methods of an object.  A call takes the mutex, accesses the
shared state as often as it needs, and gives the mutex back with its result.
The calls then have the results that they would have one after the other, in an
order that respects which call returned before which was made.
-/

namespace SnekCpp.Lib

/-- How calls access the state: where a call stands decides its next access, which
ends in another place or in the result.  Some accesses are undefined. -/
structure Sections (σ β ρ l : Type*) where
  enter : β → l
  access : l → σ → Option (σ × (l ⊕ ρ))

inductive Stage (β ρ l : Type*)
  | outside
  /-- The call is made, and the mutex not yet taken. -/
  | waiting (call : β)
  | inside (call : β) (place : l)
  /-- The result is there, and the mutex not yet given back. -/
  | leaving (call : β) (result : ρ)

structure Locked (ι σ β ρ l : Type*) where
  shared : σ
  owner : Option ι := none
  stage : ι → Stage β ρ l := fun _ ↦ .outside
  /-- The calls in the order in which they made their last access. -/
  effects : List (ι × β × ρ) := []
  /-- The calls in the order in which they returned. -/
  returned : List (ι × β × ρ) := []

inductive LockedEvent (ι β : Type*)
  | call (i : ι) (call : β)
  | lock (i : ι)
  | access (i : ι)
  | unlock (i : ι)

namespace Sections

variable {ι σ β ρ l : Type*} (obj : Sections σ β ρ l)

/-- A call from a place on, when no other one comes between. -/
inductive Executes : l → σ → ρ → σ → Prop
  | last {place : l} {s s' : σ} {result : ρ} (h : obj.access place s = some (s', .inr result)) :
      Executes place s result s'
  | more {place place' : l} {s s' s'' : σ} {result : ρ}
      (h : obj.access place s = some (s', .inl place')) (hrest : Executes place' s' result s'') :
      Executes place s result s''

/-- The calls of a list, one after the other. -/
inductive Serial (start : σ) : List (ι × β × ρ) → σ → Prop
  | nil : Serial start [] start
  | concat {calls : List (ι × β × ρ)} {s s' : σ} {i : ι} {call : β} {result : ρ}
      (h : Serial start calls s) (hcall : obj.Executes (obj.enter call) s result s') :
      Serial start (calls ++ [(i, call, result)]) s'

end Sections

namespace Stage

variable {ι β ρ l : Type*}

/-- The thread has the mutex. -/
def HasLock : Stage β ρ l → Prop
  | .inside .. => True
  | .leaving .. => True
  | _ => False

/-- The call that has made its last access and has not returned. -/
def pending (i : ι) : Stage β ρ l → List (ι × β × ρ)
  | .leaving call result => [(i, call, result)]
  | _ => []

end Stage

namespace Locked

variable {ι σ β ρ l : Type*} [DecidableEq ι] (obj : Sections σ β ρ l)

def step (L : Locked ι σ β ρ l) : LockedEvent ι β → Option (Locked ι σ β ρ l)
  | .call i call =>
      match L.stage i with
      | .outside => some { L with stage := Function.update L.stage i (.waiting call) }
      | _ => none
  | .lock i =>
      match L.stage i, L.owner with
      | .waiting call, none => some { L with
          owner := some i
          stage := Function.update L.stage i (.inside call (obj.enter call)) }
      | _, _ => none
  | .access i =>
      match L.stage i with
      | .inside call place =>
          match obj.access place L.shared with
          | none => none
          | some (shared, .inl place) => some { L with
              shared
              stage := Function.update L.stage i (.inside call place) }
          | some (shared, .inr result) => some { L with
              shared
              stage := Function.update L.stage i (.leaving call result)
              effects := L.effects ++ [(i, call, result)] }
      | _ => none
  | .unlock i =>
      match L.stage i with
      | .leaving call result => some { L with
          owner := none
          stage := Function.update L.stage i .outside
          returned := L.returned ++ [(i, call, result)] }
      | _ => none

/-- Every step, with what it found in the state. -/
inductive Moves (L : Locked ι σ β ρ l) : LockedEvent ι β → Locked ι σ β ρ l → Prop
  | call {i : ι} (call : β) (hstage : L.stage i = .outside) :
      Moves L (.call i call) { L with stage := Function.update L.stage i (.waiting call) }
  | lock {i : ι} {call : β} (hstage : L.stage i = .waiting call) (hfree : L.owner = none) :
      Moves L (.lock i) { L with
        owner := some i
        stage := Function.update L.stage i (.inside call (obj.enter call)) }
  | more {i : ι} {call : β} {place place' : l} {shared : σ}
      (hstage : L.stage i = .inside call place)
      (haccess : obj.access place L.shared = some (shared, .inl place')) :
      Moves L (.access i) { L with
        shared
        stage := Function.update L.stage i (.inside call place') }
  | last {i : ι} {call : β} {place : l} {shared : σ} {result : ρ}
      (hstage : L.stage i = .inside call place)
      (haccess : obj.access place L.shared = some (shared, .inr result)) :
      Moves L (.access i) { L with
        shared
        stage := Function.update L.stage i (.leaving call result)
        effects := L.effects ++ [(i, call, result)] }
  | unlock {i : ι} {call : β} {result : ρ} (hstage : L.stage i = .leaving call result) :
      Moves L (.unlock i) { L with
        owner := none
        stage := Function.update L.stage i .outside
        returned := L.returned ++ [(i, call, result)] }

variable {obj} {L L' : Locked ι σ β ρ l} {e : LockedEvent ι β}

theorem moves_of_step (h : L.step obj e = some L') : L.Moves obj e L' := by
  cases e with
  | call i call =>
      simp only [step] at h
      split at h
      · next hstage =>
          cases h
          exact .call call hstage
      · cases h
  | lock i =>
      simp only [step] at h
      split at h
      · next hstage hfree =>
          cases h
          exact .lock hstage hfree
      · cases h
  | access i =>
      simp only [step] at h
      split at h
      · next hstage =>
          split at h
          · cases h
          · next haccess =>
              cases h
              exact .more hstage haccess
          · next haccess =>
              cases h
              exact .last hstage haccess
      · cases h
  | unlock i =>
      simp only [step] at h
      split at h
      · next hstage =>
          cases h
          exact .unlock hstage
      · cases h

theorem step_of_moves (h : L.Moves obj e L') : L.step obj e = some L' := by
  cases h with
  | call call hstage => simp only [step, hstage]
  | lock hstage hfree => simp only [step, hstage, hfree]
  | more hstage haccess => simp only [step, hstage, haccess]
  | last hstage haccess => simp only [step, hstage, haccess]
  | unlock hstage => simp only [step, hstage]

/-- The calls that thread `i` has made. -/
def ofThread (i : ι) (calls : List (ι × β × ρ)) : List (ι × β × ρ) := calls.filter (·.1 = i)

theorem ofThread_concat_self (i : ι) (calls : List (ι × β × ρ)) (call : β) (result : ρ) :
    ofThread i (calls ++ [(i, call, result)]) = ofThread i calls ++ [(i, call, result)] := by
  simp [ofThread]

theorem ofThread_concat_ne {i j : ι} (h : j ≠ i) (calls : List (ι × β × ρ)) (call : β)
    (result : ρ) : ofThread i (calls ++ [(j, call, result)]) = ofThread i calls := by
  simp [ofThread, h]

/-- The thread that has the mutex is at work on a state that the calls before it
have left, and every thread's own calls take effect in the order it makes them. -/
structure Serialized (obj : Sections σ β ρ l) (start : σ) (L : Locked ι σ β ρ l) : Prop where
  owner : ∀ i, (L.stage i).HasLock ↔ L.owner = some i
  shared : (∀ i call place, L.stage i ≠ .inside call place) → obj.Serial start L.effects L.shared
  inside : ∀ i call place, L.stage i = .inside call place → ∃ s, obj.Serial start L.effects s ∧
    ∀ result s', obj.Executes place L.shared result s' → obj.Executes (obj.enter call) s result s'
  threads : ∀ i, ofThread i L.effects = ofThread i L.returned ++ (L.stage i).pending i

namespace Serialized

variable {start : σ}

theorem init (obj : Sections σ β ρ l) (start : σ) :
    Serialized obj start ({ shared := start } : Locked ι σ β ρ l) where
  owner i := by simp [Stage.HasLock]
  shared _ := .nil
  inside i call place h := by cases h
  threads i := rfl

/-- A thread that does not have the mutex. -/
theorem ne_inside (h : Serialized obj start L) {i : ι} (hlock : (L.stage i).HasLock) {j : ι}
    (hne : j ≠ i) (call : β) (place : l) : L.stage j ≠ .inside call place := by
  intro hinside
  have hj := (h.owner j).mp (by rw [hinside]; trivial)
  have hi := (h.owner i).mp hlock
  rw [hi] at hj
  exact hne (Option.some.inj hj).symm

/-- Only the owner's change of stage changes who has the mutex. -/
theorem owner_update (h : Serialized obj start L) {i : ι} {stage : Stage β ρ l} {owner : Option ι}
    (hself : stage.HasLock ↔ owner = some i)
    (hothers : ∀ j, j ≠ i → (L.owner = some j ↔ owner = some j)) (j : ι) :
    (Function.update L.stage i stage j).HasLock ↔ owner = some j := by
  by_cases heq : j = i
  · subst heq
    rw [Function.update_self]
    exact hself
  · rw [Function.update_of_ne heq, h.owner j]
    exact hothers j heq

theorem step (h : Serialized obj start L) (hstep : L.step obj e = some L') :
    Serialized obj start L' := by
  cases moves_of_step hstep with
  | @call i call hstage =>
      have hnone : ¬ L.owner = some i := fun howner ↦ by
        have hlock := (h.owner i).mpr howner
        rw [hstage] at hlock
        exact hlock
      refine ⟨h.owner_update (by simpa [Stage.HasLock] using hnone) fun _ _ ↦ Iff.rfl, ?_, ?_, ?_⟩
      · intro hinside
        refine h.shared fun j call' place hj ↦ hinside j call' place ?_
        have hne : j ≠ i := fun heq ↦ by rw [heq, hstage] at hj; cases hj
        simpa only [Function.update_of_ne hne] using hj
      · intro j call' place hj
        have hne : j ≠ i := fun heq ↦ by simp [heq] at hj
        simp only [Function.update_of_ne hne] at hj
        exact h.inside j call' place hj
      · intro j
        by_cases hne : j = i
        · subst hne
          have hthreads := h.threads j
          rw [hstage] at hthreads
          simpa [Stage.pending] using hthreads
        · simpa [hne] using h.threads j
  | @lock i call hstage hfree =>
      refine ⟨h.owner_update (by simp [Stage.HasLock]) fun j hne ↦ ?_, ?_, ?_, ?_⟩
      · simp [hfree, hne.symm]
      · intro hinside
        exact absurd (Function.update_self ..) (hinside i call (obj.enter call))
      · intro j call' place hj
        have hserial : obj.Serial start L.effects L.shared := by
          refine h.shared fun k call' place hk ↦ ?_
          have howner := (h.owner k).mp (by rw [hk]; trivial)
          rw [hfree] at howner
          cases howner
        by_cases hne : j = i
        · subst hne
          simp only [Function.update_self, Stage.inside.injEq] at hj
          obtain ⟨rfl, rfl⟩ := hj
          exact ⟨L.shared, hserial, fun _ _ hexec ↦ hexec⟩
        · simp only [Function.update_of_ne hne] at hj
          exact h.inside j call' place hj
      · intro j
        by_cases hne : j = i
        · subst hne
          have hthreads := h.threads j
          rw [hstage] at hthreads
          simpa [Stage.pending] using hthreads
        · simpa [hne] using h.threads j
  | @more i call place place' shared hstage haccess =>
      have hlock : (L.stage i).HasLock := by rw [hstage]; trivial
      have howner := (h.owner i).mp hlock
      refine ⟨h.owner_update (by simpa [Stage.HasLock] using howner) fun _ _ ↦ Iff.rfl, ?_, ?_, ?_⟩
      · intro hinside
        exact absurd (Function.update_self ..) (hinside i call place')
      · intro j call' place'' hj
        by_cases hne : j = i
        · subst hne
          simp only [Function.update_self, Stage.inside.injEq] at hj
          obtain ⟨rfl, rfl⟩ := hj
          obtain ⟨s, hserial, hexec⟩ := h.inside j call place hstage
          exact ⟨s, hserial, fun result s' hrest ↦ hexec result s' (.more haccess hrest)⟩
        · simp only [Function.update_of_ne hne] at hj
          exact absurd hj (h.ne_inside hlock hne call' place'')
      · intro j
        by_cases hne : j = i
        · subst hne
          have hthreads := h.threads j
          rw [hstage] at hthreads
          simpa [Stage.pending] using hthreads
        · simpa [hne] using h.threads j
  | @last i call place shared result hstage haccess =>
      have hlock : (L.stage i).HasLock := by rw [hstage]; trivial
      have howner := (h.owner i).mp hlock
      have hnone : ∀ j call' place', Function.update L.stage i (.leaving call result) j ≠
          .inside call' place' := by
        intro j call' place' hj
        by_cases hne : j = i
        · simp [hne] at hj
        · simp only [Function.update_of_ne hne] at hj
          exact h.ne_inside hlock hne call' place' hj
      refine ⟨h.owner_update (by simpa [Stage.HasLock] using howner) fun _ _ ↦ Iff.rfl, fun _ ↦ ?_,
        fun j call' place' hj ↦ absurd hj (hnone j call' place'), ?_⟩
      · obtain ⟨s, hserial, hexec⟩ := h.inside i call place hstage
        exact hserial.concat (hexec result shared (.last haccess))
      · intro j
        by_cases hne : j = i
        · subst hne
          have hthreads := h.threads j
          rw [hstage] at hthreads
          rw [ofThread_concat_self, hthreads]
          simp [Stage.pending]
        · rw [ofThread_concat_ne (Ne.symm hne)]
          simpa [hne] using h.threads j
  | @unlock i call result hstage =>
      have hlock : (L.stage i).HasLock := by rw [hstage]; trivial
      have howner := (h.owner i).mp hlock
      refine ⟨h.owner_update (by simp [Stage.HasLock]) fun j hne ↦ ?_, fun _ ↦ ?_, ?_, ?_⟩
      · simp [howner, hne.symm]
      · refine h.shared fun j call' place hj ↦ ?_
        by_cases hne : j = i
        · rw [hne, hstage] at hj
          cases hj
        · exact h.ne_inside hlock hne call' place hj
      · intro j call' place hj
        have hne : j ≠ i := fun heq ↦ by simp [heq] at hj
        simp only [Function.update_of_ne hne] at hj
        exact h.inside j call' place hj
      · intro j
        by_cases hne : j = i
        · subst hne
          have hthreads := h.threads j
          rw [hstage] at hthreads
          rw [ofThread_concat_self, hthreads]
          simp [Stage.pending]
        · rw [ofThread_concat_ne (Ne.symm hne)]
          simpa [hne] using h.threads j

theorem of_reaches (h : Reaches (Locked.step obj) (fun _ _ ↦ True)
    ({ shared := start } : Locked ι σ β ρ l) L) : Serialized obj start L :=
  h.invariant (.init obj start) fun _ _ _ hserialized _ hstep ↦ hserialized.step hstep

/-- At most one thread has the mutex. -/
theorem exclusive (h : Serialized obj start L) {i j : ι} (hi : (L.stage i).HasLock)
    (hj : (L.stage j).HasLock) : i = j :=
  Option.some.inj (((h.owner i).mp hi).symm.trans ((h.owner j).mp hj))

/-- Some order of the calls explains their results, whoever is in the middle of one. -/
theorem exists_serial (h : Serialized obj start L) : ∃ s, obj.Serial start L.effects s := by
  by_cases hinside : ∃ i call place, L.stage i = .inside call place
  · obtain ⟨i, call, place, hi⟩ := hinside
    obtain ⟨s, hserial, -⟩ := h.inside i call place hi
    exact ⟨s, hserial⟩
  · push Not at hinside
    exact ⟨L.shared, h.shared hinside⟩

end Serialized

/-- What has taken effect stays in its place. -/
theorem effects_prefix_of_reaches
    (h : Reaches (Locked.step obj) (fun _ _ ↦ True) L L') : L.effects <+: L'.effects := by
  refine h.invariant (I := fun M ↦ L.effects <+: M.effects) List.prefix_rfl ?_
  intro M e M' hfront _ hstep
  cases moves_of_step hstep with
  | last => exact hfront.trans (List.prefix_append _ _)
  | _ => exact hfront

end Locked

end SnekCpp.Lib
