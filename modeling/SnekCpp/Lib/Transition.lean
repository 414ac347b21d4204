import Mathlib

/-!
# Labelled transition systems

A system is a partial function from a state and an event to the next state:
the event carries every choice of the environment, so a list of events can be
run.  A property of a whole run is proved from what one step preserves.
-/

namespace SnekCpp.Lib

variable {σ ε : Type*} (step : σ → ε → Option σ)

/-- Some run leads from `s` to `t`, and each of its steps is allowed in the
state in which it is taken. -/
def Reaches (allowed : σ → ε → Prop) : σ → σ → Prop :=
  Relation.ReflTransGen fun s t ↦ ∃ e, allowed s e ∧ step s e = some t

/-- The state after all the events, when each of them is enabled in turn. -/
def run (s : σ) (events : List ε) : Option σ :=
  events.foldlM step s

variable {step}

namespace Reaches

variable {allowed : σ → ε → Prop} {s t : σ}

theorem invariant {I : σ → Prop} (h : Reaches step allowed s t) (start : I s)
    (keep : ∀ t e u, I t → allowed t e → step t e = some u → I u) : I t := by
  induction h with
  | refl => exact start
  | tail _ hstep ih =>
      obtain ⟨e, hallowed, hnext⟩ := hstep
      exact keep _ e _ ih hallowed hnext

theorem mono {weaker : σ → ε → Prop} (h : Reaches step allowed s t)
    (himp : ∀ t e, allowed t e → weaker t e) : Reaches step weaker s t :=
  Relation.ReflTransGen.mono (fun _ _ ⟨e, he, hstep⟩ ↦ ⟨e, himp _ e he, hstep⟩) _ _ h

/-- An invariant that is known of the run may be used in a second one. -/
theorem strengthen {I : σ → Prop} (h : Reaches step allowed s t) (start : I s)
    (keep : ∀ t e u, I t → allowed t e → step t e = some u → I u) :
    Reaches step (fun t e ↦ allowed t e ∧ I t) s t := by
  induction h with
  | refl => exact .refl
  | tail hpast hstep ih =>
      obtain ⟨e, hallowed, hnext⟩ := hstep
      exact ih.tail ⟨e, ⟨hallowed, Reaches.invariant hpast start keep⟩, hnext⟩

/-- A relation that every step keeps, while another system takes some steps or none,
is kept by every run. -/
theorem simulate {σ' ε' : Type*} {step' : σ' → ε' → Option σ'} {allowed' : σ' → ε' → Prop}
    {R : σ → σ' → Prop} {s' : σ'} (h : Reaches step allowed s t) (start : R s s')
    (keep : ∀ t e u t', R t t' → allowed t e → step t e = some u →
      ∃ u', Reaches step' allowed' t' u' ∧ R u u') :
    ∃ t', Reaches step' allowed' s' t' ∧ R t t' := by
  induction h with
  | refl => exact ⟨s', .refl, start⟩
  | tail _ hstep ih =>
      obtain ⟨e, hallowed, hnext⟩ := hstep
      obtain ⟨t', hreaches, hrelated⟩ := ih
      obtain ⟨u', hmore, hnext'⟩ := keep _ e _ t' hrelated hallowed hnext
      exact ⟨u', hreaches.trans hmore, hnext'⟩

end Reaches

theorem reaches_of_run {s t : σ} {events : List ε} (h : run step s events = some t) :
    Reaches step (fun _ _ ↦ True) s t := by
  induction events generalizing s with
  | nil =>
      have hst : s = t := by simpa [run] using h
      exact hst ▸ .refl
  | cons e events ih =>
      obtain ⟨u, hu, hrest⟩ := Option.bind_eq_some_iff.mp
        (show (step s e).bind (fun u ↦ run step u events) = some t from h)
      exact (ih hrest).head ⟨e, trivial, hu⟩

theorem run_concat (s : σ) (events : List ε) (e : ε) :
    run step s (events ++ [e]) = (run step s events).bind (step · e) := by
  rw [run, List.foldlM_append]
  cases h : List.foldlM step s events with
  | none => simp [run, h]
  | some t => simp [run, h]

/-- A run whose steps are all allowed, each in the state that it finds. -/
theorem reaches_of_run_of_allowed {allowed : σ → ε → Prop} {s t : σ} {events : List ε}
    (h : run step s events = some t)
    (hallowed : ∀ done e u v, done ++ [e] <+: events → run step s done = some u →
      step u e = some v → allowed u e) : Reaches step allowed s t := by
  induction events using List.reverseRecOn generalizing t with
  | nil =>
      have hst : s = t := by simpa [run] using h
      exact hst ▸ .refl
  | append_singleton events e ih =>
      rw [run_concat] at h
      obtain ⟨u, hu, hstep⟩ := Option.bind_eq_some_iff.mp h
      have hpast := ih hu fun done e' v w hpart ↦
        hallowed done e' v w (hpart.trans (List.prefix_append _ _))
      exact hpast.tail ⟨e, hallowed events e u t List.prefix_rfl hu hstep, hstep⟩

/-- A run that ends in a state with a property. -/
theorem exists_run_of_any {s : σ} {events : List ε} {P : σ → Bool}
    (h : (run step s events).any P = true) : ∃ t, run step s events = some t ∧ P t = true := by
  cases hrun : run step s events with
  | none => simp [hrun] at h
  | some t => exact ⟨t, rfl, by simpa [hrun] using h⟩

theorem exists_reaches_of_run {s : σ} {events : List ε} {P : σ → Bool}
    (h : (run step s events).any P = true) :
    ∃ t, Reaches step (fun _ _ ↦ True) s t ∧ P t = true := by
  obtain ⟨t, hrun, ht⟩ := exists_run_of_any h
  exact ⟨t, reaches_of_run hrun, ht⟩

variable (step) in
/-- The system that stops at an event that is not allowed. -/
def guarded (allowed : σ → ε → Prop) [∀ s e, Decidable (allowed s e)] (s : σ) (e : ε) : Option σ :=
  if allowed s e then step s e else none

theorem reaches_of_guarded {allowed : σ → ε → Prop} [∀ s e, Decidable (allowed s e)] {s t : σ}
    {events : List ε} (h : run (guarded step allowed) s events = some t) :
    Reaches step allowed s t := by
  have hguarded := reaches_of_run h
  refine Relation.ReflTransGen.mono (fun s t ⟨e, _, hstep⟩ ↦ ?_) _ _ hguarded
  unfold guarded at hstep
  split at hstep
  · next hallowed => exact ⟨e, hallowed, hstep⟩
  · cases hstep

variable (step) in
/-- Every run is finite, and each one that cannot be continued ends in `P`. -/
inductive Inevitably (P : σ → Prop) : σ → Prop
  | halted {s : σ} (halt : ∀ e, step s e = none) (h : P s) : Inevitably P s
  | step {s t : σ} {e : ε} (move : step s e = some t)
      (h : ∀ e t, step s e = some t → Inevitably P t) : Inevitably P s

namespace Inevitably

variable {P Q : σ → Prop} {s : σ}

theorem mono (h : Inevitably step P s) (himp : ∀ t, P t → Q t) : Inevitably step Q s := by
  induction h with
  | halted halt hP => exact .halted halt (himp _ hP)
  | step move _ ih => exact .step move ih

/-- Two outcomes that are both inevitable occur together. -/
theorem exists_and (hP : Inevitably step P s) (hQ : Inevitably step Q s) : ∃ t, P t ∧ Q t := by
  induction hP with
  | halted halt hP =>
      cases hQ with
      | halted _ hQ => exact ⟨_, hP, hQ⟩
      | step move _ => simp [halt] at move
  | step move _ ih =>
      cases hQ with
      | halted halt _ => simp [halt] at move
      | step _ hQ => exact ih _ _ move (hQ _ _ move)

/-- A measure that every step decreases, and an invariant that a state without
a successor turns into `P`. -/
theorem of_measure (I : σ → Prop) (μ : σ → ℕ)
    (keep : ∀ s e t, I s → step s e = some t → I t ∧ μ t < μ s)
    (halt : ∀ s, I s → (∀ e, step s e = none) → P s) (start : I s) : Inevitably step P s := by
  induction hn : μ s using Nat.strong_induction_on generalizing s with
  | _ n ih =>
      by_cases hstop : ∀ e, step s e = none
      · exact .halted hstop (halt s start hstop)
      · push Not at hstop
        obtain ⟨e, he⟩ := hstop
        obtain ⟨t, ht⟩ := Option.ne_none_iff_exists'.mp he
        refine .step ht fun e' t' ht' ↦ ?_
        obtain ⟨hI, hlt⟩ := keep s e' t' start ht'
        exact ih (μ t') (hn ▸ hlt) hI rfl

/-- Every step goes down in a well-founded order, and an invariant turns into `P`
in a state without a successor. -/
theorem of_wellFounded {α : Type*} {r : α → α → Prop} (hwf : WellFounded r) (I : σ → Prop)
    (μ : σ → α) (keep : ∀ s e t, I s → step s e = some t → I t ∧ r (μ t) (μ s))
    (halt : ∀ s, I s → (∀ e, step s e = none) → P s) (start : I s) : Inevitably step P s := by
  generalize hn : μ s = n
  induction n using hwf.induction generalizing s with
  | _ n ih =>
      by_cases hstop : ∀ e, step s e = none
      · exact .halted hstop (halt s start hstop)
      · push Not at hstop
        obtain ⟨e, he⟩ := hstop
        obtain ⟨t, ht⟩ := Option.ne_none_iff_exists'.mp he
        refine .step ht fun e' t' ht' ↦ ?_
        obtain ⟨hI, hlt⟩ := keep s e' t' start ht'
        exact ih (μ t') (hn ▸ hlt) hI rfl

end Inevitably

/-! ## Two runs side by side -/

section Lockstep

variable {α β ε : Type*}

/-- `n` calls of a function that may fail. -/
def times (f : α → Except ε α) : ℕ → α → Except ε α
  | 0, a => .ok a
  | n + 1, a => f a >>= times f n

theorem times_succ_of_ok {f : α → Except ε α} {a b : α} (h : f a = .ok b) (n : ℕ) :
    times f (n + 1) a = times f n b := by
  rw [times, h]
  rfl

/-- A relation that one call on both sides keeps is kept by any number of calls. -/
theorem times_of_lockstep {f : α → Except ε α} {g : β → Except ε β} {R : α → β → Prop}
    (hstep : ∀ a b, R a b → ∃ a' b', f a = .ok a' ∧ g b = .ok b' ∧ R a' b') {a : α} {b : β}
    (h : R a b) (n : ℕ) : ∃ a' b', times f n a = .ok a' ∧ times g n b = .ok b' ∧ R a' b' := by
  induction n generalizing a b with
  | zero => exact ⟨a, b, rfl, rfl, h⟩
  | succ n ih =>
      obtain ⟨a₁, b₁, ha, hb, h₁⟩ := hstep a b h
      rw [times_succ_of_ok ha, times_succ_of_ok hb]
      exact ih h₁

end Lockstep

end SnekCpp.Lib
