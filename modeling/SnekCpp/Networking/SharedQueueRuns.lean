import SnekCpp.Networking.SharedQueue

/-!
# Runs of the shared queue

No order of the locks makes two threads wait for each other, and the calls that
are made come to an end.  A queue with one thread that pops hands over what has
been pushed.
-/

namespace SnekCpp.Networking

open Lib

namespace QueueCall

variable {α : Type}

/-- The calls of the loops around a queue. -/
def Feeds : QueueCall α → Prop
  | pushBack _ => True
  | isEmpty => True
  | count => True
  | wait => True
  | popFront => True
  | _ => False

def appended : QueueCall α → Option α
  | pushBack item => some item
  | _ => none

def taken : QueueCall α → QueueResult α → Option α
  | popFront, .item item => some item
  | _, _ => none

end QueueCall

namespace QueueStage

variable {ι α : Type}

/-- What is known of the deque where a thread stands.  Only the consumer's own calls
take items out, so what it has found stays. -/
def Fits (consumer i : ι) (deqQueue : List α) (last : Option (ι × QueueCall α × QueueResult α)) :
    QueueStage α → Prop
  | outside => i = consumer → last = some (consumer, .isEmpty, .flag false) → deqQueue ≠ []
  | entering call => call.Feeds ∧ (call = .popFront → i = consumer ∧ deqQueue ≠ [])
  | inside call none => call.Feeds ∧ (call = .popFront → i = consumer ∧ deqQueue ≠ [])
  | inside call (some item) => call = .popFront ∧ i = consumer ∧ deqQueue.head? = some item
  | leaving call result => call = .isEmpty → result = .flag false → i = consumer → deqQueue ≠ []
  | _ => True

theorem Fits.mono {consumer i : ι} {deqQueue deqQueue' : List α}
    {last last' : Option (ι × QueueCall α × QueueResult α)} {stage : QueueStage α}
    (h : stage.Fits consumer i deqQueue last) (hne : i = consumer → deqQueue ≠ [] → deqQueue' ≠ [])
    (hhead : i = consumer → ∀ item, deqQueue.head? = some item → deqQueue'.head? = some item)
    (hlast : i = consumer → last' = last) : stage.Fits consumer i deqQueue' last' := by
  cases stage with
  | outside => exact fun heq hfound ↦ hne heq (h heq (hlast heq ▸ hfound))
  | entering call =>
      exact ⟨h.1, fun hpop ↦ ⟨(h.2 hpop).1, hne (h.2 hpop).1 (h.2 hpop).2⟩⟩
  | inside call moved =>
      cases moved with
      | none => exact ⟨h.1, fun hpop ↦ ⟨(h.2 hpop).1, hne (h.2 hpop).1 (h.2 hpop).2⟩⟩
      | some item => exact ⟨h.1, h.2.1, hhead h.2.1 item h.2.2⟩
  | leaving call result =>
      exact fun hcall hresult heq ↦ hne heq (h hcall hresult heq)
  | _ => trivial

/-- A thread that comes to a stage where what is known of the deque is true. -/
theorem fits_update [DecidableEq ι] {consumer i : ι} {stage : ι → QueueStage α} {next : QueueStage α}
    {deqQueue : List α} {last : Option (ι × QueueCall α × QueueResult α)}
    (h : ∀ j, (stage j).Fits consumer j deqQueue last) (hnext : next.Fits consumer i deqQueue last)
    (j : ι) : (Function.update stage i next j).Fits consumer j deqQueue last := by
  by_cases heq : j = i
  · subst heq
    rw [Function.update_self]
    exact hnext
  · rw [Function.update_of_ne heq]
    exact h j

def HasBlocking : QueueStage α → Prop
  | .signalling _ => True
  | .notified _ => True
  | .locked => True
  | .awake => True
  | _ => False

/-- How many steps a thread has before it, with those of the thread that it wakes. -/
def weight : QueueStage α → ℕ
  | .outside => 0
  | .entering call => 6 + if call.pushes then 11 else 0
  | .inside call none => 5 + if call.pushes then 11 else 0
  | .inside call (some _) => 4 + if call.pushes then 11 else 0
  | .emplaced _ => 14
  | .signalling _ => 13
  | .notified _ => 4
  | .leaving _ _ => 3
  | .foundEmpty => 2
  | .locked => 1
  | .blocked => 0
  | .woken => 8
  | .awake => 7

theorem weight_afterUnlock_lt (call : QueueCall α) (result : QueueResult α) :
    (afterUnlock call result).weight < 3 := by
  unfold afterUnlock
  split <;> simp [weight]

theorem weight_after_last_lt (call : QueueCall α) (moved : Option α) (result : QueueResult α) :
    (if call.pushes then emplaced call else leaving call result).weight <
      (inside call moved).weight := by
  cases moved with
  | none => cases hpushes : call.pushes <;> simp [weight, hpushes]
  | some item =>
      cases hpushes : call.pushes
      · simp [weight, hpushes]
      · simp [weight, hpushes]

end QueueStage

/-- Neither a new call nor a wakeup that nobody has caused. -/
def SharedQueueEvent.Settles {ι α : Type} : SharedQueueEvent ι α → Prop
  | .call _ _ => False
  | .wakeSpuriously _ => False
  | _ => True

instance {ι α : Type} (e : SharedQueueEvent ι α) : Decidable e.Settles := by
  cases e <;> unfold SharedQueueEvent.Settles <;> infer_instance

namespace SharedQueue

open QueueStage

variable {ι α : Type} {S S' : SharedQueue ι α} {e : SharedQueueEvent ι α}

/-! ## Who has which mutex -/

variable [DecidableEq ι]

/-- Both mutexes are held where the methods hold them. -/
structure Owned (S : SharedQueue ι α) : Prop where
  serialized : Locked.Serialized sections [] S.toLocked
  blocking : ∀ i, (S.stage i).HasBlocking ↔ S.muxBlocking = some i

namespace Owned

theorem init : Owned ({} : SharedQueue ι α) where
  serialized := .init sections []
  blocking i := by simp [HasBlocking]

theorem queue (h : S.Owned) (i : ι) : (atQueue (S.stage i)).HasLock ↔ S.muxQueue = some i :=
  h.serialized.owner i

/-- A change of one thread's stage, and of who has `muxBlocking`. -/
theorem blocking_update (h : S.Owned) {i : ι} {next : QueueStage α} {owner : Option ι}
    (hself : next.HasBlocking ↔ owner = some i)
    (hothers : ∀ j, j ≠ i → (S.muxBlocking = some j ↔ owner = some j)) (j : ι) :
    (Function.update S.stage i next j).HasBlocking ↔ owner = some j := by
  by_cases heq : j = i
  · subst heq
    rw [Function.update_self]
    exact hself
  · rw [Function.update_of_ne heq, h.blocking j]
    exact hothers j heq

/-- A thread that keeps what it has of `muxBlocking`. -/
theorem blocking_keep (h : S.Owned) {i : ι} {next : QueueStage α}
    (hself : next.HasBlocking ↔ (S.stage i).HasBlocking) (j : ι) :
    (Function.update S.stage i next j).HasBlocking ↔ S.muxBlocking = some j :=
  h.blocking_update (hself.trans (h.blocking i)) (fun _ _ ↦ Iff.rfl) j

variable [Fintype ι]

theorem blocking_step (h : S.Owned) (hstep : S.step e = some S') (i : ι) :
    (S'.stage i).HasBlocking ↔ S'.muxBlocking = some i := by
  cases moves_of_step hstep with
  | call call hstage => exact h.blocking_keep (by simp [hstage, HasBlocking]) i
  | lock hstage _ => exact h.blocking_keep (by simp [hstage, HasBlocking]) i
  | more hstage _ => exact h.blocking_keep (by simp [hstage, HasBlocking]) i
  | @last j call moved deqQueue result hstage _ =>
      refine h.blocking_keep ?_ i
      rw [hstage]
      split <;> exact Iff.rfl
  | @lockBlocking j stage hfree hstage =>
      refine h.blocking_update ?_ (fun k hne ↦ ?_) i
      · rcases hstage with ⟨call, -, rfl⟩ | ⟨-, rfl⟩ | ⟨-, rfl⟩ <;> simp [HasBlocking]
      · simp [hfree, hne.symm]
  | @wake j k call hstage hblocked =>
      by_cases heq : i = k
      · subst heq
        have hnone := h.blocking i
        rw [hblocked] at hnone
        simp only [Function.update_self]
        exact hnone
      · simp only [Function.update_of_ne heq]
        exact h.blocking_keep (by simp [hstage, HasBlocking]) i
  | notify hstage => exact h.blocking_keep (by simp [hstage, HasBlocking]) i
  | @unlockBlocking j stage hstage =>
      have howner : S.muxBlocking = some j := by
        apply (h.blocking j).mp
        rcases hstage with ⟨call, hstage, -⟩ | ⟨hstage, -⟩ <;> rw [hstage] <;> trivial
      refine h.blocking_update ?_ (fun k hne ↦ ?_) i
      · rcases hstage with ⟨call, -, rfl⟩ | ⟨-, rfl⟩ <;> simp [HasBlocking]
      · simp [howner, hne.symm]
  | @unlock j call result hstage =>
      refine h.blocking_keep ?_ i
      rw [hstage]
      unfold afterUnlock
      split <;> exact Iff.rfl
  | @wait j hstage =>
      have howner : S.muxBlocking = some j := (h.blocking j).mp (by rw [hstage]; trivial)
      refine h.blocking_update (by simp [HasBlocking]) (fun k hne ↦ ?_) i
      simp [howner, hne.symm]
  | wakeSpuriously hstage => exact h.blocking_keep (by simp [hstage, HasBlocking]) i

theorem step (h : S.Owned) (hstep : S.step e = some S') : S'.Owned where
  serialized := by
    rcases toLocked_step hstep with heq | ⟨e', hstep'⟩
    · rw [heq]
      exact h.serialized
    · exact h.serialized.step hstep'
  blocking := h.blocking_step hstep

theorem of_reaches {allowed : SharedQueue ι α → SharedQueueEvent ι α → Prop}
    (h : Reaches SharedQueue.step allowed ({} : SharedQueue ι α) S) : S.Owned :=
  h.invariant .init fun _ _ _ howned _ hstep ↦ howned.step hstep

end Owned

/-! ## No deadlock -/

variable [Fintype ι]

def load (S : SharedQueue ι α) : ℕ := ∑ i, (S.stage i).weight

theorem sum_weight_update (stage : ι → QueueStage α) (i : ι) (next : QueueStage α) :
    ∑ j, (Function.update stage i next j).weight + (stage i).weight =
      ∑ j, (stage j).weight + next.weight := by
  rw [← Finset.add_sum_erase _ _ (Finset.mem_univ i),
    ← Finset.add_sum_erase _ (fun j ↦ (stage j).weight) (Finset.mem_univ i)]
  have hothers : ∑ j ∈ Finset.univ.erase i, (Function.update stage i next j).weight =
      ∑ j ∈ Finset.univ.erase i, (stage j).weight := by
    refine Finset.sum_congr rfl fun j hj ↦ ?_
    rw [Function.update_of_ne (Finset.ne_of_mem_erase hj)]
  rw [hothers, Function.update_self]
  omega

theorem load_lt_of_update {i : ι} {next : QueueStage α}
    (h : S'.stage = Function.update S.stage i next) (hlt : next.weight < (S.stage i).weight) :
    S'.load < S.load := by
  have hsum := sum_weight_update S.stage i next
  unfold load
  rw [h]
  omega

/-- A notification costs its thread more than the thread that it wakes gains. -/
theorem load_lt_of_wake {i j : ι} {call : QueueCall α} (hi : S.stage i = .signalling call)
    (hj : S.stage j = .blocked)
    (h : S'.stage = Function.update (Function.update S.stage i (.notified call)) j .woken) :
    S'.load < S.load := by
  have hne : j ≠ i := fun heq ↦ by
    rw [heq, hi] at hj
    cases hj
  have hfirst := sum_weight_update S.stage i (.notified call)
  have hsecond := sum_weight_update (Function.update S.stage i (.notified call)) j .woken
  rw [Function.update_of_ne hne, hj] at hsecond
  rw [hi] at hfirst
  have hsignalling : (signalling call).weight = 13 := rfl
  have hnotified : (notified call).weight = 4 := rfl
  have hwoken : (woken : QueueStage α).weight = 8 := rfl
  unfold load
  rw [h]
  omega

theorem load_decreases (hsettles : e.Settles) (hstep : S.step e = some S') : S'.load < S.load := by
  cases moves_of_step hstep with
  | call => exact absurd hsettles id
  | @lock i call hstage _ =>
      exact load_lt_of_update rfl (by rw [hstage]; simp [weight])
  | @more i call moved deqQueue item hstage haccess =>
      refine load_lt_of_update rfl ?_
      cases QueueCall.accesses_of_access haccess with
      | moveFront => rw [hstage]; simp [weight]
      | moveBack => rw [hstage]; simp [weight]
  | @last i call moved deqQueue result hstage _ =>
      exact load_lt_of_update rfl (by rw [hstage]; exact weight_after_last_lt call moved result)
  | @lockBlocking i stage _ hstage =>
      refine load_lt_of_update rfl ?_
      rcases hstage with ⟨call, hstage, rfl⟩ | ⟨hstage, rfl⟩ | ⟨hstage, rfl⟩ <;>
        simp [hstage, weight]
  | wake hstage hblocked => exact load_lt_of_wake hstage hblocked rfl
  | notify hstage => exact load_lt_of_update rfl (by simp [hstage, weight])
  | @unlockBlocking i stage hstage =>
      refine load_lt_of_update rfl ?_
      rcases hstage with ⟨call, hstage, rfl⟩ | ⟨hstage, rfl⟩ <;>
        simp [hstage, weight, QueueCall.pushes]
  | @unlock i call result hstage =>
      exact load_lt_of_update rfl (by rw [hstage]; exact weight_afterUnlock_lt call result)
  | wait hstage => exact load_lt_of_update rfl (by simp [hstage, weight])
  | wakeSpuriously => exact absurd hsettles id

/-- Every thread has returned or sleeps in `Wait`, or one is at an end of an empty deque. -/
def Settled (S : SharedQueue ι α) : Prop :=
  (∀ i, S.stage i = .outside ∨ S.stage i = .blocked) ∨
    ∃ i call moved, S.stage i = .inside call moved ∧ call.access moved S.deqQueue = none

/-- The thread that has `muxBlocking` can go on. -/
theorem exists_step_of_hasBlocking {i : ι} (h : (S.stage i).HasBlocking) :
    ∃ e : SharedQueueEvent ι α, e.Settles ∧ S.step e ≠ none := by
  cases hstage : S.stage i with
  | signalling call =>
      by_cases hblocked : ∃ j, (S.stage j).isBlocked = true
      · obtain ⟨j, hj⟩ := hblocked
        exact ⟨.notifyOne i (some j), trivial, by simp [step, hstage, hj]⟩
      · push Not at hblocked
        exact ⟨.notifyOne i none, trivial, by simp [step, hstage, hblocked]⟩
  | notified call => exact ⟨.unlockBlocking i, trivial, by simp [step, hstage]⟩
  | locked => exact ⟨.wait i, trivial, by simp [step, hstage]⟩
  | awake => exact ⟨.unlockBlocking i, trivial, by simp [step, hstage]⟩
  | _ => simp [hstage, HasBlocking] at h

/-- A thread that waits for no mutex but `muxBlocking`, which nobody has. -/
theorem exists_step_of_hasLock (hfree : S.muxBlocking = none) {i : ι}
    (hlock : (atQueue (S.stage i)).HasLock) :
    S.Settled ∨ ∃ e : SharedQueueEvent ι α, e.Settles ∧ S.step e ≠ none := by
  cases hstage : S.stage i with
  | inside call moved =>
      cases haccess : call.access moved S.deqQueue with
      | none => exact .inl (.inr ⟨i, call, moved, hstage, haccess⟩)
      | some done =>
          obtain ⟨deqQueue, next⟩ := done
          refine .inr ⟨.access i, trivial, ?_⟩
          cases next with
          | inl item => simp [step, hstage, haccess]
          | inr result => simp [step, hstage, haccess]
  | emplaced call => exact .inr ⟨.lockBlocking i, trivial, by simp [step, hstage, hfree]⟩
  | leaving call result => exact .inr ⟨.unlock i, trivial, by simp [step, hstage]⟩
  | signalling call =>
      exact .inr (exists_step_of_hasBlocking (by rw [hstage]; trivial))
  | notified call => exact .inr (exists_step_of_hasBlocking (by rw [hstage]; trivial))
  | _ => simp [hstage, atQueue, Stage.HasLock] at hlock

theorem settled_or_exists_step (h : S.Owned) :
    S.Settled ∨ ∃ e : SharedQueueEvent ι α, e.Settles ∧ S.step e ≠ none := by
  cases hblocking : S.muxBlocking with
  | some i => exact .inr (exists_step_of_hasBlocking ((h.blocking i).mpr hblocking))
  | none =>
      cases hqueue : S.muxQueue with
      | some i => exact exists_step_of_hasLock hblocking ((h.queue i).mpr hqueue)
      | none =>
          -- both mutexes are free for whoever asks
          by_contra hstuck
          push Not at hstuck
          obtain ⟨hsettled, hstuck⟩ := hstuck
          refine hsettled (.inl fun i ↦ ?_)
          have hlock := hstuck (.lock i) trivial
          have hlockBlocking := hstuck (.lockBlocking i) trivial
          have hnone : ¬ (atQueue (S.stage i)).HasLock := fun hlock ↦ by
            rw [(h.queue i).mp hlock] at hqueue
            cases hqueue
          have hnone' : ¬ (S.stage i).HasBlocking := fun hblock ↦ by
            rw [(h.blocking i).mp hblock] at hblocking
            cases hblocking
          cases hstage : S.stage i with
          | outside => exact .inl rfl
          | blocked => exact .inr rfl
          | entering call => simp [step, hstage, hqueue] at hlock
          | foundEmpty => simp [step, hstage, hblocking] at hlockBlocking
          | woken => simp [step, hstage, hblocking] at hlockBlocking
          | locked => simp [hstage, HasBlocking] at hnone'
          | awake => simp [hstage, HasBlocking] at hnone'
          | _ => simp [hstage, atQueue, Stage.HasLock] at hnone

/-- From every state that the threads can come to, and in every order of steps: when
no more calls are made and no wakeup is spurious, the steps come to an end, and then
every thread has returned or sleeps in `Wait`, unless one is at an end of an empty
deque. -/
theorem settled_inevitable (h : Reaches step (fun _ _ ↦ True) ({} : SharedQueue ι α) S) :
    Inevitably (guarded step fun _ e ↦ SharedQueueEvent.Settles e) Settled S := by
  apply Inevitably.of_measure Owned load
  · intro T e T' howned hguarded
    obtain ⟨hsettles, hstep⟩ := Option.ite_none_right_eq_some.mp hguarded
    exact ⟨howned.step hstep, load_decreases hsettles hstep⟩
  · intro T howned hhalt
    rcases settled_or_exists_step howned with hsettled | ⟨e, hsettles, hstep⟩
    · exact hsettled
    · have hnone := hhalt e
      simp only [guarded, hsettles, if_true] at hnone
      exact absurd hnone hstep
  · exact Owned.of_reaches h

theorem settled_inevitable_pushWait : ∃ S : SharedQueue (Fin 2) ℕ,
    S.stage 0 = .entering (.pushBack 7) ∧ S.stage 1 = .blocked ∧
      Inevitably (guarded step fun _ e ↦ SharedQueueEvent.Settles e) Settled S := by
  obtain ⟨S, hreaches, hS⟩ := @exists_reaches_of_run _ _ step ({} : SharedQueue (Fin 2) ℕ)
    [.call 1 .wait, .lock 1, .access 1, .unlock 1, .call 0 (.pushBack 7), .lockBlocking 1, .wait 1]
    (fun S ↦ decide (S.stage 0 = .entering (.pushBack 7) ∧ S.stage 1 = .blocked))
    (by decide +kernel)
  obtain ⟨hpushing, hblocked⟩ := of_decide_eq_true hS
  exact ⟨S, hpushing, hblocked, settled_inevitable hreaches⟩

/-! ## One thread that pops -/

/-- How the loops around a queue use it: anybody appends, and only the thread that
has just found the queue nonempty pops. -/
def PopsWhenNonempty (consumer : ι) (S : SharedQueue ι α) : SharedQueueEvent ι α → Prop
  | .call _ (.pushBack _) => True
  | .call _ .isEmpty => True
  | .call _ .count => True
  | .call _ .wait => True
  | .call i .popFront => i = consumer ∧
      (Locked.ofThread consumer S.returned).getLast? = some (consumer, .isEmpty, .flag false)
  | .call _ _ => False
  | _ => True

instance [DecidableEq α] (consumer : ι) (S : SharedQueue ι α) (e : SharedQueueEvent ι α) :
    Decidable (S.PopsWhenNonempty consumer e) := by
  rcases e with ⟨i, call⟩ | _ | _ | _ | _ | _ | _ | _ | _
  · cases call <;> unfold PopsWhenNonempty <;> infer_instance
  all_goals
    unfold PopsWhenNonempty
    infer_instance

/-- The items that have been appended, in their order. -/
def pushed (S : SharedQueue ι α) : List α := S.effects.filterMap fun entry ↦ entry.2.1.appended

def popped (S : SharedQueue ι α) : List α := S.effects.filterMap fun entry ↦ entry.2.1.taken entry.2.2

structure Fed (consumer : ι) (S : SharedQueue ι α) : Prop where
  owned : S.Owned
  queue : S.pushed = S.popped ++ S.deqQueue
  fits : ∀ i, (S.stage i).Fits consumer i S.deqQueue (Locked.ofThread consumer S.returned).getLast?

namespace Fed

variable {consumer : ι}

omit [Fintype ι] in
/-- A step that touches neither the deque nor what has been done with it. -/
theorem of_update (h : S.Fed consumer) {i : ι} {next : QueueStage α} (howned : S'.Owned)
    (hstage : S'.stage = Function.update S.stage i next) (hdeque : S'.deqQueue = S.deqQueue)
    (heffects : S'.effects = S.effects) (hreturned : S'.returned = S.returned)
    (hnext : next.Fits consumer i S.deqQueue (Locked.ofThread consumer S.returned).getLast?) :
    S'.Fed consumer where
  owned := howned
  queue := by
    unfold pushed popped
    rw [heffects, hdeque]
    exact h.queue
  fits := by
    rw [hstage, hdeque, hreturned]
    exact fits_update h.fits hnext

omit [Fintype ι] in
/-- The last access of a call. -/
theorem of_last (h : S.Fed consumer) {i : ι} {call : QueueCall α} {moved : Option α}
    {deqQueue : List α} {result : QueueResult α} (hstage : S.stage i = .inside call moved)
    (haccess : call.access moved S.deqQueue = some (deqQueue, .inr result)) (howned : S'.Owned)
    (hS' : S' = { S with
      deqQueue
      stage := Function.update S.stage i
        (if call.pushes then .emplaced call else .leaving call result)
      effects := S.effects ++ [(i, call, result)] }) : S'.Fed consumer := by
  subst hS'
  have hfits := h.fits i
  rw [hstage] at hfits
  have hqueue := h.queue
  unfold pushed popped at hqueue
  cases QueueCall.accesses_of_access haccess with
  | popBack => cases hfits.1
  | @popFront item hne =>
      obtain ⟨-, hconsumer, hhead⟩ := hfits
      obtain ⟨rest, hdeque⟩ := List.head?_eq_some_iff.mp hhead
      refine ⟨howned, ?_, fun j ↦ ?_⟩
      · simp only [pushed, popped, List.filterMap_append, hqueue, hdeque]
        simp [QueueCall.appended, QueueCall.taken]
      · -- the consumer is in `PopFront` itself, and the others know nothing of the deque
        by_cases hj : j = i
        · subst hj
          simp only [Function.update_self]
          exact fun hcall ↦ by cases hcall
        · have hne : j ≠ consumer := fun heq ↦ hj (heq.trans hconsumer.symm)
          simp only [Function.update_of_ne hj]
          exact (h.fits j).mono (fun heq ↦ absurd heq hne) (fun heq ↦ absurd heq hne)
            fun heq ↦ absurd heq hne
  | whole hfront _ happly =>
      cases call with
      | pushBack item =>
          cases happly
          refine ⟨howned, ?_, fits_update (fun j ↦ (h.fits j).mono ?_ ?_ fun _ ↦ rfl) trivial⟩
          · simp only [pushed, popped, List.filterMap_append, hqueue]
            simp [QueueCall.appended, QueueCall.taken]
          · exact fun _ _ hnil ↦ by simp at hnil
          · intro _ item' hhead
            rw [List.head?_append, hhead]
            rfl
      | isEmpty =>
          cases happly
          refine ⟨howned, ?_, fits_update h.fits fun _ hflag _ ↦ ?_⟩
          · simp only [pushed, popped, List.filterMap_append, hqueue]
            simp [QueueCall.appended, QueueCall.taken]
          · simpa using hflag
      | count =>
          cases happly
          refine ⟨howned, ?_, fits_update h.fits fun hcall ↦ by cases hcall⟩
          simp only [pushed, popped, List.filterMap_append, hqueue]
          simp [QueueCall.appended, QueueCall.taken]
      | wait =>
          cases happly
          refine ⟨howned, ?_, fits_update h.fits fun hcall ↦ by cases hcall⟩
          simp only [pushed, popped, List.filterMap_append, hqueue]
          simp [QueueCall.appended, QueueCall.taken]
      | popFront => exact absurd rfl hfront
      | _ => exact absurd hfits.1 id

theorem step (h : S.Fed consumer) (hallowed : S.PopsWhenNonempty consumer e)
    (hstep : S.step e = some S') : S'.Fed consumer := by
  have howned := h.owned.step hstep
  cases moves_of_step hstep with
  | @call i call hstage =>
      refine h.of_update howned rfl rfl rfl rfl ?_
      have hfits := h.fits i
      rw [hstage] at hfits
      cases call with
      | popFront => exact ⟨trivial, fun _ ↦ ⟨hallowed.1, hfits hallowed.1 hallowed.2⟩⟩
      | pushBack item => exact ⟨trivial, fun hpop ↦ by cases hpop⟩
      | isEmpty => exact ⟨trivial, fun hpop ↦ by cases hpop⟩
      | count => exact ⟨trivial, fun hpop ↦ by cases hpop⟩
      | wait => exact ⟨trivial, fun hpop ↦ by cases hpop⟩
      | _ => exact absurd hallowed id
  | @lock i call hstage _ =>
      refine h.of_update howned rfl rfl rfl rfl ?_
      have hfits := h.fits i
      rw [hstage] at hfits
      exact hfits
  | @more i call moved deqQueue item hstage haccess =>
      have hfits := h.fits i
      rw [hstage] at hfits
      cases QueueCall.accesses_of_access haccess with
      | moveFront hhead =>
          exact h.of_update howned rfl rfl rfl rfl ⟨rfl, (hfits.2 rfl).1, hhead⟩
      | moveBack => exact absurd hfits.1 id
  | last hstage haccess => exact h.of_last hstage haccess howned rfl
  | @lockBlocking i stage _ hstage =>
      refine h.of_update howned rfl rfl rfl rfl ?_
      rcases hstage with ⟨call, -, rfl⟩ | ⟨-, rfl⟩ | ⟨-, rfl⟩ <;> trivial
  | wake => exact ⟨howned, h.queue, fits_update (fits_update h.fits trivial) trivial⟩
  | notify => exact h.of_update howned rfl rfl rfl rfl trivial
  | @unlockBlocking i stage hstage =>
      refine h.of_update howned rfl rfl rfl rfl ?_
      rcases hstage with ⟨call, -, rfl⟩ | ⟨-, rfl⟩
      · exact fun _ hresult ↦ by cases hresult
      · exact ⟨trivial, fun hpop ↦ by cases hpop⟩
  | @unlock i call result hstage =>
      have hfits := h.fits i
      rw [hstage] at hfits
      refine ⟨howned, h.queue, fun j ↦ ?_⟩
      by_cases hj : j = i
      · subst hj
        simp only [Function.update_self]
        unfold afterUnlock
        split
        · trivial
        · intro heq hlast
          subst heq
          rw [Locked.ofThread_concat_self, List.getLast?_concat] at hlast
          cases hlast
          exact hfits rfl rfl rfl
      · simp only [Function.update_of_ne hj]
        refine (h.fits j).mono (fun _ ↦ id) (fun _ _ ↦ id) fun heq ↦ ?_
        rw [Locked.ofThread_concat_ne (fun hi ↦ hj (heq.trans hi.symm))]
  | wait => exact h.of_update howned rfl rfl rfl rfl trivial
  | wakeSpuriously => exact h.of_update howned rfl rfl rfl rfl trivial

theorem of_reaches (h : Reaches SharedQueue.step (PopsWhenNonempty consumer)
    ({} : SharedQueue ι α) S) : S.Fed consumer := by
  have hinit : Fed consumer ({} : SharedQueue ι α) :=
    ⟨.init, rfl, fun i _ hlast ↦ by cases hlast⟩
  exact h.invariant hinit fun _ _ _ hfed hallowed hstep ↦ hfed.step hallowed hstep

omit [Fintype ι] in
/-- The next access of a thread is defined. -/
theorem access_ne_none (h : S.Fed consumer) {i : ι} {call : QueueCall α} {moved : Option α}
    (hstage : S.stage i = .inside call moved) : call.access moved S.deqQueue ≠ none := by
  have hfits := h.fits i
  rw [hstage] at hfits
  cases moved with
  | none =>
      cases call with
      | popFront => simpa [QueueCall.access] using (hfits.2 rfl).2
      | pushBack item => simp [QueueCall.access, QueueCall.apply]
      | isEmpty => simp [QueueCall.access, QueueCall.apply]
      | count => simp [QueueCall.access, QueueCall.apply]
      | wait => simp [QueueCall.access, QueueCall.apply]
      | _ => exact absurd hfits.1 id
  | some item =>
      obtain ⟨rfl, -, hhead⟩ := hfits
      have hne : S.deqQueue ≠ [] := fun hnil ↦ by simp [hnil] at hhead
      simp [QueueCall.access, hne]

end Fed

/-- One thread that pops only after `IsEmpty()` has returned false, and any number of
threads that append: what has been appended has been popped, in its order, or waits
in the deque, and no method comes to an end of an empty deque. -/
theorem fifo_of_reaches {consumer : ι}
    (h : Reaches step (PopsWhenNonempty consumer) ({} : SharedQueue ι α) S) :
    S.pushed = S.popped ++ S.deqQueue ∧
      ∀ i call moved, S.stage i = .inside call moved → call.access moved S.deqQueue ≠ none := by
  have hfed := Fed.of_reaches h
  exact ⟨hfed.queue, fun _ _ _ hstage ↦ hfed.access_ne_none hstage⟩

theorem fifo_of_reaches_two : ∃ S : SharedQueue (Fin 3) ℕ,
    S.popped = [7] ∧ S.pushed = S.popped ++ S.deqQueue ∧ S.deqQueue = [8] := by
  obtain ⟨S, hrun, hS⟩ := @exists_run_of_any _ _ (guarded step (PopsWhenNonempty 2))
    ({} : SharedQueue (Fin 3) ℕ)
    [.call 0 (.pushBack 7), .call 1 (.pushBack 8), .lock 0, .access 0, .lockBlocking 0,
      .notifyOne 0 none, .unlockBlocking 0, .unlock 0, .call 2 .isEmpty, .lock 2, .access 2,
      .unlock 2, .call 2 .popFront, .lock 1, .access 1, .lockBlocking 1, .notifyOne 1 none,
      .unlockBlocking 1, .unlock 1, .lock 2, .access 2, .access 2]
    (fun S ↦ decide (S.popped = [7] ∧ S.deqQueue = [8])) (by decide +kernel)
  obtain ⟨hpopped, hdeque⟩ := of_decide_eq_true hS
  exact ⟨S, hpopped, (fifo_of_reaches (reaches_of_guarded hrun)).1, hdeque⟩

end SharedQueue

end SnekCpp.Networking
