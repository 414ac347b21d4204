import SnekCpp.Lib.Transition

/-!
# The blocking wait of a queue

`PushBack` on one thread and `Wait` and `PopFront` on another one.  Every
section that a mutex protects is one step.  `IsEmpty` looks at the queue under
`muxQueue`, and `Wait` sleeps under `muxBlocking`.
-/

namespace SnekCpp.Networking

open Lib

/-- Where the thread is that calls `PushBack`. -/
inductive Producer
  | idle
  /-- It holds `muxQueue` and has emplaced the item. -/
  | emplaced
  /-- It holds both mutexes and has notified. -/
  | notified
  deriving DecidableEq

/-- Where the thread is that calls `Update` over and over. -/
inductive Consumer
  /-- In `Wait`, before `IsEmpty()`. -/
  | testing
  /-- In `Wait`, where `IsEmpty()` has returned true. -/
  | foundEmpty
  /-- In `Wait`, with `muxBlocking`. -/
  | locked
  /-- In `cvBlocking.wait`, and no notification is pending. -/
  | blocked
  /-- In `cvBlocking.wait`, about to lock `muxBlocking` again. -/
  | woken
  /-- In the loop of `Update`, before its condition. -/
  | updating (messageCount : ℕ)
  /-- In the loop of `Update`, before `PopFront()`. -/
  | popping (messageCount : ℕ)
  deriving DecidableEq

structure Queue (α : Type) where
  deqQueue : List α := []
  producer : Producer := .idle
  consumer : Consumer := .testing
  deriving DecidableEq

inductive QueueEvent (α : Type)
  /-- `PushBack` locks `muxQueue` and emplaces an item. -/
  | emplaceBack (item : α)
  /-- `PushBack` locks `muxBlocking` and notifies. -/
  | notifyOne
  /-- `PushBack` returns and unlocks both. -/
  | unlock
  /-- The consumer calls `IsEmpty()`. -/
  | isEmpty
  /-- The consumer locks `muxBlocking`. -/
  | lock
  /-- `cvBlocking.wait` unlocks `muxBlocking` and blocks. -/
  | wait
  /-- `cvBlocking.wait` wakes without a notification. -/
  | wakeSpuriously
  /-- `cvBlocking.wait` locks `muxBlocking`, and the body of the loop ends. -/
  | endWait
  | popFront
  /-- `Update` returns after `maxMessages` messages. -/
  | endUpdate

namespace Queue

variable {α : Type}

def notified : Consumer → Consumer
  | .blocked => .woken
  | consumer => consumer

/-- A section that needs `muxQueue` waits for a `PushBack` that is in progress. -/
def step (maxMessages : ℕ) (Q : Queue α) : QueueEvent α → Option (Queue α)
  | .emplaceBack item =>
      if Q.producer = .idle then
        some { Q with deqQueue := Q.deqQueue ++ [item], producer := .emplaced }
      else none
  | .notifyOne =>
      if Q.producer = .emplaced ∧ Q.consumer ≠ .locked then
        some { Q with producer := .notified, consumer := notified Q.consumer }
      else none
  | .unlock => if Q.producer = .notified then some { Q with producer := .idle } else none
  | .isEmpty =>
      if Q.producer = .idle then
        match Q.consumer with
        | .testing =>
            some { Q with consumer := if Q.deqQueue.isEmpty then .foundEmpty else .updating 0 }
        | .updating messageCount =>
            if messageCount < maxMessages then
              some { Q with
                consumer := if Q.deqQueue.isEmpty then .testing else .popping messageCount }
            else none
        | _ => none
      else none
  | .lock =>
      if Q.consumer = .foundEmpty ∧ Q.producer ≠ .notified then some { Q with consumer := .locked }
      else none
  | .wait => if Q.consumer = .locked then some { Q with consumer := .blocked } else none
  | .wakeSpuriously => if Q.consumer = .blocked then some { Q with consumer := .woken } else none
  | .endWait =>
      if Q.consumer = .woken ∧ Q.producer ≠ .notified then some { Q with consumer := .testing }
      else none
  | .popFront =>
      match Q.consumer with
      | .popping messageCount =>
          if Q.producer = .idle then
            some { Q with deqQueue := Q.deqQueue.tail, consumer := .updating (messageCount + 1) }
          else none
      | _ => none
  | .endUpdate =>
      match Q.consumer with
      | .updating messageCount =>
          if maxMessages ≤ messageCount then some { Q with consumer := .testing } else none
      | _ => none

/-! ## What a step can do -/

/-- Every step, with what it found in the state. -/
inductive Moves (maxMessages : ℕ) (Q : Queue α) : QueueEvent α → Queue α → Prop
  | emplaceBack (item : α) (hidle : Q.producer = .idle) :
      Moves maxMessages Q (.emplaceBack item)
        { Q with deqQueue := Q.deqQueue ++ [item], producer := .emplaced }
  | notifyOne (hemplaced : Q.producer = .emplaced) (hfree : Q.consumer ≠ .locked) :
      Moves maxMessages Q .notifyOne
        { Q with producer := .notified, consumer := notified Q.consumer }
  | unlock (hnotified : Q.producer = .notified) :
      Moves maxMessages Q .unlock { Q with producer := .idle }
  | test (hidle : Q.producer = .idle) (htesting : Q.consumer = .testing) :
      Moves maxMessages Q .isEmpty
        { Q with consumer := if Q.deqQueue.isEmpty then .foundEmpty else .updating 0 }
  | update {messageCount : ℕ} (hidle : Q.producer = .idle)
      (hupdating : Q.consumer = .updating messageCount) :
      Moves maxMessages Q .isEmpty
        { Q with consumer := if Q.deqQueue.isEmpty then .testing else .popping messageCount }
  | lock (hfound : Q.consumer = .foundEmpty) (hfree : Q.producer ≠ .notified) :
      Moves maxMessages Q .lock { Q with consumer := .locked }
  | wait (hlocked : Q.consumer = .locked) : Moves maxMessages Q .wait { Q with consumer := .blocked }
  | wakeSpuriously (hblocked : Q.consumer = .blocked) :
      Moves maxMessages Q .wakeSpuriously { Q with consumer := .woken }
  | endWait (hwoken : Q.consumer = .woken) : Moves maxMessages Q .endWait { Q with consumer := .testing }
  | popFront {messageCount : ℕ} (hpopping : Q.consumer = .popping messageCount) :
      Moves maxMessages Q .popFront
        { Q with deqQueue := Q.deqQueue.tail, consumer := .updating (messageCount + 1) }
  | endUpdate {messageCount : ℕ} (hupdating : Q.consumer = .updating messageCount) :
      Moves maxMessages Q .endUpdate { Q with consumer := .testing }

variable {maxMessages : ℕ} {Q Q' : Queue α} {e : QueueEvent α}

theorem moves_of_step (h : Q.step maxMessages e = some Q') : Moves maxMessages Q e Q' := by
  cases e with
  | emplaceBack item =>
      obtain ⟨hidle, h⟩ := Option.ite_none_right_eq_some.mp h
      cases h
      exact .emplaceBack item hidle
  | notifyOne =>
      obtain ⟨hready, h⟩ := Option.ite_none_right_eq_some.mp h
      cases h
      exact .notifyOne hready.1 hready.2
  | unlock =>
      obtain ⟨hnotified, h⟩ := Option.ite_none_right_eq_some.mp h
      cases h
      exact .unlock hnotified
  | isEmpty =>
      obtain ⟨hidle, h⟩ := Option.ite_none_right_eq_some.mp h
      split at h
      · next htesting =>
          cases h
          exact .test hidle htesting
      · next messageCount hupdating =>
          obtain ⟨-, h⟩ := Option.ite_none_right_eq_some.mp h
          cases h
          exact .update hidle hupdating
      · cases h
  | lock =>
      obtain ⟨hready, h⟩ := Option.ite_none_right_eq_some.mp h
      cases h
      exact .lock hready.1 hready.2
  | wait =>
      obtain ⟨hlocked, h⟩ := Option.ite_none_right_eq_some.mp h
      cases h
      exact .wait hlocked
  | wakeSpuriously =>
      obtain ⟨hblocked, h⟩ := Option.ite_none_right_eq_some.mp h
      cases h
      exact .wakeSpuriously hblocked
  | endWait =>
      obtain ⟨hready, h⟩ := Option.ite_none_right_eq_some.mp h
      cases h
      exact .endWait hready.1
  | popFront =>
      simp only [step] at h
      split at h
      · next messageCount hpopping =>
          obtain ⟨-, h⟩ := Option.ite_none_right_eq_some.mp h
          cases h
          exact .popFront hpopping
      · cases h
  | endUpdate =>
      simp only [step] at h
      split at h
      · next messageCount hupdating =>
          obtain ⟨-, h⟩ := Option.ite_none_right_eq_some.mp h
          cases h
          exact .endUpdate hupdating
      · cases h

/-! ## Lost wakeups -/

/-- The consumer sleeps although there is an item, and no `PushBack` is in progress. -/
structure Lost (Q : Queue α) : Prop where
  completed : Q.producer = .idle
  nonempty : Q.deqQueue ≠ []
  blocked : Q.consumer = .blocked

/-- `Wait` starts to sleep only while the queue is still empty, or a `PushBack`
has yet to notify. -/
def InTime (Q : Queue α) : QueueEvent α → Prop
  | .wait => Q.deqQueue = [] ∨ Q.producer = .emplaced
  | _ => True

def LosesNoWakeup (maxMessages : ℕ) (events : List (QueueEvent α)) : Prop :=
  ∀ done Q, done <+: events → run (step maxMessages) {} done = some Q → ¬ Q.Lost

def SleepsInTime (maxMessages : ℕ) (events : List (QueueEvent α)) : Prop :=
  ∀ done e Q Q', done ++ [e] <+: events → run (step maxMessages) {} done = some Q →
    Q.step maxMessages e = some Q' → Q.InTime e

/-- The two threads never hold `muxBlocking` together. -/
def Exclusive (Q : Queue α) : Prop := Q.consumer = .locked → Q.producer ≠ .notified

/-- A consumer that sleeps has nothing to do, or a notification is to come. -/
def Awaited (Q : Queue α) : Prop :=
  Q.consumer = .blocked → Q.deqQueue = [] ∨ Q.producer = .emplaced

theorem notified_ne_blocked (consumer : Consumer) : notified consumer ≠ .blocked := by
  cases consumer <;> exact fun h ↦ by cases h

theorem eq_locked_of_notified {consumer : Consumer} (h : notified consumer = .locked) :
    consumer = .locked := by
  cases consumer with
  | locked => rfl
  | _ => cases h

theorem ite_consumer_ne {b : Bool} {first second other : Consumer} (hfirst : first ≠ other)
    (hsecond : second ≠ other) : (if b = true then first else second) ≠ other := by
  split
  · exact hfirst
  · exact hsecond

theorem exclusive_of_step (hstep : Q.step maxMessages e = some Q') : Q'.Exclusive := by
  intro hlocked hnotified
  cases moves_of_step hstep with
  | emplaceBack => cases hnotified
  | notifyOne _ hfree => exact hfree (eq_locked_of_notified hlocked)
  | unlock => cases hnotified
  | test => exact ite_consumer_ne (by decide) (by simp) hlocked
  | update => exact ite_consumer_ne (by decide) (by simp) hlocked
  | lock _ hfree => exact hfree hnotified
  | wait => cases hlocked
  | wakeSpuriously => cases hlocked
  | endWait => cases hlocked
  | popFront => cases hlocked
  | endUpdate => cases hlocked

theorem Awaited.step (h : Q.Awaited) (hintime : Q.InTime e)
    (hstep : Q.step maxMessages e = some Q') : Q'.Awaited := by
  intro hblocked
  cases moves_of_step hstep with
  | emplaceBack => exact .inr rfl
  | notifyOne => exact absurd hblocked (notified_ne_blocked _)
  | unlock hnotified =>
      rcases h hblocked with hempty | hemplaced
      · exact .inl hempty
      · rw [hnotified] at hemplaced
        cases hemplaced
  | test => exact absurd hblocked (ite_consumer_ne (by decide) (by simp))
  | update => exact absurd hblocked (ite_consumer_ne (by decide) (by simp))
  | lock => cases hblocked
  | wait => exact hintime
  | wakeSpuriously => cases hblocked
  | endWait => cases hblocked
  | popFront => cases hblocked
  | endUpdate => cases hblocked

/-- The consumer that starts to sleep too late sleeps on. -/
theorem lost_of_wait (h : Q.Exclusive) (hstep : Q.step maxMessages .wait = some Q')
    (hlate : ¬ Q.InTime (.wait : QueueEvent α)) : Q'.Lost := by
  have hlate' : Q.deqQueue ≠ [] ∧ Q.producer ≠ .emplaced := not_or.mp hlate
  cases moves_of_step hstep with
  | wait hlocked =>
      refine ⟨?_, hlate'.1, rfl⟩
      have hfree := h hlocked
      cases hproducer : Q.producer with
      | idle => rfl
      | emplaced => exact absurd hproducer hlate'.2
      | notified => exact absurd hproducer hfree

/-- A run loses no wakeup exactly when `Wait` never starts to sleep on a queue
that has been filled and notified since it was tested. -/
theorem losesNoWakeup_iff (maxMessages : ℕ) (events : List (QueueEvent α)) :
    LosesNoWakeup maxMessages events ↔ SleepsInTime maxMessages events := by
  have hexclusive : ∀ {done} {Q : Queue α}, run (step maxMessages) {} done = some Q → Q.Exclusive :=
    fun h ↦ (reaches_of_run h).invariant (fun hlocked ↦ by cases hlocked)
      fun _ _ _ _ _ hstep ↦ exclusive_of_step hstep
  constructor
  · intro hnever done e Q Q' hpart hrun hstep
    by_contra hlate
    cases e with
    | wait =>
        apply hnever (done ++ [.wait]) Q' hpart
        · rw [run_concat, hrun]
          exact hstep
        · exact lost_of_wait (hexclusive hrun) hstep hlate
    | _ => exact hlate trivial
  · intro hintime done Q hpart hrun hlost
    have hreaches : Reaches (step maxMessages) InTime {} Q := by
      apply reaches_of_run_of_allowed hrun
      exact fun past e u v hpast hrun' hstep ↦ hintime past e u v (hpast.trans hpart) hrun' hstep
    have hawaited : Q.Awaited := hreaches.invariant (fun hblocked ↦ by cases hblocked)
      fun _ _ _ h hallowed hstep ↦ h.step hallowed hstep
    rcases hawaited hlost.blocked with hempty | hemplaced
    · exact hlost.nonempty hempty
    · rw [hlost.completed] at hemplaced
      cases hemplaced

/-- The item is pushed after the test and before the wait. -/
theorem not_losesNoWakeup_between :
    ¬ ∀ events : List (QueueEvent ℕ), LosesNoWakeup (2 ^ 64 - 1) events := by
  intro hnever
  have hlost : (run (step (2 ^ 64 - 1)) ({} : Queue ℕ)
      [.isEmpty, .emplaceBack 7, .notifyOne, .unlock, .lock, .wait]) =
        some { deqQueue := [7], producer := .idle, consumer := .blocked } := by decide +kernel
  exact hnever _ _ _ List.prefix_rfl hlost ⟨rfl, by simp, rfl⟩

end Queue

end SnekCpp.Networking
