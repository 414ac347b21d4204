import SnekCpp.Lib.Mutex

/-!
# The queue and any number of threads

Every method of `Queue` with both of its mutexes.  `muxQueue` is held for the
whole of a method, `PushBack` and `PushFront` take `muxBlocking` beside it, and
`Wait` takes `muxBlocking` only, between two calls of `IsEmpty`.
-/

namespace SnekCpp.Networking

open Lib

inductive QueueCall (α : Type)
  | front
  | back
  | popFront
  | popBack
  | pushBack (item : α)
  | pushFront (item : α)
  | isEmpty
  | count
  | clear
  /-- `IsEmpty()` in the condition of `Wait`. -/
  | wait
  deriving DecidableEq

inductive QueueResult (α : Type)
  | done
  | item (item : α)
  | flag (empty : Bool)
  | size (count : ℕ)
  deriving DecidableEq

namespace QueueCall

variable {α : Type}

/-- What a method does to the deque when nothing comes between.  The ends of an
empty deque are undefined. -/
def apply : QueueCall α → List α → Option (QueueResult α × List α)
  | front, deqQueue => deqQueue.head?.map fun item ↦ (.item item, deqQueue)
  | back, deqQueue => deqQueue.getLast?.map fun item ↦ (.item item, deqQueue)
  | popFront, deqQueue => deqQueue.head?.map fun item ↦ (.item item, deqQueue.tail)
  | popBack, deqQueue => deqQueue.getLast?.map fun item ↦ (.item item, deqQueue.dropLast)
  | pushBack item, deqQueue => some (.done, deqQueue ++ [item])
  | pushFront item, deqQueue => some (.done, item :: deqQueue)
  | isEmpty, deqQueue => some (.flag deqQueue.isEmpty, deqQueue)
  | count, deqQueue => some (.size deqQueue.length, deqQueue)
  | clear, _ => some (.done, [])
  | wait, deqQueue => some (.flag deqQueue.isEmpty, deqQueue)

/-- One access of a method to the deque, which moves an item out or ends the
method.  Only `PopFront` and `PopBack` make a second access, with the item that
they have moved out. -/
def access : QueueCall α → Option α → List α → Option (List α × (α ⊕ QueueResult α))
  | popFront, none, deqQueue => deqQueue.head?.map fun item ↦ (deqQueue, .inl item)
  | popFront, some item, deqQueue =>
      if deqQueue = [] then none else some (deqQueue.tail, .inr (.item item))
  | popBack, none, deqQueue => deqQueue.getLast?.map fun item ↦ (deqQueue, .inl item)
  | popBack, some item, deqQueue =>
      if deqQueue = [] then none else some (deqQueue.dropLast, .inr (.item item))
  | call, none, deqQueue => (call.apply deqQueue).map fun done ↦ (done.2, .inr done.1)
  | _, some _, _ => none

def pushes : QueueCall α → Bool
  | pushBack _ => true
  | pushFront _ => true
  | _ => false

/-- Every access, with what it found in the deque. -/
inductive Accesses (deqQueue : List α) :
    QueueCall α → Option α → List α → α ⊕ QueueResult α → Prop
  | whole {call : QueueCall α} {result : QueueResult α} {deqQueue' : List α}
      (hfront : call ≠ popFront) (hback : call ≠ popBack)
      (h : call.apply deqQueue = some (result, deqQueue')) :
      Accesses deqQueue call none deqQueue' (.inr result)
  | moveFront {item : α} (h : deqQueue.head? = some item) :
      Accesses deqQueue popFront none deqQueue (.inl item)
  | popFront {item : α} (h : deqQueue ≠ []) :
      Accesses deqQueue popFront (some item) deqQueue.tail (.inr (.item item))
  | moveBack {item : α} (h : deqQueue.getLast? = some item) :
      Accesses deqQueue popBack none deqQueue (.inl item)
  | popBack {item : α} (h : deqQueue ≠ []) :
      Accesses deqQueue popBack (some item) deqQueue.dropLast (.inr (.item item))

variable {call : QueueCall α} {moved : Option α} {deqQueue deqQueue' deqQueue'' : List α}
  {next : α ⊕ QueueResult α} {result : QueueResult α} {item : α}

theorem access_none (hfront : call ≠ popFront) (hback : call ≠ popBack) (deqQueue : List α) :
    call.access none deqQueue = (call.apply deqQueue).map fun done ↦ (done.2, .inr done.1) := by
  cases call with
  | popFront => exact absurd rfl hfront
  | popBack => exact absurd rfl hback
  | _ => rfl

theorem access_some (hfront : call ≠ popFront) (hback : call ≠ popBack) (item : α)
    (deqQueue : List α) : call.access (some item) deqQueue = none := by
  cases call with
  | popFront => exact absurd rfl hfront
  | popBack => exact absurd rfl hback
  | _ => rfl

theorem accesses_of_access (h : call.access moved deqQueue = some (deqQueue', next)) :
    Accesses deqQueue call moved deqQueue' next := by
  by_cases hfront : call = popFront
  · subst hfront
    cases moved with
    | none =>
        obtain ⟨item, hhead, hitem⟩ := Option.map_eq_some_iff.mp h
        cases hitem
        exact .moveFront hhead
    | some item =>
        obtain ⟨hne, hitem⟩ := Option.ite_none_left_eq_some.mp h
        cases hitem
        exact .popFront hne
  · by_cases hback : call = popBack
    · subst hback
      cases moved with
      | none =>
          obtain ⟨item, hlast, hitem⟩ := Option.map_eq_some_iff.mp h
          cases hitem
          exact .moveBack hlast
      | some item =>
          obtain ⟨hne, hitem⟩ := Option.ite_none_left_eq_some.mp h
          cases hitem
          exact .popBack hne
    · cases moved with
      | none =>
          rw [access_none hfront hback] at h
          obtain ⟨done, hdone, hnext⟩ := Option.map_eq_some_iff.mp h
          cases hnext
          exact .whole hfront hback hdone
      | some item =>
          rw [access_some hfront hback] at h
          cases h

theorem result_of_pushes (hpushes : call.pushes = true)
    (h : call.access moved deqQueue = some (deqQueue', .inr result)) : result = .done := by
  cases accesses_of_access h with
  | popFront => cases hpushes
  | popBack => cases hpushes
  | whole _ _ happly =>
      cases call with
      | pushBack item =>
          cases happly
          rfl
      | pushFront item =>
          cases happly
          rfl
      | _ => cases hpushes

/-- A method that moves an item out first is through after one more access. -/
theorem apply_of_access_moved (h : call.access none deqQueue = some (deqQueue', .inl item))
    (hrest : call.access (some item) deqQueue' = some (deqQueue'', next)) :
    ∃ result, next = .inr result ∧ call.apply deqQueue = some (result, deqQueue'') := by
  cases accesses_of_access h with
  | moveFront hhead =>
      cases accesses_of_access hrest with
      | popFront => exact ⟨.item item, rfl, by simp [apply, hhead]⟩
  | moveBack hlast =>
      cases accesses_of_access hrest with
      | popBack => exact ⟨.item item, rfl, by simp [apply, hlast]⟩

theorem apply_of_access_none (h : call.access none deqQueue = some (deqQueue', .inr result)) :
    call.apply deqQueue = some (result, deqQueue') := by
  cases accesses_of_access h with
  | whole _ _ happly => exact happly

end QueueCall

inductive QueueStage (α : Type)
  | outside
  /-- Before `muxQueue` is locked. -/
  | entering (call : QueueCall α)
  /-- With `muxQueue`, and perhaps with an item that has been moved out. -/
  | inside (call : QueueCall α) (moved : Option α)
  /-- With `muxQueue`, and the item in the deque. -/
  | emplaced (call : QueueCall α)
  /-- With both mutexes, before `cvBlocking.notify_one`. -/
  | signalling (call : QueueCall α)
  /-- With both mutexes, after `cvBlocking.notify_one`. -/
  | notified (call : QueueCall α)
  /-- With `muxQueue`, about to return. -/
  | leaving (call : QueueCall α) (result : QueueResult α)
  /-- In `Wait`, where `IsEmpty()` has returned true. -/
  | foundEmpty
  /-- In `Wait`, with `muxBlocking`. -/
  | locked
  /-- In `cvBlocking.wait`. -/
  | blocked
  /-- In `cvBlocking.wait`, before `muxBlocking` is locked again. -/
  | woken
  /-- In `Wait`, with `muxBlocking`, at the end of the loop's body. -/
  | awake
  deriving DecidableEq

structure SharedQueue (ι α : Type) where
  deqQueue : List α := []
  muxQueue : Option ι := none
  muxBlocking : Option ι := none
  stage : ι → QueueStage α := fun _ ↦ .outside
  /-- The calls in the order of their last access to the deque. -/
  effects : List (ι × QueueCall α × QueueResult α) := []
  /-- The calls in the order in which they unlock `muxQueue`. -/
  returned : List (ι × QueueCall α × QueueResult α) := []

inductive SharedQueueEvent (ι α : Type)
  | call (i : ι) (call : QueueCall α)
  | lock (i : ι)
  | access (i : ι)
  | lockBlocking (i : ι)
  /-- `cvBlocking.notify_one` wakes a thread if one is blocked. -/
  | notifyOne (i : ι) (wake : Option ι)
  | unlockBlocking (i : ι)
  | unlock (i : ι)
  /-- `cvBlocking.wait` unlocks `muxBlocking` and blocks. -/
  | wait (i : ι)
  | wakeSpuriously (i : ι)

namespace QueueStage

variable {ι α : Type}

def isBlocked : QueueStage α → Bool
  | blocked => true
  | _ => false

/-- After `muxQueue` is unlocked: `Wait` goes on when the queue was empty. -/
def afterUnlock : QueueCall α → QueueResult α → QueueStage α
  | .wait, .flag true => foundEmpty
  | _, _ => outside

theorem eq_blocked_of_isBlocked {stage : QueueStage α} (h : stage.isBlocked = true) :
    stage = .blocked := by
  cases stage with
  | blocked => rfl
  | _ => cases h

/-- What a stage is to `muxQueue`. -/
def atQueue : QueueStage α → Stage (QueueCall α) (QueueResult α) (QueueCall α × Option α)
  | .entering call => .waiting call
  | .inside call moved => .inside call (call, moved)
  | .emplaced call => .leaving call .done
  | .signalling call => .leaving call .done
  | .notified call => .leaving call .done
  | .leaving call result => .leaving call result
  | _ => .outside

theorem atQueue_update [DecidableEq ι] (stage : ι → QueueStage α) (i : ι) (next : QueueStage α) :
    (fun j ↦ atQueue (Function.update stage i next j)) =
      Function.update (fun j ↦ atQueue (stage j)) i (atQueue next) := by
  funext j
  by_cases hne : j = i
  · subst hne
    simp
  · simp [hne]

/-- A change of stage that `muxQueue` does not see. -/
theorem atQueue_update_eq [DecidableEq ι] {stage : ι → QueueStage α} {i : ι} {next : QueueStage α}
    (h : atQueue next = atQueue (stage i)) :
    (fun j ↦ atQueue (Function.update stage i next j)) = fun j ↦ atQueue (stage j) := by
  rw [atQueue_update, h]
  exact Function.update_eq_self _ _

theorem atQueue_afterUnlock (call : QueueCall α) (result : QueueResult α) :
    atQueue (.afterUnlock call result) = .outside := by
  unfold QueueStage.afterUnlock
  split <;> rfl

theorem atQueue_of_last {call : QueueCall α} {moved : Option α} {deqQueue deqQueue' : List α}
    {result : QueueResult α} (h : call.access moved deqQueue = some (deqQueue', .inr result)) :
    atQueue (if call.pushes then .emplaced call else .leaving call result) =
      .leaving call result := by
  split
  · next hpushes =>
      rw [QueueCall.result_of_pushes hpushes h]
      rfl
  · rfl

end QueueStage

namespace SharedQueue

open QueueStage

variable {ι α : Type} [DecidableEq ι] [Fintype ι]

def step (S : SharedQueue ι α) : SharedQueueEvent ι α → Option (SharedQueue ι α)
  | .call i call =>
      match S.stage i with
      | .outside => some { S with stage := Function.update S.stage i (.entering call) }
      | _ => none
  | .lock i =>
      match S.stage i, S.muxQueue with
      | .entering call, none => some { S with
          muxQueue := some i
          stage := Function.update S.stage i (.inside call none) }
      | _, _ => none
  | .access i =>
      match S.stage i with
      | .inside call moved =>
          match call.access moved S.deqQueue with
          | none => none
          | some (deqQueue, .inl item) => some { S with
              deqQueue
              stage := Function.update S.stage i (.inside call (some item)) }
          | some (deqQueue, .inr result) => some { S with
              deqQueue
              stage := Function.update S.stage i
                (if call.pushes then .emplaced call else .leaving call result)
              effects := S.effects ++ [(i, call, result)] }
      | _ => none
  | .lockBlocking i =>
      match S.muxBlocking, S.stage i with
      | none, .emplaced call => some { S with
          muxBlocking := some i
          stage := Function.update S.stage i (.signalling call) }
      | none, .foundEmpty => some { S with
          muxBlocking := some i
          stage := Function.update S.stage i .locked }
      | none, .woken => some { S with
          muxBlocking := some i
          stage := Function.update S.stage i .awake }
      | _, _ => none
  | .notifyOne i wake =>
      match S.stage i, wake with
      | .signalling call, some j =>
          if (S.stage j).isBlocked then some { S with
            stage := Function.update (Function.update S.stage i (.notified call)) j .woken }
          else none
      | .signalling call, none =>
          if ∀ j, ¬ (S.stage j).isBlocked then some { S with
            stage := Function.update S.stage i (.notified call) }
          else none
      | _, _ => none
  | .unlockBlocking i =>
      match S.stage i with
      | .notified call => some { S with
          muxBlocking := none
          stage := Function.update S.stage i (.leaving call .done) }
      | .awake => some { S with
          muxBlocking := none
          stage := Function.update S.stage i (.entering .wait) }
      | _ => none
  | .unlock i =>
      match S.stage i with
      | .leaving call result => some { S with
          muxQueue := none
          stage := Function.update S.stage i (.afterUnlock call result)
          returned := S.returned ++ [(i, call, result)] }
      | _ => none
  | .wait i =>
      match S.stage i with
      | .locked => some { S with
          muxBlocking := none
          stage := Function.update S.stage i .blocked }
      | _ => none
  | .wakeSpuriously i =>
      match S.stage i with
      | .blocked => some { S with stage := Function.update S.stage i .woken }
      | _ => none

/-! ## What a step can do -/

/-- Every step, with what it found in the state. -/
inductive Moves (S : SharedQueue ι α) : SharedQueueEvent ι α → SharedQueue ι α → Prop
  | call {i : ι} (call : QueueCall α) (hstage : S.stage i = .outside) :
      Moves S (.call i call) { S with stage := Function.update S.stage i (.entering call) }
  | lock {i : ι} {call : QueueCall α} (hstage : S.stage i = .entering call)
      (hfree : S.muxQueue = none) :
      Moves S (.lock i) { S with
        muxQueue := some i
        stage := Function.update S.stage i (.inside call none) }
  | more {i : ι} {call : QueueCall α} {moved : Option α} {deqQueue : List α} {item : α}
      (hstage : S.stage i = .inside call moved)
      (haccess : call.access moved S.deqQueue = some (deqQueue, .inl item)) :
      Moves S (.access i) { S with
        deqQueue
        stage := Function.update S.stage i (.inside call (some item)) }
  | last {i : ι} {call : QueueCall α} {moved : Option α} {deqQueue : List α}
      {result : QueueResult α} (hstage : S.stage i = .inside call moved)
      (haccess : call.access moved S.deqQueue = some (deqQueue, .inr result)) :
      Moves S (.access i) { S with
        deqQueue
        stage := Function.update S.stage i
          (if call.pushes then .emplaced call else .leaving call result)
        effects := S.effects ++ [(i, call, result)] }
  /-- Where `muxBlocking` is locked, and what follows. -/
  | lockBlocking {i : ι} {stage : QueueStage α} (hfree : S.muxBlocking = none)
      (hstage : (∃ call, S.stage i = .emplaced call ∧ stage = .signalling call) ∨
        (S.stage i = .foundEmpty ∧ stage = .locked) ∨ (S.stage i = .woken ∧ stage = .awake)) :
      Moves S (.lockBlocking i) { S with
        muxBlocking := some i
        stage := Function.update S.stage i stage }
  | wake {i j : ι} {call : QueueCall α} (hstage : S.stage i = .signalling call)
      (hblocked : S.stage j = .blocked) :
      Moves S (.notifyOne i (some j)) { S with
        stage := Function.update (Function.update S.stage i (.notified call)) j .woken }
  | notify {i : ι} {call : QueueCall α} (hstage : S.stage i = .signalling call) :
      Moves S (.notifyOne i none) { S with stage := Function.update S.stage i (.notified call) }
  | unlockBlocking {i : ι} {stage : QueueStage α}
      (hstage : (∃ call, S.stage i = .notified call ∧ stage = .leaving call .done) ∨
        (S.stage i = .awake ∧ stage = .entering .wait)) :
      Moves S (.unlockBlocking i) { S with
        muxBlocking := none
        stage := Function.update S.stage i stage }
  | unlock {i : ι} {call : QueueCall α} {result : QueueResult α}
      (hstage : S.stage i = .leaving call result) :
      Moves S (.unlock i) { S with
        muxQueue := none
        stage := Function.update S.stage i (.afterUnlock call result)
        returned := S.returned ++ [(i, call, result)] }
  | wait {i : ι} (hstage : S.stage i = .locked) :
      Moves S (.wait i) { S with
        muxBlocking := none
        stage := Function.update S.stage i .blocked }
  | wakeSpuriously {i : ι} (hstage : S.stage i = .blocked) :
      Moves S (.wakeSpuriously i) { S with stage := Function.update S.stage i .woken }

variable {S S' : SharedQueue ι α} {e : SharedQueueEvent ι α}

theorem moves_of_step (h : S.step e = some S') : S.Moves e S' := by
  cases e with
  | call i call =>
      simp only [step] at h
      split at h
      · next hstage =>
          cases h
          exact .call call hstage
      · cases h
  | lock i =>
      simp only [step] at h
      split at h
      · next hstage hfree =>
          cases h
          exact .lock hstage hfree
      · cases h
  | access i =>
      simp only [step] at h
      split at h
      · next hstage =>
          split at h
          · cases h
          · next haccess =>
              cases h
              exact .more hstage haccess
          · next haccess =>
              cases h
              exact .last hstage haccess
      · cases h
  | lockBlocking i =>
      simp only [step] at h
      split at h
      · next call hfree hstage =>
          cases h
          exact .lockBlocking hfree (.inl ⟨call, hstage, rfl⟩)
      · next hfree hstage =>
          cases h
          exact .lockBlocking hfree (.inr (.inl ⟨hstage, rfl⟩))
      · next hfree hstage =>
          cases h
          exact .lockBlocking hfree (.inr (.inr ⟨hstage, rfl⟩))
      · cases h
  | notifyOne i wake =>
      simp only [step] at h
      split at h
      · next hstage =>
          obtain ⟨hblocked, h⟩ := Option.ite_none_right_eq_some.mp h
          cases h
          exact .wake hstage (eq_blocked_of_isBlocked hblocked)
      · next hstage =>
          obtain ⟨-, h⟩ := Option.ite_none_right_eq_some.mp h
          cases h
          exact .notify hstage
      · cases h
  | unlockBlocking i =>
      simp only [step] at h
      split at h
      · next call hstage =>
          cases h
          exact .unlockBlocking (.inl ⟨call, hstage, rfl⟩)
      · next hstage =>
          cases h
          exact .unlockBlocking (.inr ⟨hstage, rfl⟩)
      · cases h
  | unlock i =>
      simp only [step] at h
      split at h
      · next hstage =>
          cases h
          exact .unlock hstage
      · cases h
  | wait i =>
      simp only [step] at h
      split at h
      · next hstage =>
          cases h
          exact .wait hstage
      · cases h
  | wakeSpuriously i =>
      simp only [step] at h
      split at h
      · next hstage =>
          cases h
          exact .wakeSpuriously hstage
      · cases h

/-! ## One after the other -/

/-- The methods as the sections of `muxQueue`. -/
def sections : Sections (List α) (QueueCall α) (QueueResult α) (QueueCall α × Option α) where
  enter call := (call, none)
  access place deqQueue := (place.1.access place.2 deqQueue).map fun done ↦
    (done.1, done.2.map (fun item ↦ (place.1, some item)) id)

def toLocked (S : SharedQueue ι α) :
    Locked ι (List α) (QueueCall α) (QueueResult α) (QueueCall α × Option α) where
  shared := S.deqQueue
  owner := S.muxQueue
  stage i := atQueue (S.stage i)
  effects := S.effects
  returned := S.returned

/-- Every step is one of the sections, or `muxQueue` does not see it. -/
theorem toLocked_step (h : S.step e = some S') :
    S'.toLocked = S.toLocked ∨ ∃ e', S.toLocked.step sections e' = some S'.toLocked := by
  cases moves_of_step h with
  | @call i call hstage =>
      refine .inr ⟨.call i call, ?_⟩
      simp only [toLocked, atQueue_update]
      exact Locked.step_of_moves (.call call (by simp [hstage, atQueue]))
  | @lock i call hstage hfree =>
      refine .inr ⟨.lock i, ?_⟩
      simp only [toLocked, atQueue_update]
      exact Locked.step_of_moves (.lock (by simp [hstage, atQueue]) hfree)
  | @more i call moved deqQueue item hstage haccess =>
      refine .inr ⟨.access i, ?_⟩
      have hsection : sections.access (call, moved) S.deqQueue =
          some (deqQueue, .inl (call, some item)) := by
        simp [sections, haccess]
      simp only [toLocked, atQueue_update]
      exact Locked.step_of_moves (.more (by simp [hstage, atQueue]) hsection)
  | @last i call moved deqQueue result hstage haccess =>
      refine .inr ⟨.access i, ?_⟩
      have hsection : sections.access (call, moved) S.deqQueue =
          some (deqQueue, .inr result) := by
        simp [sections, haccess]
      simp only [toLocked, atQueue_update, atQueue_of_last haccess]
      exact Locked.step_of_moves (.last (by simp [hstage, atQueue]) hsection)
  | @lockBlocking i stage hfree hstage =>
      refine .inl ?_
      have hsame : atQueue stage = atQueue (S.stage i) := by
        rcases hstage with ⟨call, hstage, rfl⟩ | ⟨hstage, rfl⟩ | ⟨hstage, rfl⟩ <;> rw [hstage] <;> rfl
      simp only [toLocked, atQueue_update_eq hsame]
  | @wake i j call hstage hblocked =>
      refine .inl ?_
      have hne : j ≠ i := fun heq ↦ by
        rw [heq, hstage] at hblocked
        cases hblocked
      have hself : atQueue (.notified call) = atQueue (S.stage i) := by
        rw [hstage]
        rfl
      have hother : atQueue .woken =
          atQueue (Function.update S.stage i (.notified call) j) := by
        rw [Function.update_of_ne hne, hblocked]
        rfl
      simp only [toLocked, atQueue_update_eq hother, atQueue_update_eq hself]
  | @notify i call hstage =>
      refine .inl ?_
      have hsame : atQueue (.notified call) = atQueue (S.stage i) := by
        rw [hstage]
        rfl
      simp only [toLocked, atQueue_update_eq hsame]
  | @unlockBlocking i stage hstage =>
      rcases hstage with ⟨call, hstage, rfl⟩ | ⟨hstage, rfl⟩
      · refine .inl ?_
        have hsame : atQueue (.leaving call .done) = atQueue (S.stage i) := by
          rw [hstage]
          rfl
        simp only [toLocked, atQueue_update_eq hsame]
      · -- `Wait` tests its condition again
        refine .inr ⟨.call i .wait, ?_⟩
        simp only [toLocked, atQueue_update]
        exact Locked.step_of_moves (.call QueueCall.wait (by simp [hstage, atQueue]))
  | @unlock i call result hstage =>
      refine .inr ⟨.unlock i, ?_⟩
      simp only [toLocked, atQueue_update, atQueue_afterUnlock]
      exact Locked.step_of_moves (.unlock (by simp [hstage, atQueue]))
  | @wait i hstage =>
      refine .inl ?_
      have hsame : atQueue .blocked = atQueue (S.stage i) := by
        rw [hstage]
        rfl
      simp only [toLocked, atQueue_update_eq hsame]
  | @wakeSpuriously i hstage =>
      refine .inl ?_
      have hsame : atQueue .woken = atQueue (S.stage i) := by
        rw [hstage]
        rfl
      simp only [toLocked, atQueue_update_eq hsame]

theorem toLocked_reaches {allowed : SharedQueue ι α → SharedQueueEvent ι α → Prop}
    (h : Reaches step allowed S S') :
    Reaches (Locked.step sections) (fun _ _ ↦ True) S.toLocked S'.toLocked := by
  have hself : Reaches (Locked.step sections) (fun _ _ ↦ True) S.toLocked S.toLocked := .refl
  apply h.invariant hself
  intro T e T' hreaches _ hstep
  rcases toLocked_step hstep with heq | ⟨e', hstep'⟩
  · rwa [heq]
  · exact hreaches.tail ⟨e', trivial, hstep'⟩

theorem access_of_sections {call : QueueCall α} {moved : Option α} {deqQueue deqQueue' : List α}
    {next : QueueCall α × Option α ⊕ QueueResult α}
    (h : sections.access (call, moved) deqQueue = some (deqQueue', next)) :
    ∃ next', call.access moved deqQueue = some (deqQueue', next') ∧
      next = next'.map (fun item ↦ (call, some item)) id := by
  obtain ⟨done, hdone, hnext⟩ := Option.map_eq_some_iff.mp h
  cases hnext
  exact ⟨done.2, hdone, rfl⟩

/-- A section that nothing interrupts does what the method does to the deque. -/
theorem apply_of_executes {call : QueueCall α} {deqQueue deqQueue' : List α}
    {result : QueueResult α}
    (h : sections.Executes (sections.enter call) deqQueue result deqQueue') :
    call.apply deqQueue = some (result, deqQueue') := by
  cases h with
  | last h =>
      obtain ⟨next, haccess, hnext⟩ := access_of_sections h
      cases next with
      | inl item => cases hnext
      | inr result' =>
          cases hnext
          exact QueueCall.apply_of_access_none haccess
  | more h hrest =>
      obtain ⟨next, haccess, hnext⟩ := access_of_sections h
      cases next with
      | inr result' => cases hnext
      | inl item =>
          cases hnext
          -- the second access is the last one
          cases hrest with
          | last h' =>
              obtain ⟨next', haccess', hnext'⟩ := access_of_sections h'
              obtain ⟨result', rfl, happly⟩ := QueueCall.apply_of_access_moved haccess haccess'
              cases hnext'
              exact happly
          | more h' _ =>
              obtain ⟨next', haccess', hnext'⟩ := access_of_sections h'
              obtain ⟨result', rfl, -⟩ := QueueCall.apply_of_access_moved haccess haccess'
              cases hnext'

/-- The deque, one call after the other, as long as the results are those of the calls. -/
def replay [DecidableEq α] (deqQueue : List α) (entry : ι × QueueCall α × QueueResult α) :
    Option (List α) :=
  match entry.2.1.apply deqQueue with
  | some (result, deqQueue) => if result = entry.2.2 then some deqQueue else none
  | none => none

omit [DecidableEq ι] [Fintype ι] in
theorem replay_of_serial [DecidableEq α] {calls : List (ι × QueueCall α × QueueResult α)}
    {deqQueue deqQueue' : List α} (h : sections.Serial deqQueue calls deqQueue') :
    run replay deqQueue calls = some deqQueue' := by
  induction h with
  | nil => rfl
  | concat _ hcall ih =>
      rw [run_concat, ih]
      simp [replay, apply_of_executes hcall]

/-- Whatever the threads do, the methods have the results that they would have one
after the other.  Every thread's calls come in the order in which it makes them, a
call that has taken effect stays before all later ones, and no two threads are
between `lock` and `unlock` at once. -/
theorem linearizable [DecidableEq α] (h : Reaches step (fun _ _ ↦ True) ({} : SharedQueue ι α) S) :
    (∃ deqQueue, run replay [] S.effects = some deqQueue ∧
      ((∀ i call moved, S.stage i ≠ .inside call moved) → deqQueue = S.deqQueue)) ∧
    (∀ i, Locked.ofThread i S.effects =
      Locked.ofThread i S.returned ++ (atQueue (S.stage i)).pending i) ∧
    (∀ S', Reaches step (fun _ _ ↦ True) S S' → S.effects <+: S'.effects) ∧
    (∀ i j, (atQueue (S.stage i)).HasLock → (atQueue (S.stage j)).HasLock → i = j) := by
  have hserialized := Locked.Serialized.of_reaches (toLocked_reaches h)
  refine ⟨?_, hserialized.threads, fun S' h' ↦ ?_, fun i j hi hj ↦ hserialized.exclusive hi hj⟩
  · by_cases hinside : ∃ i call moved, S.stage i = .inside call moved
    · obtain ⟨deqQueue, hserial⟩ := hserialized.exists_serial
      refine ⟨deqQueue, replay_of_serial hserial, fun hnone ↦ ?_⟩
      obtain ⟨i, call, moved, hi⟩ := hinside
      exact absurd hi (hnone i call moved)
    · refine ⟨S.deqQueue, replay_of_serial (hserialized.shared fun i call place hi ↦ ?_),
        fun _ ↦ rfl⟩
      have hstage : ∃ moved, S.stage i = .inside call moved := by
        cases hi' : S.stage i with
        | inside call' moved =>
            simp only [toLocked, hi', atQueue, Stage.inside.injEq] at hi
            exact ⟨moved, by rw [hi.1]⟩
        | _ => simp [toLocked, hi', atQueue] at hi
      obtain ⟨moved, hmoved⟩ := hstage
      exact hinside ⟨i, call, moved, hmoved⟩
  · exact Locked.effects_prefix_of_reaches (toLocked_reaches h')

theorem linearizable_pushPop : ∃ S : SharedQueue (Fin 2) ℕ,
    S.effects = [(0, .pushBack 7, .done), (1, .popFront, .item 7)] ∧
      (∃ deqQueue, run replay [] S.effects = some deqQueue) ∧
      Locked.ofThread 1 S.effects =
        Locked.ofThread 1 S.returned ++ (atQueue (S.stage 1)).pending 1 := by
  obtain ⟨S, hreaches, hS⟩ := @exists_reaches_of_run _ _ step ({} : SharedQueue (Fin 2) ℕ)
    [.call 1 .popFront, .call 0 (.pushBack 7), .lock 0, .access 0, .lockBlocking 0,
      .notifyOne 0 none, .unlockBlocking 0, .unlock 0, .lock 1, .access 1, .access 1]
    (fun S ↦ decide (S.effects = [(0, .pushBack 7, .done), (1, .popFront, .item 7)]))
    (by decide +kernel)
  obtain ⟨⟨deqQueue, hreplay, -⟩, hthreads, -⟩ := linearizable hreaches
  exact ⟨S, of_decide_eq_true hS, ⟨deqQueue, hreplay⟩, hthreads 1⟩

end SharedQueue

end SnekCpp.Networking
