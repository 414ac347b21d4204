import SnekCpp.Networking.Message

/-!
# A message as a stack of values

`operator <<` and `operator >>` take values of any standard layout types.  As
long as each value is popped as the type that it was pushed as, the flat body
of a message is a stack on top of the bytes that were there before.
-/

namespace SnekCpp.Networking

open Lib

variable {T : Type}

/-- A value of some standard layout type. -/
structure Datum where
  Carrier : Type
  [layout : StandardLayout Carrier]
  value : Carrier

attribute [instance] Datum.layout

/-- `data` of `operator <<`, in memory. -/
def Datum.bytes (data : Datum) : List UInt8 := StandardLayout.toBytes data.value

/-- A use of `operator <<` or of `operator >>`. -/
inductive StackOp
  | push (data : Datum)
  | pop (α : Type) [StandardLayout α]

/-- On a mathematical stack, top first, the operators lead from one stack to
another and pop some values; each pop is of the type of the value on top. -/
inductive Stacks : List StackOp → List Datum → List Datum → List Datum → Prop
  | nil (stack : List Datum) : Stacks [] stack [] stack
  | push {ops : List StackOp} {data : Datum} {before popped after : List Datum}
      (h : Stacks ops (data :: before) popped after) :
      Stacks (.push data :: ops) before popped after
  | pop {ops : List StackOp} {data : Datum} {before popped after : List Datum}
      (h : Stacks ops before popped after) :
      Stacks (.pop data.Carrier :: ops) (data :: before) (data :: popped) after

theorem Stacks.of_append {done rest : List StackOp} {before popped after : List Datum}
    (h : Stacks (done ++ rest) before popped after) :
    ∃ values middle, Stacks done before values middle ∧ values <+: popped := by
  induction done generalizing before popped with
  | nil => exact ⟨[], before, .nil before, List.nil_prefix⟩
  | cons op done ih =>
      cases h with
      | push h =>
          obtain ⟨values, middle, hdone, hprefix⟩ := ih h
          exact ⟨values, middle, .push hdone, hprefix⟩
      | @pop _ data _ _ _ h =>
          obtain ⟨values, middle, hdone, hprefix⟩ := ih h
          exact ⟨data :: values, middle, .pop hdone, List.cons_prefix_cons.mpr ⟨rfl, hprefix⟩⟩

namespace Message

/-- Uses the operators one after the other: the values that are popped, and the message. -/
def perform : List StackOp → Message T → Option (List Datum × Message T)
  | [], msg => some ([], msg)
  | .push data :: ops, msg => perform ops (msg.push data.value)
  | @StackOp.pop α _ :: ops, msg =>
      match msg.pop α with
      | none => none
      | some (value, msg) =>
          (perform ops msg).map fun result ↦ (⟨α, value⟩ :: result.1, result.2)

/-- The message with the values of a stack, top first, pushed onto it. -/
def stacked (m : Message T) (stack : List Datum) : Message T :=
  stack.foldr (fun data msg ↦ msg.push data.value) m

section Stacked

variable {m : Message T}

@[simp] theorem stacked_nil (m : Message T) : m.stacked [] = m := rfl

theorem stacked_cons (m : Message T) (data : Datum) (stack : List Datum) :
    m.stacked (data :: stack) = (m.stacked stack).push data.value := rfl

theorem consistent_stacked (h : m.Consistent) (stack : List Datum) : (m.stacked stack).Consistent := by
  cases stack with
  | nil => exact h
  | cons data stack => exact consistent_push _ _

theorem stacked_header_id (m : Message T) (stack : List Datum) :
    (m.stacked stack).header.id = m.header.id := by
  induction stack with
  | nil => rfl
  | cons data stack ih => rw [stacked_cons, push_header_id, ih]

theorem stacked_body (m : Message T) (stack : List Datum) :
    (m.stacked stack).body = m.body ++ stack.reverse.flatMap Datum.bytes := by
  induction stack with
  | nil => simp
  | cons data stack ih =>
      rw [stacked_cons, push_body, ih, List.reverse_cons, List.flatMap_append, List.append_assoc,
        List.flatMap_singleton]
      rfl

theorem pop_stacked (h : m.Consistent) (data : Datum) (stack : List Datum) :
    (m.stacked (data :: stack)).pop data.Carrier = some (data.value, m.stacked stack) :=
  pop_push (consistent_stacked h stack) data.value

theorem perform_stacked (h : m.Consistent) {ops : List StackOp} {before popped after : List Datum}
    (hops : Stacks ops before popped after) :
    perform ops (m.stacked before) = some (popped, m.stacked after) := by
  induction hops with
  | nil stack => rfl
  | push _ ih => exact ih
  | @pop ops data before popped after _ ih =>
      simp only [perform, pop_stacked h, ih, Option.map_some]

end Stacked

/-- `msg` is `m` under the values of `stack`. -/
structure Under (m : Message T) (stack : List Datum) (msg : Message T) : Prop where
  header_id : msg.header.id = m.header.id
  body : msg.body = m.body ++ stack.reverse.flatMap Datum.bytes
  bodySize : msg.body.length < 2 ^ 32 → msg.header.bodySize.toNat = msg.body.length
  restored : stack = [] → msg = m

theorem WellFramed.consistent {m : Message T} (h : m.WellFramed) : m.Consistent := by
  rw [Consistent, ← h, UInt32.ofNat_toNat]

theorem under_stacked {m : Message T} (h : m.Consistent) (stack : List Datum) :
    m.Under stack (m.stacked stack) where
  header_id := stacked_header_id m stack
  body := stacked_body m stack
  bodySize := (consistent_stacked h stack).wellFramed
  restored hempty := by rw [hempty, stacked_nil]

/-- The operators pop what a mathematical stack pops, and after each of them the
message is the old one under that stack. -/
theorem perform_faithful {m : Message T} (hm : m.WellFramed) {ops : List StackOp}
    {popped after : List Datum} (hops : Stacks ops [] popped after) :
    (∃ msg, perform ops m = some (popped, msg) ∧ m.Under after msg) ∧
      ∀ done, done <+: ops → ∃ values middle msg, values <+: popped ∧
        Stacks done [] values middle ∧ perform done m = some (values, msg) ∧ m.Under middle msg := by
  have hrun : ∀ {ops values stack}, Stacks ops [] values stack →
      perform ops m = some (values, m.stacked stack) := fun h ↦ perform_stacked hm.consistent h
  refine ⟨⟨_, hrun hops, under_stacked hm.consistent after⟩, ?_⟩
  rintro done ⟨rest, rfl⟩
  obtain ⟨values, middle, hdone, hprefix⟩ := hops.of_append
  exact ⟨values, middle, _, hprefix, hdone, hrun hdone, under_stacked hm.consistent middle⟩

/-- An id under a word: the word is popped, and another one takes its place. -/
theorem perform_faithful_twice :
    let id : Datum := ⟨UInt32, 10000⟩
    let first : Datum := ⟨UInt64, 3⟩
    let second : Datum := ⟨Int32, -1⟩
    let ops : List StackOp := [.push id, .push first, .pop UInt64, .push second]
    let m : Message ℕ := new 4
    (∃ msg, perform ops m = some ([first], msg) ∧ m.Under [second, id] msg) ∧
      ∀ done, done <+: ops → ∃ values middle msg, values <+: [first] ∧
        Stacks done [] values middle ∧ perform done m = some (values, msg) ∧ m.Under middle msg := by
  intro id first second ops m
  have hops : Stacks ops [] [first] [second, id] :=
    .push (.push (@Stacks.pop _ first _ _ _ (.push (.nil _))))
  exact perform_faithful (show m.WellFramed from rfl) hops

end Message

end SnekCpp.Networking
