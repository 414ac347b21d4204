import SnekCpp.Lib.ByteLayout

/-!
# Messages

A message is a header and a stack of bytes.  `operator <<` copies a value on
top of the stack, `operator >>` copies one off it, and both store the new size
in the header as a `uint32_t`.
-/

namespace SnekCpp.Networking

open Lib

variable {T : Type}

structure MessageHeader (T : Type) where
  id : T
  bodySize : UInt32 := 0
  deriving DecidableEq, Inhabited

structure Message (T : Type) where
  header : MessageHeader T
  body : List UInt8 := []
  deriving DecidableEq, Inhabited

namespace MessageHeader

instance [StandardLayout T] : StandardLayout (MessageHeader T) :=
  StandardLayout.ofRepresentation (fun header ↦ (header.id, header.bodySize))
    (fun p ↦ ⟨p.1, p.2⟩) fun _ ↦ rfl

instance [StandardLayout T] [ExactLayout T] : ExactLayout (MessageHeader T) :=
  ExactLayout.ofRepresentation (fun header : MessageHeader T ↦ (header.id, header.bodySize))
    (fun p ↦ ⟨p.1, p.2⟩) (fun _ ↦ rfl) fun _ ↦ rfl

theorem size_pos [StandardLayout T] : 0 < StandardLayout.size (MessageHeader T) := by
  change 0 < StandardLayout.size T + 4
  omega

end MessageHeader

namespace Message

/-- `net::Message<T> msg; msg.header.id = id;` -/
def new (id : T) : Message T := { header := { id } }

def getBodySize (msg : Message T) : ℕ := msg.body.length

/-- `operator <<` -/
def push {α : Type} [StandardLayout α] (msg : Message T) (data : α) : Message T :=
  let body := msg.body ++ StandardLayout.toBytes data
  { header := { msg.header with bodySize := UInt32.ofNat body.length }, body }

instance {α : Type} [StandardLayout α] : HShiftLeft (Message T) α (Message T) := ⟨push⟩

/-- `operator >>`.  On a body shorter than the requested type the subtraction
of the sizes wraps and the copy reads outside the vector: there is no result. -/
def pop (α : Type) [StandardLayout α] (msg : Message T) : Option (α × Message T) :=
  if StandardLayout.size α ≤ msg.body.length then
    let i := msg.body.length - StandardLayout.size α
    let body := msg.body.take i
    some (StandardLayout.fromBytes (msg.body.drop i),
      { header := { msg.header with bodySize := UInt32.ofNat body.length }, body })
  else none

theorem shiftLeft_eq_push {α : Type} [StandardLayout α] (msg : Message T) (data : α) :
    msg <<< data = msg.push data := rfl

/-- The header carries the size that the operators compute for the body. -/
def Consistent (msg : Message T) : Prop :=
  msg.header.bodySize = UInt32.ofNat msg.body.length

theorem consistent_new (id : T) : (new id).Consistent := rfl

section Stack

variable {α : Type} [StandardLayout α]

@[simp] theorem push_header_id (msg : Message T) (data : α) :
    (msg.push data).header.id = msg.header.id := rfl

@[simp] theorem push_body (msg : Message T) (data : α) :
    (msg.push data).body = msg.body ++ StandardLayout.toBytes data := rfl

@[simp] theorem new_header_id (id : T) : (new id).header.id = id := rfl

@[simp] theorem new_body (id : T) : (new id).body = [] := rfl

theorem consistent_push (msg : Message T) (data : α) : (msg.push data).Consistent := rfl

theorem length_body_push (msg : Message T) (data : α) :
    (msg.push data).body.length = msg.body.length + StandardLayout.size α := by simp

/-- Popping undoes the push before it. -/
theorem pop_push {msg : Message T} (h : msg.Consistent) (data : α) :
    (msg.push data).pop α = some (data, msg) := by
  have hlen : (StandardLayout.toBytes data).length = StandardLayout.size α :=
    StandardLayout.length_toBytes data
  have hi : (msg.body ++ StandardLayout.toBytes data).length - StandardLayout.size α =
      msg.body.length := by
    rw [List.length_append, hlen, Nat.add_sub_cancel]
  have hle : StandardLayout.size α ≤ (msg.body ++ StandardLayout.toBytes data).length := by
    rw [List.length_append, hlen]
    exact Nat.le_add_left ..
  obtain ⟨⟨id, bodySize⟩, body⟩ := msg
  simp only [Consistent] at h
  simp only [pop, push, if_pos hle, hi, List.take_left, List.drop_left,
    StandardLayout.fromBytes_toBytes, h]

theorem pop_eq_none {msg : Message T} (h : msg.body.length < StandardLayout.size α) :
    msg.pop α = none := by
  simp [pop, h]

end Stack

section Frame

variable [StandardLayout T]

/-- The bytes that one message takes on the stream: its header, then its body. -/
def frame (msg : Message T) : List UInt8 :=
  StandardLayout.toBytes msg.header ++ msg.body

/-- The size in the header is the size of the body. -/
def WellFramed (msg : Message T) : Prop :=
  msg.header.bodySize.toNat = msg.body.length

instance (msg : Message T) : Decidable msg.WellFramed :=
  inferInstanceAs (Decidable (_ = _))

theorem length_frame (msg : Message T) :
    msg.frame.length = StandardLayout.size (MessageHeader T) + msg.body.length := by
  simp [frame]

omit [StandardLayout T] in
theorem Consistent.wellFramed {msg : Message T} (h : msg.Consistent)
    (hsize : msg.body.length < 2 ^ 32) : msg.WellFramed := by
  rw [WellFramed, h, UInt32.toNat_ofNat_of_lt' hsize]

omit [StandardLayout T] in
theorem WellFramed.bodySize_eq_zero_iff {msg : Message T} (h : msg.WellFramed) :
    msg.header.bodySize.toNat = 0 ↔ msg.body = [] := by
  rw [h, List.length_eq_zero_iff]

end Frame

end Message

end SnekCpp.Networking
