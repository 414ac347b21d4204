import SnekCpp.Networking.Message

/-!
# What client and server share

The message types, the plain data that travels in messages, and the ways in
which a handler can leave the behaviour that the language defines.
-/

namespace SnekCpp

open Lib Networking

/-- The two configured platforms, which differ in `sizeof(size_t)`. -/
inductive Platform
  | win32
  | x64
  deriving DecidableEq

def Platform.sizeofSizeT : Platform → ℕ
  | .win32 => 4
  | .x64 => 8

abbrev SizeT (platform : Platform) := BitVec (8 * platform.sizeofSizeT)

/-- The `size()` of a container of `n` elements. -/
def SizeT.ofLength (platform : Platform) (n : ℕ) : SizeT platform := BitVec.ofNat _ n

theorem Platform.sizeofSizeT_cases (platform : Platform) :
    platform.sizeofSizeT = 4 ∨ platform.sizeofSizeT = 8 := by
  cases platform <;> simp [sizeofSizeT]

/-- `ImU32` -/
abbrev ImU32 := UInt32

def gridWidth : ℕ := 40
def gridHeight : ℕ := 30

inductive MessageTypes
  | serverValidation
  | newPlayer
  | removePlayer
  | startGame
  | updatePlayer
  | newPowerup
  | powerupEaten
  | killPlayer
  /-- A value of the underlying `uint32_t` that has no name. -/
  | unnamed (value : UInt32) (h : 8 ≤ value.toNat)
  deriving DecidableEq

namespace MessageTypes

def toUInt32 : MessageTypes → UInt32
  | serverValidation => 0
  | newPlayer => 1
  | removePlayer => 2
  | startGame => 3
  | updatePlayer => 4
  | newPowerup => 5
  | powerupEaten => 6
  | killPlayer => 7
  | unnamed value _ => value

def ofUInt32 (value : UInt32) : MessageTypes :=
  match h : value.toNat with
  | 0 => serverValidation
  | 1 => newPlayer
  | 2 => removePlayer
  | 3 => startGame
  | 4 => updatePlayer
  | 5 => newPowerup
  | 6 => powerupEaten
  | 7 => killPlayer
  | _ + 8 => unnamed value (by omega)

theorem ofUInt32_toUInt32 (id : MessageTypes) : ofUInt32 id.toUInt32 = id := by
  cases id with
  | unnamed value h =>
      simp only [toUInt32]
      unfold ofUInt32
      split <;> first | rfl | omega
  | _ => rfl

instance : StandardLayout MessageTypes :=
  StandardLayout.ofRepresentation toUInt32 ofUInt32 ofUInt32_toUInt32

theorem toUInt32_ofUInt32 (value : UInt32) : (ofUInt32 value).toUInt32 = value := by
  unfold ofUInt32
  split <;> first | rfl | exact (UInt32.toNat_inj.mp ‹_›).symm

instance : ExactLayout MessageTypes :=
  ExactLayout.ofRepresentation toUInt32 ofUInt32 ofUInt32_toUInt32 toUInt32_ofUInt32

instance : Inhabited MessageTypes := ⟨serverValidation⟩

end MessageTypes

inductive Direction
  | up
  | right
  | down
  | left
  /-- A value of the underlying `uint32_t` that has no name. -/
  | unnamed (value : UInt32) (h : 4 ≤ value.toNat)
  deriving DecidableEq

namespace Direction

def toUInt32 : Direction → UInt32
  | up => 0
  | right => 1
  | down => 2
  | left => 3
  | unnamed value _ => value

def ofUInt32 (value : UInt32) : Direction :=
  match h : value.toNat with
  | 0 => up
  | 1 => right
  | 2 => down
  | 3 => left
  | _ + 4 => unnamed value (by omega)

theorem ofUInt32_toUInt32 (direction : Direction) :
    ofUInt32 direction.toUInt32 = direction := by
  cases direction with
  | unnamed value h =>
      simp only [toUInt32]
      unfold ofUInt32
      split <;> first | rfl | omega
  | _ => rfl

instance : StandardLayout Direction :=
  StandardLayout.ofRepresentation toUInt32 ofUInt32 ofUInt32_toUInt32

instance : Inhabited Direction := ⟨up⟩

end Direction

structure Position where
  x : Int32
  y : Int32
  deriving DecidableEq, Inhabited

instance : StandardLayout Position :=
  StandardLayout.ofRepresentation (fun pos ↦ (pos.x, pos.y)) (fun p ↦ ⟨p.1, p.2⟩) fun _ ↦ rfl

structure PowerupData where
  x : Int32
  y : Int32
  deriving DecidableEq, Inhabited

instance : StandardLayout PowerupData :=
  StandardLayout.ofRepresentation (fun powerup ↦ (powerup.x, powerup.y)) (fun p ↦ ⟨p.1, p.2⟩)
    fun _ ↦ rfl

def PowerupData.position (powerup : PowerupData) : Position := ⟨powerup.x, powerup.y⟩

@[simp] theorem size_position : StandardLayout.size Position = 8 := rfl
@[simp] theorem size_powerupData : StandardLayout.size PowerupData = 8 := rfl
@[simp] theorem size_direction : StandardLayout.size Direction = 4 := rfl

structure PlayerData where
  direction : Direction
  tail : List Position
  color : ImU32
  deriving DecidableEq

/-- The value-initialized entry that `operator []` inserts. -/
instance : Inhabited PlayerData := ⟨⟨.up, [], 0⟩⟩

/-- What a handler can run into: undefined behaviour, an exception that nobody
catches, or the end of the call stack. -/
inductive Fault
  /-- A member of a null `shared_ptr` is used. -/
  | nullPointer
  /-- `at` throws `std::out_of_range`. -/
  | outOfRange
  /-- The first element of an empty tail is used. -/
  | emptyTail
  /-- A null grid pointer is followed. -/
  | nullGrid
  /-- `back` or `pop_back` is called on an empty vector. -/
  | emptySpawnpoints
  /-- A position is drawn from an empty list. -/
  | emptyFreeGrid
  /-- `freeGridArray` is indexed outside its bounds. -/
  | gridIndex
  /-- `operator >>` is used on a body shorter than the requested type. -/
  | shortBody
  /-- An `int` counter is incremented past its largest value. -/
  | intOverflow
  | stackOverflow
  deriving DecidableEq

abbrev Msg := Message MessageTypes

/-- `operator >>` in a handler. -/
def readField (α : Type) [StandardLayout α] (msg : Msg) : Except Fault (α × Msg) :=
  match msg.pop α with
  | some result => .ok result
  | none => .error .shortBody

theorem bind_eq_ok {α β : Type} {x : Except Fault α} {f : α → Except Fault β} {b : β} :
    x >>= f = .ok b ↔ ∃ a, x = .ok a ∧ f a = .ok b := by
  cases x <;> simp [bind, Except.bind]

theorem readField_push {α : Type} [StandardLayout α] {msg : Msg} (h : msg.Consistent) (data : α) :
    readField α (msg.push data) = .ok (data, msg) := by
  rw [readField, Message.pop_push h]

/-- The tail as both encoders push it, head first. -/
def pushTail (msg : Msg) (tail : List Position) : Msg :=
  tail.foldl (fun msg pos ↦ msg <<< pos) msg

/-- The loop of every decoder: `count` positions, each put in front of the tail. -/
def popTail : ℕ → List Position → Msg → Except Fault (List Position × Msg)
  | 0, tail, msg => .ok (tail, msg)
  | count + 1, tail, msg => do
      let (pos, msg) ← readField Position msg
      popTail count (pos :: tail) msg

/-- A loop whose `int` counter would have to pass its largest value. -/
def countInt (count : ℕ) : Except Fault Unit :=
  if count < 2 ^ 31 then .ok () else .error .intOverflow

theorem consistent_pushTail {msg : Msg} (h : msg.Consistent) (tail : List Position) :
    (pushTail msg tail).Consistent := by
  induction tail generalizing msg with
  | nil => exact h
  | cons pos tail ih => exact ih (Message.consistent_push msg pos)

@[simp] theorem header_id_pushTail (msg : Msg) (tail : List Position) :
    (pushTail msg tail).header.id = msg.header.id := by
  induction tail generalizing msg with
  | nil => rfl
  | cons pos tail ih => exact ih (msg.push pos)

theorem length_body_pushTail (msg : Msg) (tail : List Position) :
    (pushTail msg tail).body.length = msg.body.length + 8 * tail.length := by
  induction tail generalizing msg with
  | nil => rfl
  | cons pos tail ih =>
      have hpush := Message.length_body_push msg pos
      have hrest := ih (msg.push pos)
      rw [size_position] at hpush
      simp only [List.length_cons]
      change (pushTail (msg.push pos) tail).body.length = _
      omega

/-- Decoding reverses the stack order once more, so the tail comes out head first. -/
theorem popTail_pushTail {msg : Msg} (h : msg.Consistent) (tail rest : List Position) :
    popTail tail.length rest (pushTail msg tail) = .ok (tail ++ rest, msg) := by
  induction tail using List.reverseRecOn generalizing rest with
  | nil => rfl
  | append_singleton tail pos ih =>
      have hpush : pushTail msg (tail ++ [pos]) = (pushTail msg tail).push pos := by
        simp [pushTail, Message.shiftLeft_eq_push]
      rw [List.length_append, List.length_singleton, hpush, popTail,
        readField_push (consistent_pushTail h tail)]
      simpa [bind, Except.bind] using ih (pos :: rest)

end SnekCpp
