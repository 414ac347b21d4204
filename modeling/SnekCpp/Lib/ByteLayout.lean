import Mathlib

/-!
# Object representations

A standard layout value is copied into a message and out of it again with
`memcpy`, so all the program ever uses of such a type is its size and a pair
of maps between values and bytes.  The words are little-endian.
-/

namespace SnekCpp.Lib

/-- The `width` low bytes of `value`, least significant byte first. -/
def littleEndian : ℕ → ℕ → List UInt8
  | 0, _ => []
  | width + 1, value => UInt8.ofNat value :: littleEndian width (value / 256)

def fromLittleEndian (bytes : List UInt8) : ℕ :=
  bytes.foldr (fun byte value ↦ byte.toNat + 256 * value) 0

@[simp] theorem length_littleEndian (width value : ℕ) :
    (littleEndian width value).length = width := by
  induction width generalizing value with
  | zero => rfl
  | succ width ih => simp [littleEndian, ih]

theorem fromLittleEndian_littleEndian {width value : ℕ} (h : value < 256 ^ width) :
    fromLittleEndian (littleEndian width value) = value := by
  induction width generalizing value with
  | zero =>
      have hzero : value = 0 := by simpa using h
      simp [littleEndian, fromLittleEndian, hzero]
  | succ width ih =>
      have hdiv : value / 256 < 256 ^ width := by
        apply Nat.div_lt_of_lt_mul
        simpa only [pow_succ'] using h
      have hrest := ih hdiv
      simp only [fromLittleEndian] at hrest
      simp only [littleEndian, fromLittleEndian, List.foldr_cons, hrest, UInt8.toNat_ofNat']
      omega

/-- What `operator <<` and `operator >>` need of a type: `sizeof`, and its
object representation. -/
class StandardLayout (α : Type) where
  size : ℕ
  toBytes : α → List UInt8
  fromBytes : List UInt8 → α
  length_toBytes : ∀ a, (toBytes a).length = size
  fromBytes_toBytes : ∀ a, fromBytes (toBytes a) = a

namespace StandardLayout

attribute [simp] length_toBytes fromBytes_toBytes

/-- A word of `width` bytes. -/
@[reducible] def ofWord {α : Type} (width : ℕ) (toNat : α → ℕ) (ofNat : ℕ → α)
    (lt : ∀ a, toNat a < 256 ^ width) (ofNat_toNat : ∀ a, ofNat (toNat a) = a) :
    StandardLayout α where
  size := width
  toBytes a := littleEndian width (toNat a)
  fromBytes bytes := ofNat (fromLittleEndian bytes)
  length_toBytes a := length_littleEndian width (toNat a)
  fromBytes_toBytes a := by
    rw [fromLittleEndian_littleEndian (lt a), ofNat_toNat]

/-- A type that is represented by the bytes of another one. -/
@[reducible] def ofRepresentation {α β : Type} [StandardLayout β] (encode : α → β)
    (decode : β → α) (decode_encode : ∀ a, decode (encode a) = a) : StandardLayout α where
  size := size β
  toBytes a := toBytes (encode a)
  fromBytes bytes := decode (fromBytes bytes)
  length_toBytes a := length_toBytes (encode a)
  fromBytes_toBytes a := by rw [fromBytes_toBytes, decode_encode]

/-- Two members laid out one after the other, without padding. -/
instance prod {α β : Type} [StandardLayout α] [StandardLayout β] : StandardLayout (α × β) where
  size := size α + size β
  toBytes p := toBytes p.1 ++ toBytes p.2
  fromBytes bytes := (fromBytes (bytes.take (size α)), fromBytes (bytes.drop (size α)))
  length_toBytes p := by simp
  fromBytes_toBytes p := by
    have hlen : (toBytes p.1).length = size α := length_toBytes p.1
    rw [← hlen, List.take_left, List.drop_left, fromBytes_toBytes, fromBytes_toBytes]

instance : StandardLayout UInt32 :=
  ofWord 4 UInt32.toNat UInt32.ofNat (fun a ↦ a.toNat_lt) fun _ ↦ UInt32.ofNat_toNat

instance : StandardLayout UInt64 :=
  ofWord 8 UInt64.toNat UInt64.ofNat (fun a ↦ a.toNat_lt) fun _ ↦ UInt64.ofNat_toNat

instance : StandardLayout Int32 :=
  ofRepresentation Int32.toUInt32 UInt32.toInt32 fun _ ↦ rfl

instance {width : ℕ} : StandardLayout (BitVec (8 * width)) :=
  ofWord width BitVec.toNat (BitVec.ofNat (8 * width))
    (fun a ↦ by
      have hlt := a.isLt
      rwa [pow_mul, show 2 ^ 8 = 256 from rfl] at hlt)
    fun a ↦ by simp

theorem lt_fromLittleEndian (bytes : List UInt8) :
    fromLittleEndian bytes < 256 ^ bytes.length := by
  induction bytes with
  | nil => simp [fromLittleEndian]
  | cons byte bytes ih =>
      have hbyte := byte.toNat_lt
      have hcons : fromLittleEndian (byte :: bytes) =
          byte.toNat + 256 * fromLittleEndian bytes := rfl
      rw [hcons, List.length_cons, pow_succ]
      omega

theorem littleEndian_fromLittleEndian (bytes : List UInt8) :
    littleEndian bytes.length (fromLittleEndian bytes) = bytes := by
  induction bytes with
  | nil => rfl
  | cons byte bytes ih =>
      have hbyte := byte.toNat_lt
      have hcons : fromLittleEndian (byte :: bytes) =
          byte.toNat + 256 * fromLittleEndian bytes := rfl
      have hdiv : fromLittleEndian (byte :: bytes) / 256 = fromLittleEndian bytes := by
        rw [hcons]
        omega
      have hlow : UInt8.ofNat (fromLittleEndian (byte :: bytes)) = byte := by
        apply UInt8.toNat_inj.mp
        rw [UInt8.toNat_ofNat', hcons]
        omega
      rw [List.length_cons, littleEndian, hdiv, hlow, ih]

@[simp] theorem size_uint32 : size UInt32 = 4 := rfl
@[simp] theorem size_int32 : size Int32 = 4 := rfl
@[simp] theorem size_bitVec {width : ℕ} : size (BitVec (8 * width)) = width := rfl

end StandardLayout

/-- Every sequence of bytes of the right length represents a value. -/
class ExactLayout (α : Type) [StandardLayout α] : Prop where
  toBytes_fromBytes : ∀ bytes : List UInt8, bytes.length = StandardLayout.size α →
    StandardLayout.toBytes (StandardLayout.fromBytes bytes : α) = bytes

namespace ExactLayout

open StandardLayout

theorem ofRepresentation {α β : Type} [StandardLayout β] [ExactLayout β] (encode : α → β)
    (decode : β → α) (decode_encode : ∀ a, decode (encode a) = a)
    (encode_decode : ∀ b, encode (decode b) = b) :
    @ExactLayout α (StandardLayout.ofRepresentation encode decode decode_encode) :=
  letI := StandardLayout.ofRepresentation encode decode decode_encode
  { toBytes_fromBytes := fun bytes hlen ↦ by
      have hsame := ExactLayout.toBytes_fromBytes (α := β) bytes hlen
      rw [← encode_decode (fromBytes bytes)] at hsame
      exact hsame }

instance : ExactLayout UInt32 where
  toBytes_fromBytes bytes hlen := by
    have hlt : fromLittleEndian bytes < 2 ^ 32 := by
      have hbound := lt_fromLittleEndian bytes
      rwa [show bytes.length = 4 from hlen, show 256 ^ 4 = 2 ^ 32 from rfl] at hbound
    have hvalue : (UInt32.ofNat (fromLittleEndian bytes)).toNat = fromLittleEndian bytes :=
      Nat.mod_eq_of_lt hlt
    change littleEndian 4 (UInt32.ofNat (fromLittleEndian bytes)).toNat = bytes
    rw [hvalue, ← show bytes.length = 4 from hlen]
    exact littleEndian_fromLittleEndian bytes

instance {α β : Type} [StandardLayout α] [StandardLayout β] [ExactLayout α] [ExactLayout β] :
    ExactLayout (α × β) where
  toBytes_fromBytes bytes hlen := by
    have hsum : bytes.length = size α + size β := hlen
    have htake : (bytes.take (size α)).length = size α := by
      rw [List.length_take]
      omega
    have hdrop : (bytes.drop (size α)).length = size β := by
      rw [List.length_drop]
      omega
    change toBytes (fromBytes (bytes.take (size α)) : α) ++
      toBytes (fromBytes (bytes.drop (size α)) : β) = bytes
    rw [toBytes_fromBytes _ htake, toBytes_fromBytes _ hdrop, List.take_append_drop]

end ExactLayout

end SnekCpp.Lib
