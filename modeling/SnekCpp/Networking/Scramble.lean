import SnekCpp.Networking.Handshake

/-!
# What the answer to a challenge tells

`Scramble` swaps the two halves of every byte that its masks cover.  They have
seven bytes, so the highest byte of a challenge does not reach the answer.
-/

namespace SnekCpp.Networking

open Lib

/-- The second line of `Scramble`. -/
def swapNibbles (out : UInt64) : UInt64 :=
  (out &&& 0xF0F0F0F0F0F0F0) >>> 4 ||| (out &&& 0x0F0F0F0F0F0F0F) <<< 4

def bitOf (x : UInt64) (i : ℕ) : Bool := x.toBitVec.getLsbD i

theorem eq_iff_bitOf {x y : UInt64} : x = y ↔ ∀ i < 64, bitOf x i = bitOf y i := by
  rw [← UInt64.toBitVec_inj]
  constructor
  · intro heq i _
    exact congrArg (BitVec.getLsbD · i) heq
  · exact BitVec.eq_of_getLsbD_eq

theorem bitOf_xor (x y : UInt64) (i : ℕ) : bitOf (x ^^^ y) i = (bitOf x i ^^ bitOf y i) :=
  BitVec.getLsbD_xor

theorem mod_eq_iff_bitOf {x y : UInt64} :
    x % 0x100000000000000 = y % 0x100000000000000 ↔ ∀ i < 56, bitOf x i = bitOf y i := by
  rw [← UInt64.toNat_inj, UInt64.toNat_mod, UInt64.toNat_mod,
    show (0x100000000000000 : UInt64).toNat = 2 ^ 56 from rfl]
  constructor
  · intro heq i hi
    have hbit := congrArg (Nat.testBit · i) heq
    simp only [Nat.testBit_mod_two_pow, hi, decide_true, Bool.true_and] at hbit
    exact hbit
  · intro hbits
    apply Nat.eq_of_testBit_eq
    intro i
    rw [Nat.testBit_mod_two_pow, Nat.testBit_mod_two_pow]
    by_cases hi : i < 56
    · exact congrArg (decide (i < 56) && ·) (hbits i hi)
    · simp [hi]

/-- The other half of the byte of a bit. -/
def partner (i : ℕ) : ℕ := if i % 8 < 4 then i + 4 else i - 4

theorem partner_lt {i : ℕ} (hi : i < 56) : partner i < 56 := by
  unfold partner
  split <;> omega

theorem partner_partner (i : ℕ) : partner (partner i) = i := by
  unfold partner
  split <;> split <;> omega

theorem bitOf_swapNibbles (x : UInt64) {i : ℕ} (hi : i < 64) :
    bitOf (swapNibbles x) i = (decide (i < 56) && bitOf x (partner i)) := by
  simp only [bitOf, swapNibbles, partner]
  interval_cases i <;> simp

theorem swapNibbles_eq_iff {x y : UInt64} :
    swapNibbles x = swapNibbles y ↔ ∀ i < 56, bitOf x i = bitOf y i := by
  rw [eq_iff_bitOf]
  constructor
  · intro hbits i hi
    have hlt := partner_lt hi
    have hbit := hbits (partner i) (hlt.trans (by decide))
    rw [bitOf_swapNibbles x (hlt.trans (by decide)), bitOf_swapNibbles y (hlt.trans (by decide)),
      partner_partner] at hbit
    simpa [hlt] using hbit
  · intro hbits i hi
    rw [bitOf_swapNibbles x hi, bitOf_swapNibbles y hi]
    by_cases hlow : i < 56
    · rw [hbits _ (partner_lt hlow)]
    · simp [hlow]

namespace Endpoint

theorem scramble_eq (input : UInt64) :
    scramble input = swapNibbles (input ^^^ 0xDEADBEEFC0DECAFE) ^^^ 0xC0DEFACE12345678 := rfl

/-- Two challenges have the same answer when they agree in the seven low bytes. -/
theorem scramble_eq_iff {x y : UInt64} :
    scramble x = scramble y ↔ x % 0x100000000000000 = y % 0x100000000000000 := by
  rw [scramble_eq, scramble_eq, UInt64.xor_left_inj, swapNibbles_eq_iff, mod_eq_iff_bitOf]
  simp only [bitOf_xor, Bool.xor_left_inj]

variable {T : Type}

/-- The response of a client's end to `challenge`. -/
def response (client : Endpoint T) (challenge : UInt64) : UInt64 :=
  (client.onValidationRead false (StandardLayout.toBytes challenge)).1.m_handshakeOut

/-- `ReadValidation` refuses the response. -/
structure Rejects (server : Endpoint T) (response : UInt64) : Prop where
  closed : (server.onValidationRead false (StandardLayout.toBytes response)).1.isOpen = false
  notValidated : (server.onValidationRead false (StandardLayout.toBytes response)).2 = false

theorem response_eq {client : Endpoint T} (h : client.m_ownerType = .client) (challenge : UInt64) :
    client.response challenge = scramble challenge := by
  simp [response, onValidationRead, h, writeValidation]

theorem rejects_iff {server : Endpoint T} (h : server.m_ownerType = .server) (response : UInt64) :
    server.Rejects response ↔ response ≠ server.m_handshakeCheck := by
  by_cases heq : response = server.m_handshakeCheck
  · have haccepted : (server.onValidationRead false (StandardLayout.toBytes response)).2 = true := by
      simp [onValidationRead, h, heq]
    refine ⟨fun hrejects ↦ ?_, fun hne ↦ absurd heq hne⟩
    rw [hrejects.notValidated] at haccepted
    cases haccepted
  · refine ⟨fun _ ↦ heq, fun _ ↦ ⟨?_, ?_⟩⟩
    · simp [onValidationRead, h, heq, close]
    · simp [onValidationRead, h, heq]

section Challenges

variable [Inhabited T]

theorem ownerType_create (parent : Owner) (now : UInt64) :
    (create parent now : Endpoint T).m_ownerType = parent := by
  cases parent with
  | server => rfl
  | client => rfl

/-- The server's end of a connection that is approved at the time `now`. -/
def challenging (now : UInt64) : Endpoint T := (create .server now).connectToClient

theorem handshakeCheck_challenging (now : UInt64) :
    (challenging now : Endpoint T).m_handshakeCheck = scramble now := rfl

/-- The response to `challenge` is rejected where `other` was the challenge. -/
def FitsOnlyItself (T : Type) [Inhabited T] (challenge other : UInt64) : Prop :=
  challenge ≠ other → ∀ client : Endpoint T, client.m_ownerType = .client →
    (challenging other : Endpoint T).Rejects (client.response challenge)

theorem challenging_rejects_iff (other : UInt64) {client : Endpoint T}
    (howner : client.m_ownerType = .client) (challenge : UInt64) :
    (challenging other : Endpoint T).Rejects (client.response challenge) ↔
      challenge % 0x100000000000000 ≠ other % 0x100000000000000 := by
  rw [response_eq howner, rejects_iff (show (challenging other).m_ownerType = .server from rfl),
    handshakeCheck_challenging]
  exact scramble_eq_iff.not

theorem fitsOnlyItself_iff (challenge other : UInt64) :
    FitsOnlyItself T challenge other ↔
      challenge = other ∨ challenge % 0x100000000000000 ≠ other % 0x100000000000000 := by
  constructor
  · intro hfits
    by_cases heq : challenge = other
    · exact Or.inl heq
    · have howner : (create .client 0 : Endpoint T).m_ownerType = .client := ownerType_create _ _
      exact Or.inr ((challenging_rejects_iff other howner challenge).mp (hfits heq _ howner))
  · rintro (heq | hlow) hne client howner
    · exact absurd heq hne
    · exact (challenging_rejects_iff other howner challenge).mpr hlow

theorem not_fitsOnlyItself_later :
    ¬ FitsOnlyItself ℕ 1700000000000000000 1772057594037927936 := by
  intro hfits
  have hrejected := hfits (by decide) (create .client 0) (ownerType_create _ _)
  exact absurd hrejected.notValidated (by decide +kernel)

end Challenges

end Endpoint

end SnekCpp.Networking
