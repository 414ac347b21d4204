import SnekCpp.SnekServer.Malformed

/-!
# Builds of different word size

Ids and directions are pushed as 32-bit values, but the length of a tail is
pushed as a `size_t`, which the two configured platforms copy in 4 and in 8
bytes.  A message is understood only by a build of the same word size.
-/

namespace SnekCpp

open Lib Networking

/-- Each position that is popped takes eight bytes. -/
theorem length_of_popTail {count : ℕ} {tail tail' : List Position} {msg rest : Msg}
    (h : popTail count tail msg = .ok (tail', rest)) :
    tail'.length = tail.length + count ∧ rest.body.length + 8 * count = msg.body.length := by
  induction count generalizing tail msg with
  | zero =>
      cases h
      exact ⟨rfl, rfl⟩
  | succ count ih =>
      rw [popTail] at h
      obtain ⟨⟨pos, below⟩, hread, hrest⟩ := bind_eq_ok.mp h
      obtain ⟨htail, hbody⟩ := ih hrest
      have hpos := length_body_of_readField hread
      rw [size_position] at hpos
      rw [List.length_cons] at htail
      exact ⟨by omega, by omega⟩

namespace Server

variable {platform : Platform} {sender receiver : Platform} {direction : Direction}
  {clientID : Int32} {tail : List Position}

/-- The body of an `UpdatePlayer` is taken apart into what was put into it and
nothing is left. -/
def DecodesUpdate (sender receiver : Platform) (tail : List Position) (direction : Direction)
    (clientID : Int32) : Prop :=
  ∃ rest, popUpdate receiver (SnakeClient.updatePlayerMsg sender tail direction clientID) =
    .ok ((clientID, direction, tail), rest) ∧ rest.body = []

/-- What a decoder that succeeds has taken off the body, and the range of the
counter of its loop. -/
theorem length_of_popUpdate {msg rest : Msg}
    (h : popUpdate platform msg = .ok ((clientID, direction, tail), rest)) :
    rest.body.length + 8 * tail.length + platform.sizeofSizeT + 8 = msg.body.length ∧
      tail.length < 2 ^ 32 := by
  obtain ⟨⟨_, afterID⟩, hreadID, h⟩ := bind_eq_ok.mp h
  obtain ⟨⟨_, afterDirection⟩, hreadDirection, h⟩ := bind_eq_ok.mp h
  obtain ⟨⟨tailLength, afterLength⟩, hreadLength, h⟩ := bind_eq_ok.mp h
  obtain ⟨⟨_, afterTail⟩, hpopTail, h⟩ := bind_eq_ok.mp h
  cases h
  have hID := length_body_of_readField hreadID
  have hDirection := length_body_of_readField hreadDirection
  have hLength := length_body_of_readField hreadLength
  rw [StandardLayout.size_int32] at hID
  rw [size_direction] at hDirection
  rw [size_sizeT] at hLength
  unfold popUnsignedTail at hpopTail
  split at hpopTail
  · next hcount =>
      obtain ⟨hlength, hbody⟩ := length_of_popTail hpopTail
      rw [List.length_nil, Nat.zero_add] at hlength
      rw [hlength]
      exact ⟨by omega, hcount⟩
  · cases hpopTail

theorem sizeofSizeT_inj (h : sender.sizeofSizeT = receiver.sizeofSizeT) : sender = receiver := by
  cases sender <;> cases receiver <;> first | rfl | cases h

/-- The bytes alone give the word size away: a decoder of another word size that
finds the tail has not used up the body, or has used more than it. -/
theorem eq_of_decodesUpdate (h : DecodesUpdate sender receiver tail direction clientID) :
    sender = receiver ∧ tail.length < 2 ^ 32 := by
  obtain ⟨rest, hpop, hrest⟩ := h
  obtain ⟨hlength, hcount⟩ := length_of_popUpdate hpop
  rw [Packet.length_body_updatePlayerMsg, hrest, List.length_nil] at hlength
  exact ⟨sizeofSizeT_inj (by omega), hcount⟩

theorem decodesUpdate_of_lt (platform : Platform) (hsize : tail.length < 2 ^ 32)
    (direction : Direction) (clientID : Int32) :
    DecodesUpdate platform platform tail direction clientID :=
  ⟨.new .updatePlayer, popUpdate_updatePlayerMsg hsize direction clientID, rfl⟩

/-- An `UpdatePlayer` is decoded exactly when both builds have one word size and
the tail is not longer than the loop can count. -/
theorem decodesUpdate_iff (sender receiver : Platform) (tail : List Position)
    (direction : Direction) (clientID : Int32) :
    DecodesUpdate sender receiver tail direction clientID ↔
      sender = receiver ∧ tail.length < 2 ^ 32 := by
  constructor
  · exact eq_of_decodesUpdate
  · rintro ⟨rfl, hsize⟩
    exact decodesUpdate_of_lt sender hsize direction clientID

/-- A 64-bit client and a 32-bit server: the server takes the upper half of the
length for the length. -/
theorem not_decodesUpdate_x64_win32 :
    ¬ DecodesUpdate .x64 .win32 [⟨10, 10⟩] .up 10000 :=
  fun h ↦ absurd (eq_of_decodesUpdate h).1 (by decide)

end Server

end SnekCpp
