import SnekCpp.Game.System
import SnekCpp.Snek.FrameLoop
import SnekCpp.SnekServer.Extends

/-!
# Messages that carry a packet

A message that fits in its header's size is one frame on the stream, and the
packet that its receiver decodes does not depend on the buffer it is read into.
-/

namespace SnekCpp

open Lib Networking

structure Carries (platform : Platform) (msg : Msg) (packet : Packet) : Prop where
  decode : Packet.decode platform msg = .ok packet
  framed : msg.WellFramed
  nonempty : msg.body = [] → msg.header.id = .startGame

namespace Carries

variable {platform : Platform} {msg : Msg} {packet : Packet}

/-- A message without a body may be queued with a stale one, but it says the same. -/
theorem decode_received (h : Carries platform msg packet) (stale : List UInt8) :
    Packet.decode platform (msg.received stale) = .ok packet := by
  unfold Message.received
  split
  · next hempty =>
      have hid := h.nonempty hempty
      have hstart := @Packet.decode_of_startGame platform _ hid
      rw [h.decode] at hstart
      rw [hstart]
      exact Packet.decode_of_startGame hid
  · exact h.decode

theorem of_consistent (hdecode : Packet.decode platform msg = .ok packet)
    (hconsistent : msg.Consistent) (hsize : msg.body.length < 2 ^ 32)
    (hnonempty : msg.body ≠ []) : Carries platform msg packet :=
  ⟨hdecode, hconsistent.wellFramed hsize, fun hempty ↦ absurd hempty hnonempty⟩

/-- One value on an empty body. -/
theorem of_push {α : Type} [StandardLayout α] {id : MessageTypes} {data : α}
    (hdecode : Packet.decode platform ((Message.new id).push data) = .ok packet)
    (hpos : 0 < StandardLayout.size α) (hsize : StandardLayout.size α < 2 ^ 32) :
    Carries platform ((Message.new id).push data) packet := by
  have hlen : ((Message.new id).push data).body.length = StandardLayout.size α := by
    rw [Message.length_body_push]
    simp
  refine of_consistent hdecode (Message.consistent_push _ _) (by omega) ?_
  intro hempty
  rw [hempty] at hlen
  simp only [List.length_nil] at hlen
  omega

theorem removePlayerMsg (id : Int32) :
    Carries platform (Server.removePlayerMsg id) (.removePlayer id.toUInt32) :=
  of_push (Packet.decode_removePlayerMsg id) (by decide) (by decide)

theorem killPlayerMsg (id : Int32) :
    Carries platform (Server.killPlayerMsg id) (.killPlayer id.toUInt32) :=
  of_push (Packet.decode_killPlayerMsg id) (by decide) (by decide)

theorem newPowerupMsg (powerup : PowerupData) :
    Carries platform (Server.newPowerupMsg powerup) (.newPowerup powerup) :=
  of_push (Packet.decode_newPowerupMsg powerup) (by decide) (by decide)

theorem powerupEatenMsg (powerup : PowerupData) :
    Carries platform (Server.powerupEatenMsg powerup) (.powerupEaten powerup) :=
  of_push (Packet.decode_powerupEatenMsg powerup) (by decide) (by decide)

theorem startGame : Carries platform (.new .startGame) .startGame :=
  ⟨Packet.decode_of_startGame rfl, rfl, fun _ ↦ rfl⟩

theorem length_body_addPlayerToMsg (msg : Msg) (player : PlayerData) :
    (Server.addPlayerToMsg platform msg player).body.length =
      msg.body.length + 8 * player.tail.length + platform.sizeofSizeT := by
  unfold Server.addPlayerToMsg
  rw [Message.shiftLeft_eq_push, Message.length_body_push, length_body_pushTail, StandardLayout.size_bitVec]

theorem newPlayerMsg {player : PlayerData} (h : player.tail.length < 2 ^ 28) (id : UInt32) :
    Carries platform (Server.newPlayerMsg platform player id)
      (.newPlayer id player.color player.tail) := by
  have hlen : (Server.newPlayerMsg platform player id).body.length =
      8 * player.tail.length + platform.sizeofSizeT + 8 := by
    simp only [Server.newPlayerMsg, Message.shiftLeft_eq_push, Message.length_body_push,
      length_body_addPlayerToMsg, Message.new_body, List.length_nil, StandardLayout.size_uint32]
    omega
  refine of_consistent (Packet.decode_newPlayerMsg (by omega) id) (Message.consistent_push _ _) ?_ ?_
  · rcases platform.sizeofSizeT_cases with h' | h' <;> omega
  · intro hempty
    rw [hempty, List.length_nil] at hlen
    omega

theorem updatePlayerMsg {tail : List Position} {direction : Direction} {id : Int32}
    (hsize : (SnakeClient.updatePlayerMsg platform tail direction id).body.length < 2 ^ 32) :
    Carries platform (SnakeClient.updatePlayerMsg platform tail direction id)
      (.updatePlayer id.toUInt32 direction tail) := by
  have hlen := @Packet.length_body_updatePlayerMsg platform tail direction id
  refine of_consistent (Packet.decode_updatePlayerMsg (by omega) direction id)
    (Message.consistent_push _ _) hsize ?_
  intro hempty
  rw [hempty, List.length_nil] at hlen
  omega

/-! ## The snapshot -/

theorem length_body_pushEntry (msg : Msg) (entry : UInt32 × PlayerData) :
    (Packet.pushEntry platform msg entry).body.length =
      msg.body.length + 8 * entry.2.tail.length + platform.sizeofSizeT + 8 := by
  simp only [Packet.pushEntry, Message.shiftLeft_eq_push, Message.length_body_push,
    length_body_addPlayerToMsg, StandardLayout.size_uint32]

/-- The roster's encoding is longer than its number of players and of cells. -/
theorem le_length_body_pushRoster (msg : Msg) (roster : List (UInt32 × PlayerData)) :
    msg.body.length + 8 * roster.length ≤ (Packet.pushRoster platform msg roster).body.length ∧
      ∀ entry ∈ roster,
        8 * entry.2.tail.length ≤ (Packet.pushRoster platform msg roster).body.length := by
  induction roster generalizing msg with
  | nil => simp [Packet.pushRoster]
  | cons entry roster ih =>
      obtain ⟨hlen, htails⟩ := ih (Packet.pushEntry platform msg entry)
      have hentry := @length_body_pushEntry platform msg entry
      change _ ≤ (Packet.pushRoster platform _ roster).body.length ∧
        ∀ e ∈ entry :: roster, _ ≤ (Packet.pushRoster platform _ roster).body.length
      refine ⟨by rw [List.length_cons]; omega, fun e he ↦ ?_⟩
      rcases List.mem_cons.mp he with rfl | he
      · omega
      · exact htails e he

theorem length_body_pushPowerups (msg : Msg) (powerups : List PowerupData) :
    (Packet.pushPowerups msg powerups).body.length = msg.body.length + 8 * powerups.length := by
  induction powerups generalizing msg with
  | nil => rfl
  | cons powerup powerups ih =>
      have hrest := ih (msg.push powerup)
      rw [Message.length_body_push, size_powerupData] at hrest
      rw [List.length_cons]
      change (Packet.pushPowerups (msg.push powerup) powerups).body.length = _
      omega

theorem stateMsg {roster : List (UInt32 × PlayerData)} {powerups : List PowerupData} {id : UInt32}
    (hsize : (Server.stateMsg platform roster powerups id).body.length < 2 ^ 32) :
    Carries platform (Server.stateMsg platform roster powerups id)
      (.serverValidation id powerups.reverse (roster.map Packet.rosterEntry).reverse) := by
  obtain ⟨hroster, htails⟩ := @le_length_body_pushRoster platform
    (.new .serverValidation) roster
  have hlen : (Server.stateMsg platform roster powerups id).body.length =
      (Packet.pushRoster platform (.new .serverValidation) roster).body.length +
        platform.sizeofSizeT + 8 * powerups.length + platform.sizeofSizeT + 4 := by
    simp only [Packet.stateMsg_eq, Message.length_body_push, length_body_pushPowerups, StandardLayout.size_bitVec,
      StandardLayout.size_uint32]
  have hsmall : ∀ entry ∈ roster, entry.2.tail.length < 2 ^ 31 := fun entry hentry ↦ by
    have := htails entry hentry
    omega
  have hdecode := @Packet.decode_stateMsg platform roster powerups
    (.of_lt (show roster.length < 2 ^ 31 by omega)) (fun entry hentry ↦ .of_lt (hsmall entry hentry))
    (show powerups.length < 2 ^ 31 by omega) id
  rw [if_pos ⟨by omega, hsmall⟩] at hdecode
  refine of_consistent hdecode (Message.consistent_push _ _) hsize ?_
  intro hempty
  rw [hempty, List.length_nil] at hlen
  omega

end Carries

end SnekCpp
