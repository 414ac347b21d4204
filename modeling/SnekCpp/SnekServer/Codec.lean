import SnekCpp.Snek.Packet
import SnekCpp.SnekServer.Server

/-!
# Encoders and decoders

Both programs push the fields of a message in one function and pop them in
another.  Each encoder is decoded to the packet it was written for.
-/

namespace SnekCpp

open Lib Networking

namespace Packet

variable (platform : Platform)

/-- The packet of a message and what is left of the message after its pops. -/
def popPacket (msg : Msg) : Except Fault (Packet × Msg) :=
  match msg.header.id with
  | .serverValidation => do
      let (clientID, msg) ← readField Int32 msg
      let (powerupCount, msg) ← readField (SizeT platform) msg
      countInt powerupCount.toNat
      let (powerups, msg) ← popPowerupData powerupCount.toNat msg
      let (playerCount, msg) ← readField (SizeT platform) msg
      countInt playerCount.toNat
      let (roster, msg) ← popRoster platform playerCount.toNat msg
      return (.serverValidation clientID.toUInt32 powerups roster, msg)
  | .newPlayer => do
      let (newClientID, msg) ← readField UInt32 msg
      let (color, msg) ← readField ImU32 msg
      let (tail, msg) ← SnakeClient.popSizedTail platform msg
      return (.newPlayer newClientID color tail, msg)
  | .removePlayer => do
      let (id, msg) ← readField Int32 msg
      return (.removePlayer id.toUInt32, msg)
  | .startGame => return (.startGame, msg)
  | .updatePlayer => do
      let (newClientID, msg) ← readField Int32 msg
      let (dir, msg) ← readField Direction msg
      let (tail, msg) ← SnakeClient.popSizedTail platform msg
      return (.updatePlayer newClientID.toUInt32 dir tail, msg)
  | .newPowerup => do
      let (powerup, msg) ← readField PowerupData msg
      return (.newPowerup powerup, msg)
  | .powerupEaten => do
      let (powerup, msg) ← readField PowerupData msg
      return (.powerupEaten powerup, msg)
  | .killPlayer => do
      let (playerKilledID, msg) ← readField Int32 msg
      return (.killPlayer playerKilledID.toUInt32, msg)
  | .unnamed _ _ => return (.unnamed, msg)

variable {platform}

theorem decode_eq_popPacket (msg : Msg) :
    decode platform msg = Prod.fst <$> popPacket platform msg := by
  unfold decode popPacket
  cases msg.header.id <;> simp

theorem countInt_eq {count : ℕ} (h : count < 2 ^ 31) : countInt count = .ok () := by
  rw [countInt, if_pos h]

theorem countInt_eq_error {count : ℕ} (h : ¬count < 2 ^ 31) :
    countInt count = .error .intOverflow := by
  rw [countInt, if_neg h]

/-- Ids are pushed as `uint32_t` and popped as `int`. -/
theorem readField_int32_push {msg : Msg} (h : msg.Consistent) (id : UInt32) :
    readField Int32 (msg.push id) = .ok (id.toInt32, msg) :=
  readField_push h id.toInt32

/-- A number that `size()` can return. -/
def FitsSizeT (platform : Platform) (n : ℕ) : Prop := n < 2 ^ (8 * platform.sizeofSizeT)

instance (n : ℕ) : Decidable (FitsSizeT platform n) := inferInstanceAs (Decidable (_ < _))

theorem readField_size {msg : Msg} (h : msg.Consistent) {n : ℕ} (hn : FitsSizeT platform n) :
    ∃ size : SizeT platform, size.toNat = n ∧
      readField (SizeT platform) (msg.push (SizeT.ofLength platform n)) = .ok (size, msg) :=
  ⟨SizeT.ofLength platform n, by simp [SizeT.ofLength, Nat.mod_eq_of_lt hn], readField_push h _⟩

theorem FitsSizeT.of_lt_word {n : ℕ} (h : n < 2 ^ 32) : FitsSizeT platform n := by
  have hle : 2 ^ 32 ≤ 2 ^ (8 * platform.sizeofSizeT) := by
    apply Nat.pow_le_pow_right (by decide)
    rcases platform.sizeofSizeT_cases with h | h <;> omega
  exact h.trans_le hle

theorem FitsSizeT.of_lt {n : ℕ} (h : n < 2 ^ 31) : FitsSizeT platform n :=
  .of_lt_word (by omega)

/-- A tail comes out of its encoding unless its size overflows the loop counter. -/
theorem popSizedTail_push {msg : Msg} (h : msg.Consistent) {tail : List Position}
    (hsize : FitsSizeT platform tail.length) :
    SnakeClient.popSizedTail platform
        ((pushTail msg tail).push (SizeT.ofLength platform tail.length)) =
      if tail.length < 2 ^ 31 then .ok (tail, msg) else .error .intOverflow := by
  obtain ⟨size, hval, hread⟩ := readField_size (consistent_pushTail h tail) hsize
  have hpop := popTail_pushTail h tail []
  rw [List.append_nil] at hpop
  simp only [SnakeClient.popSizedTail, hread, bind, Except.bind, hval]
  by_cases hlt : tail.length < 2 ^ 31
  · rw [countInt_eq hlt, if_pos hlt]
    exact hpop
  · rw [countInt_eq_error hlt, if_neg hlt]

/-! ## The join snapshot -/

def pushPowerups (msg : Msg) (powerups : List PowerupData) : Msg :=
  powerups.foldl (fun msg powerup ↦ msg <<< powerup) msg

theorem consistent_pushPowerups {msg : Msg} (h : msg.Consistent) (powerups : List PowerupData) :
    (pushPowerups msg powerups).Consistent := by
  induction powerups generalizing msg with
  | nil => exact h
  | cons powerup powerups ih => exact ih (Message.consistent_push msg powerup)

theorem popPowerupData_push {msg : Msg} (h : msg.Consistent) (powerups : List PowerupData) :
    popPowerupData powerups.length (pushPowerups msg powerups) = .ok (powerups.reverse, msg) := by
  induction powerups using List.reverseRecOn with
  | nil => rfl
  | append_singleton powerups powerup ih =>
      have hpush : pushPowerups msg (powerups ++ [powerup]) =
          (pushPowerups msg powerups).push powerup := by
        simp [pushPowerups, Message.shiftLeft_eq_push]
      rw [List.length_append, List.length_singleton, hpush, popPowerupData,
        readField_push (consistent_pushPowerups h powerups)]
      simp [bind, Except.bind, pure, Except.pure, ih]

/-- One player of the snapshot: tail and size, color, id. -/
def pushEntry (platform : Platform) (msg : Msg) (entry : UInt32 × PlayerData) : Msg :=
  Server.addPlayerToMsg platform msg entry.2 <<< entry.2.color <<< entry.1

def pushRoster (platform : Platform) (msg : Msg) (roster : List (UInt32 × PlayerData)) : Msg :=
  roster.foldl (pushEntry platform) msg

def rosterEntry (entry : UInt32 × PlayerData) : RosterEntry :=
  (entry.1, entry.2.color, entry.2.tail)

theorem consistent_pushRoster {msg : Msg} (h : msg.Consistent)
    (roster : List (UInt32 × PlayerData)) : (pushRoster platform msg roster).Consistent := by
  induction roster generalizing msg with
  | nil => exact h
  | cons entry roster ih => exact ih (Message.consistent_push _ entry.1)

/-- The decoder fails exactly when it meets a tail that is too long to count. -/
theorem popRoster_push {msg : Msg} (h : msg.Consistent) (roster : List (UInt32 × PlayerData))
    (hsize : ∀ entry ∈ roster, FitsSizeT platform entry.2.tail.length) :
    popRoster platform roster.length (pushRoster platform msg roster) =
      if ∀ entry ∈ roster, entry.2.tail.length < 2 ^ 31 then
        .ok ((roster.map rosterEntry).reverse, msg)
      else .error .intOverflow := by
  induction roster using List.reverseRecOn with
  | nil => simp [popRoster, pushRoster]
  | append_singleton roster entry ih =>
      have hpush : pushRoster platform msg (roster ++ [entry]) =
          (((pushTail (pushRoster platform msg roster) entry.2.tail).push
            (SizeT.ofLength platform entry.2.tail.length)).push entry.2.color).push entry.1 := by
        simp [pushRoster, pushEntry, Server.addPlayerToMsg, Message.shiftLeft_eq_push]
      have hroster : (pushRoster platform msg roster).Consistent := consistent_pushRoster h roster
      have htail := popSizedTail_push hroster (hsize entry (by simp))
      rw [List.length_append, List.length_singleton, hpush, popRoster,
        readField_int32_push (Message.consistent_push _ _)]
      simp only [bind, Except.bind, readField_push (Message.consistent_push _ _), htail]
      have hall : (∀ e ∈ roster ++ [entry], e.2.tail.length < 2 ^ 31) ↔
          entry.2.tail.length < 2 ^ 31 ∧ ∀ e ∈ roster, e.2.tail.length < 2 ^ 31 := by
        simp only [List.forall_mem_append, List.forall_mem_singleton]
        exact and_comm
      by_cases hentry : entry.2.tail.length < 2 ^ 31
      · rw [if_pos hentry]
        simp only [ih fun e he ↦ hsize e (List.mem_append_left _ he)]
        by_cases hrest : ∀ e ∈ roster, e.2.tail.length < 2 ^ 31
        · rw [if_pos hrest, if_pos (hall.mpr ⟨hentry, hrest⟩)]
          simp [pure, Except.pure, rosterEntry]
        · rw [if_neg hrest, if_neg fun h ↦ hrest (hall.mp h).2]
      · rw [if_neg hentry, if_neg fun h ↦ hentry (hall.mp h).1]

/-- The counts of a snapshot that its decoder's `int` counters can reach. -/
def CountsFitInt (roster : List (UInt32 × PlayerData)) : Prop :=
  roster.length < 2 ^ 31 ∧ ∀ entry ∈ roster, entry.2.tail.length < 2 ^ 31

instance (roster : List (UInt32 × PlayerData)) : Decidable (CountsFitInt roster) :=
  inferInstanceAs (Decidable (_ ∧ _))

theorem stateMsg_eq (roster : List (UInt32 × PlayerData)) (powerups : List PowerupData)
    (id : UInt32) :
    Server.stateMsg platform roster powerups id =
      ((pushPowerups ((pushRoster platform (.new .serverValidation) roster).push
        (SizeT.ofLength platform roster.length)) powerups).push
          (SizeT.ofLength platform powerups.length)).push id := rfl

theorem header_id_pushPowerups (msg : Msg) (powerups : List PowerupData) :
    (pushPowerups msg powerups).header.id = msg.header.id := by
  induction powerups generalizing msg with
  | nil => rfl
  | cons powerup powerups ih => exact ih (msg.push powerup)

theorem header_id_pushRoster (msg : Msg) (roster : List (UInt32 × PlayerData)) :
    (pushRoster platform msg roster).header.id = msg.header.id := by
  induction roster generalizing msg with
  | nil => rfl
  | cons entry roster ih =>
      have hentry : (pushEntry platform msg entry).header.id = msg.header.id := by
        simp [pushEntry, Server.addPlayerToMsg, Message.shiftLeft_eq_push]
      exact (ih (pushEntry platform msg entry)).trans hentry

theorem header_id_stateMsg (roster : List (UInt32 × PlayerData)) (powerups : List PowerupData)
    (id : UInt32) :
    (Server.stateMsg platform roster powerups id).header.id = .serverValidation := by
  simp [stateMsg_eq, header_id_pushPowerups, header_id_pushRoster]

theorem popPacket_stateMsg {roster : List (UInt32 × PlayerData)} {powerups : List PowerupData}
    (hroster : FitsSizeT platform roster.length)
    (htails : ∀ entry ∈ roster, FitsSizeT platform entry.2.tail.length)
    (hpowerups : powerups.length < 2 ^ 31) (id : UInt32) :
    popPacket platform (Server.stateMsg platform roster powerups id) =
      if CountsFitInt roster then
        .ok (.serverValidation id powerups.reverse (roster.map rosterEntry).reverse,
          .new .serverValidation)
      else .error .intOverflow := by
  have hbase : (Message.new MessageTypes.serverValidation).Consistent := rfl
  have hfirst : (pushRoster platform (.new .serverValidation) roster).Consistent :=
    consistent_pushRoster hbase roster
  obtain ⟨powerupCount, hpowerupCount, hreadPowerups⟩ := readField_size
    (consistent_pushPowerups (Message.consistent_push _ (SizeT.ofLength platform roster.length))
      powerups) (.of_lt hpowerups : FitsSizeT platform powerups.length)
  obtain ⟨playerCount, hplayerCount, hreadPlayers⟩ := readField_size hfirst hroster
  unfold popPacket
  rw [header_id_stateMsg]
  simp only [stateMsg_eq, readField_int32_push (Message.consistent_push _ _), bind, Except.bind]
  rw [hreadPowerups]
  simp only [hpowerupCount, countInt_eq hpowerups,
    popPowerupData_push (Message.consistent_push _ _)]
  rw [hreadPlayers]
  simp only [hplayerCount]
  by_cases hlen : roster.length < 2 ^ 31
  · simp only [countInt_eq hlen, popRoster_push hbase roster htails]
    by_cases hfit : ∀ entry ∈ roster, entry.2.tail.length < 2 ^ 31
    · rw [if_pos hfit, if_pos ⟨hlen, hfit⟩]
      rfl
    · rw [if_neg hfit, if_neg fun h ↦ hfit h.2]
  · rw [countInt_eq_error hlen, if_neg fun h ↦ hlen h.1]

theorem decode_stateMsg {roster : List (UInt32 × PlayerData)} {powerups : List PowerupData}
    (hroster : FitsSizeT platform roster.length)
    (htails : ∀ entry ∈ roster, FitsSizeT platform entry.2.tail.length)
    (hpowerups : powerups.length < 2 ^ 31) (id : UInt32) :
    decode platform (Server.stateMsg platform roster powerups id) =
      if CountsFitInt roster then
        .ok (.serverValidation id powerups.reverse (roster.map rosterEntry).reverse)
      else .error .intOverflow := by
  rw [decode_eq_popPacket, popPacket_stateMsg hroster htails hpowerups]
  split <;> rfl

/-! ## The other messages -/

theorem header_id_updatePlayerMsg (tail : List Position) (direction : Direction) (id : Int32) :
    (SnakeClient.updatePlayerMsg platform tail direction id).header.id = .updatePlayer := by
  simp [SnakeClient.updatePlayerMsg, Message.shiftLeft_eq_push]

theorem length_body_updatePlayerMsg (tail : List Position) (direction : Direction) (id : Int32) :
    (SnakeClient.updatePlayerMsg platform tail direction id).body.length =
      8 * tail.length + platform.sizeofSizeT + 8 := by
  simp only [SnakeClient.updatePlayerMsg, Message.shiftLeft_eq_push, Message.length_body_push,
    length_body_pushTail, Message.new_body, List.length_nil, Nat.zero_add]
  rfl

theorem popPacket_updatePlayerMsg {tail : List Position}
    (hsize : FitsSizeT platform tail.length) (direction : Direction) (id : Int32) :
    popPacket platform (SnakeClient.updatePlayerMsg platform tail direction id) =
      if tail.length < 2 ^ 31 then
        .ok (.updatePlayer id.toUInt32 direction tail, .new .updatePlayer)
      else .error .intOverflow := by
  have hbase : (Message.new MessageTypes.updatePlayer).Consistent := rfl
  have htail := popSizedTail_push hbase hsize
  unfold popPacket
  rw [header_id_updatePlayerMsg]
  simp only [SnakeClient.updatePlayerMsg, Message.shiftLeft_eq_push, bind, Except.bind,
    readField_push (Message.consistent_push _ _), htail]
  by_cases h : tail.length < 2 ^ 31
  · rw [if_pos h, if_pos h]
    rfl
  · rw [if_neg h, if_neg h]

theorem decode_updatePlayerMsg_of_fits {tail : List Position}
    (hsize : FitsSizeT platform tail.length) (direction : Direction) (id : Int32) :
    decode platform (SnakeClient.updatePlayerMsg platform tail direction id) =
      if tail.length < 2 ^ 31 then .ok (.updatePlayer id.toUInt32 direction tail)
      else .error .intOverflow := by
  rw [decode_eq_popPacket, popPacket_updatePlayerMsg hsize]
  split <;> rfl

theorem decode_updatePlayerMsg {tail : List Position} (h : tail.length < 2 ^ 31)
    (direction : Direction) (id : Int32) :
    decode platform (SnakeClient.updatePlayerMsg platform tail direction id) =
      .ok (.updatePlayer id.toUInt32 direction tail) := by
  rw [decode_updatePlayerMsg_of_fits (.of_lt h), if_pos h]

theorem header_id_newPlayerMsg (player : PlayerData) (id : UInt32) :
    (Server.newPlayerMsg platform player id).header.id = .newPlayer := by
  simp [Server.newPlayerMsg, Server.addPlayerToMsg, Message.shiftLeft_eq_push]

theorem decode_newPlayerMsg {player : PlayerData} (h : player.tail.length < 2 ^ 31)
    (id : UInt32) :
    decode platform (Server.newPlayerMsg platform player id) =
      .ok (.newPlayer id player.color player.tail) := by
  have hbase : (Message.new MessageTypes.newPlayer).Consistent := rfl
  have htail := popSizedTail_push hbase (.of_lt h : FitsSizeT platform _)
  rw [if_pos h] at htail
  unfold decode
  rw [header_id_newPlayerMsg]
  simp only [Server.newPlayerMsg, Server.addPlayerToMsg, Message.shiftLeft_eq_push, bind,
    Except.bind, readField_push (Message.consistent_push _ _), htail]
  rfl

theorem decode_removePlayerMsg (id : Int32) :
    decode platform (Server.removePlayerMsg id) = .ok (.removePlayer id.toUInt32) := by
  have hread := readField_push (show (Message.new MessageTypes.removePlayer).Consistent from rfl) id
  unfold decode Server.removePlayerMsg
  rw [Message.shiftLeft_eq_push, Message.push_header_id]
  simp only [Message.new_header_id, hread]
  rfl

theorem decode_killPlayerMsg (id : Int32) :
    decode platform (Server.killPlayerMsg id) = .ok (.killPlayer id.toUInt32) := by
  have hread := readField_push (show (Message.new MessageTypes.killPlayer).Consistent from rfl) id
  unfold decode Server.killPlayerMsg
  rw [Message.shiftLeft_eq_push, Message.push_header_id]
  simp only [Message.new_header_id, hread]
  rfl

theorem decode_newPowerupMsg (powerup : PowerupData) :
    decode platform (Server.newPowerupMsg powerup) = .ok (.newPowerup powerup) := by
  have hread := readField_push (show (Message.new MessageTypes.newPowerup).Consistent from rfl) powerup
  unfold decode Server.newPowerupMsg
  rw [Message.shiftLeft_eq_push, Message.push_header_id]
  simp only [Message.new_header_id, hread]
  rfl

theorem decode_powerupEatenMsg (powerup : PowerupData) :
    decode platform (Server.powerupEatenMsg powerup) = .ok (.powerupEaten powerup) := by
  have hread := readField_push (show (Message.new MessageTypes.powerupEaten).Consistent from rfl) powerup
  unfold decode Server.powerupEatenMsg
  rw [Message.shiftLeft_eq_push, Message.push_header_id]
  simp only [Message.new_header_id, hread]
  rfl

theorem decode_of_startGame {msg : Msg} (h : msg.header.id = .startGame) :
    decode platform msg = .ok .startGame := by
  unfold decode
  rw [h]
  rfl

end Packet

end SnekCpp
