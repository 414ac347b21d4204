import SnekCpp.Snek.SnakeClient

/-!
# The meaning of a message

The client pops the fields of a message one by one while it acts on them.  A
packet is what those pops yield, and handling a message is decoding it and then
handling the packet: a message that is too short changes nothing.
-/

namespace SnekCpp

open Lib Networking

/-- A player as the join snapshot lists it: id, color and tail. -/
abbrev RosterEntry := UInt32 × ImU32 × List Position

inductive Packet
  | serverValidation (clientID : UInt32) (powerups : List PowerupData) (roster : List RosterEntry)
  | newPlayer (id : UInt32) (color : ImU32) (tail : List Position)
  | removePlayer (id : UInt32)
  | startGame
  | updatePlayer (id : UInt32) (direction : Direction) (tail : List Position)
  | newPowerup (powerup : PowerupData)
  | powerupEaten (powerup : PowerupData)
  | killPlayer (id : UInt32)
  | unnamed
  deriving DecidableEq

namespace Packet

variable (platform : Platform)

def popPowerupData : ℕ → Msg → Except Fault (List PowerupData × Msg)
  | 0, msg => .ok ([], msg)
  | count + 1, msg => do
      let (powerup, msg) ← readField PowerupData msg
      let (powerups, msg) ← popPowerupData count msg
      return (powerup :: powerups, msg)

def popRoster : ℕ → Msg → Except Fault (List RosterEntry × Msg)
  | 0, msg => .ok ([], msg)
  | count + 1, msg => do
      let (playerID, msg) ← readField Int32 msg
      let (color, msg) ← readField ImU32 msg
      let (tail, msg) ← SnakeClient.popSizedTail platform msg
      let (roster, msg) ← popRoster count msg
      return ((playerID.toUInt32, color, tail) :: roster, msg)

def decode (msg : Msg) : Except Fault Packet :=
  match msg.header.id with
  | .serverValidation => do
      let (clientID, msg) ← readField Int32 msg
      let (powerupCount, msg) ← readField (SizeT platform) msg
      countInt powerupCount.toNat
      let (powerups, msg) ← popPowerupData powerupCount.toNat msg
      let (playerCount, msg) ← readField (SizeT platform) msg
      countInt playerCount.toNat
      let (roster, _) ← popRoster platform playerCount.toNat msg
      return .serverValidation clientID.toUInt32 powerups roster
  | .newPlayer => do
      let (newClientID, msg) ← readField UInt32 msg
      let (color, msg) ← readField ImU32 msg
      let (tail, _) ← SnakeClient.popSizedTail platform msg
      return .newPlayer newClientID color tail
  | .removePlayer => do
      let (id, _) ← readField Int32 msg
      return .removePlayer id.toUInt32
  | .startGame => return .startGame
  | .updatePlayer => do
      let (newClientID, msg) ← readField Int32 msg
      let (dir, msg) ← readField Direction msg
      let (tail, _) ← SnakeClient.popSizedTail platform msg
      return .updatePlayer newClientID.toUInt32 dir tail
  | .newPowerup => do
      let (powerup, _) ← readField PowerupData msg
      return .newPowerup powerup
  | .powerupEaten => do
      let (powerup, _) ← readField PowerupData msg
      return .powerupEaten powerup
  | .killPlayer => do
      let (playerKilledID, _) ← readField Int32 msg
      return .killPlayer playerKilledID.toUInt32
  | .unnamed _ _ => return .unnamed

end Packet

namespace SnakeClient

def insertEntry (grid : Grid) (players : AssocMap UInt32 Player) (entry : RosterEntry) :
    AssocMap UInt32 Player :=
  players.insert entry.1 { Player.create grid entry.2.1 with tail := entry.2.2 }

/-- What handling a packet does to the client. -/
def handlePacket (client : SnakeClient) : Packet → SnakeClient
  | .serverValidation clientID powerups roster =>
      { client with
        clientID := clientID.toInt32
        powerups := List.replicate powerups.length default ++ powerups.map .ofData
        players := roster.foldl (insertEntry client.gridPointer) client.players }
  | .newPlayer id color tail =>
      { client with players := insertEntry client.gridPointer client.players (id, color, tail) }
  | .removePlayer id => { client with players := client.players.erase id }
  | .startGame => { client with gameStarted := true }
  | .updatePlayer id direction tail =>
      let (player, players) := client.players.subscript id default
      { client with players := players.insert id { player.setDirection direction with tail } }
  | .newPowerup powerup => { client with powerups := client.powerups ++ [.ofData powerup] }
  | .powerupEaten powerup =>
      { client with
        powerups := client.powerups.eraseP fun p ↦ p.x == powerup.x && p.y == powerup.y }
  | .killPlayer id =>
      let (player, players) := client.players.subscript id default
      { client with players := players.insert id player.kill }
  | .unnamed => client

variable (platform : Platform)

theorem popPowerups_eq (count : ℕ) (powerups : List Powerup) (msg : Msg) :
    popPowerups count powerups msg =
      (fun r ↦ (powerups ++ r.1.map .ofData, r.2)) <$> Packet.popPowerupData count msg := by
  induction count generalizing powerups msg with
  | zero => simp [popPowerups, Packet.popPowerupData, Functor.map, Except.map]
  | succ count ih =>
      simp only [popPowerups, Packet.popPowerupData, map_bind, ih]
      apply bind_congr
      rintro ⟨powerup, rest⟩
      cases Packet.popPowerupData count rest with
      | error fault => rfl
      | ok r => simp [Functor.map, Except.map, bind, Except.bind, pure, Except.pure]

theorem popPlayers_eq (grid : Grid) (count : ℕ) (players : AssocMap UInt32 Player) (msg : Msg) :
    popPlayers platform grid count players msg =
      (fun r ↦ (r.1.foldl (insertEntry grid) players, r.2)) <$>
        Packet.popRoster platform count msg := by
  induction count generalizing players msg with
  | zero => simp [popPlayers, Packet.popRoster, Functor.map, Except.map]
  | succ count ih =>
      simp only [popPlayers, Packet.popRoster, map_bind, ih]
      apply bind_congr
      rintro ⟨playerID, rest⟩
      apply bind_congr
      rintro ⟨color, rest⟩
      apply bind_congr
      rintro ⟨tail, rest⟩
      cases Packet.popRoster platform count rest <;> rfl

theorem length_popPowerupData {count : ℕ} {msg : Msg} {r : List PowerupData × Msg}
    (h : Packet.popPowerupData count msg = .ok r) : r.1.length = count := by
  induction count generalizing msg r with
  | zero =>
      cases h
      rfl
  | succ count ih =>
      obtain ⟨first, -, h⟩ := bind_eq_ok.mp h
      obtain ⟨rest, hrest, h⟩ := bind_eq_ok.mp h
      cases h
      rw [List.length_cons, ih hrest]

/-- Handling a message is decoding it and handling what it says. -/
theorem handleMessage_eq (client : SnakeClient) (msg : Msg) :
    client.handleMessage platform msg = client.handlePacket <$> Packet.decode platform msg := by
  unfold handleMessage Packet.decode
  cases msg.header.id with
  | serverValidation =>
      simp only [handleServerValidation, popPowerups_eq, popPlayers_eq, map_bind]
      apply bind_congr
      rintro ⟨clientID, rest⟩
      apply bind_congr
      rintro ⟨powerupCount, rest⟩
      apply bind_congr
      intro _
      cases hpowerups : Packet.popPowerupData powerupCount.toNat rest with
      | error fault => rfl
      | ok r =>
          have hlen := length_popPowerupData hpowerups
          change (readField (SizeT platform) r.2 >>= _) = (readField (SizeT platform) r.2 >>= _)
          apply bind_congr
          rintro ⟨playerCount, rest⟩
          apply bind_congr
          intro _
          cases Packet.popRoster platform playerCount.toNat rest with
          | error fault => rfl
          | ok roster => simp [handlePacket, hlen, Functor.map, Except.map, bind, Except.bind,
              pure, Except.pure]
  | newPlayer => simp [handleNewPlayer, handlePacket, insertEntry]
  | removePlayer => simp [handleRemovePlayer, handlePacket]
  | startGame => rfl
  | updatePlayer => simp [handleUpdatePlayer, handlePacket]
  | newPowerup => simp [handleNewPowerup, handlePacket]
  | powerupEaten => simp [handlePowerupEaten, handlePacket]
  | killPlayer => simp [handleKillPlayer, handlePacket]
  | unnamed value h => rfl

variable {platform} in
theorem handleMessage_cases {client client' : SnakeClient} {msg : Msg}
    (h : client.handleMessage platform msg = .ok client') :
    ∃ packet, Packet.decode platform msg = .ok packet ∧ client' = client.handlePacket packet := by
  rw [handleMessage_eq] at h
  cases hdecode : Packet.decode platform msg with
  | error fault =>
      rw [hdecode] at h
      cases h
  | ok packet =>
      rw [hdecode] at h
      cases h
      exact ⟨packet, rfl, rfl⟩

end SnakeClient

end SnekCpp
