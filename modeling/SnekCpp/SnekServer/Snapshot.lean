import SnekCpp.SnekServer.Broadcast
import SnekCpp.SnekServer.Codec

/-!
# The join snapshot

`OnClientValidated` sends the whole game state to the new client in one message.
-/

namespace SnekCpp.Server

open Lib Networking

variable (platform : Platform)

/-- `players` with the new client in it. -/
def joined (s : Server) (env : Env) (client : ConnRef) (spawnpoint : Position) :
    AssocMap UInt32 PlayerData :=
  s.players.insert (s.getID client) { direction := .up, tail := [spawnpoint], color := env.color }

/-- The message that the new client gets. -/
def snapshotMsg (s : Server) (env : Env) (client : ConnRef) (spawnpoint : Position) : Msg :=
  stateMsg platform (env.iteration (s.joined env client spawnpoint)) s.powerups (s.getID client)

/-- The state in which the snapshot has been sent and nothing else. -/
def welcomed (s : Server) (env : Env) (client : ConnRef) (spawnpoint : Position) : Server :=
  { s with
    spawnpoints := s.spawnpoints.dropLast
    players := s.joined env client spawnpoint
    log := s.log ++ [.validated client,
      .sent client (s.snapshotMsg platform env client spawnpoint)] }

/-- What `OnClientValidated` does after it has sent the snapshot. -/
def announce (env : Env) (depth : ℕ) (client : ConnRef) (id : UInt32) (player : PlayerData) :
    ServerM Unit := do
  messageAllClients depth (newPlayerMsg platform player id) (some client)
  let s ← get
  let size := s.players.entries.length
  let powerupCount := size % 2 * size / 2 + 1
  generatePowerups env depth powerupCount powerupCount

theorem run_onClientValidated {s : Server} {spawnpoint : Position}
    (hspawn : s.spawnpoints.getLast? = some spawnpoint) (env : Env) (depth : ℕ)
    (client : ConnRef) :
    (onClientValidated platform env depth client).run s =
      (announce platform env depth client (s.getID client)
        { direction := .up, tail := [spawnpoint], color := env.color }).run
          (s.welcomed platform env client spawnpoint) := by
  have hlogged : (s.logged [.validated client]).spawnpoints.getLast? = some spawnpoint := hspawn
  simp only [onClientValidated, EStateM.run_bind, run_record, EStateM.run_get, hlogged,
    EStateM.run_set, run_send, announce]
  have hstate : logged { s.logged [.validated client] with
        spawnpoints := (s.logged [.validated client]).spawnpoints.dropLast
        players := (s.logged [.validated client]).players.insert
          ((s.logged [.validated client]).getID client)
            { direction := .up, tail := [spawnpoint], color := env.color } }
      [.sent client (s.snapshotMsg platform env client spawnpoint)] =
        s.welcomed platform env client spawnpoint := by
    simp [welcomed, logged, joined]
  exact congrArg (fun t ↦ (announce platform env depth client (s.getID client)
    { direction := .up, tail := [spawnpoint], color := env.color }).run t) hstate

theorem run_onClientValidated_none {s : Server} (hspawn : s.spawnpoints.getLast? = none)
    (env : Env) (depth : ℕ) (client : ConnRef) :
    (onClientValidated platform env depth client).run s =
      .error .emptySpawnpoints (s.logged [.validated client]) := by
  have hlogged : (s.logged [.validated client]).spawnpoints.getLast? = none := hspawn
  simp only [onClientValidated, EStateM.run_bind, run_record, EStateM.run_get, hlogged]
  rfl

/-- The numbers of players and of tail cells are sizes of containers. -/
structure Representable (roster : List (UInt32 × PlayerData)) : Prop where
  length : Packet.FitsSizeT platform roster.length
  tails : ∀ entry ∈ roster, Packet.FitsSizeT platform entry.2.tail.length

/-- The client can handle the snapshot, and the positions of its powerups are
then those of the server. -/
def SnapshotAgrees (s : Server) (env : Env) (ref : ConnRef) (spawnpoint : Position)
    (client : SnakeClient) : Prop :=
  ∃ client', client.handleMessage platform (s.snapshotMsg platform env ref spawnpoint) =
      .ok client' ∧
    (client'.powerups.map Powerup.position).Perm (s.powerups.map PowerupData.position)

/-- The client's vector starts with as many default powerups as the snapshot lists. -/
theorem handleMessage_snapshotMsg {s : Server} {env : Env} {ref : ConnRef} {spawnpoint : Position}
    (hroster : Representable platform (env.iteration (s.joined env ref spawnpoint)))
    (hpowerups : s.powerups.length < 2 ^ 31) (client : SnakeClient) :
    client.handleMessage platform (s.snapshotMsg platform env ref spawnpoint) =
      if Packet.CountsFitInt (env.iteration (s.joined env ref spawnpoint)) then
        .ok (client.handlePacket (.serverValidation (s.getID ref) s.powerups.reverse
          ((env.iteration (s.joined env ref spawnpoint)).map Packet.rosterEntry).reverse))
      else .error .intOverflow := by
  rw [SnakeClient.handleMessage_eq, snapshotMsg,
    Packet.decode_stateMsg hroster.length hroster.tails hpowerups]
  split
  · rfl
  · rfl

/-- The snapshot transfers the powerups exactly when there are none (and its
other counts can be reached by the decoder's counters). -/
theorem snapshotAgrees_iff (s : Server) (env : Env) (ref : ConnRef) (spawnpoint : Position)
    (hroster : Representable platform (env.iteration (s.joined env ref spawnpoint)))
    (hpowerups : s.powerups.length < 2 ^ 31) (client : SnakeClient) :
    s.SnapshotAgrees platform env ref spawnpoint client ↔
      s.powerups = [] ∧ Packet.CountsFitInt (env.iteration (s.joined env ref spawnpoint)) := by
  unfold SnapshotAgrees
  rw [handleMessage_snapshotMsg platform hroster hpowerups]
  by_cases hcounts : Packet.CountsFitInt (env.iteration (s.joined env ref spawnpoint))
  · rw [if_pos hcounts]
    constructor
    · rintro ⟨client', hclient', hperm⟩
      cases hclient'
      have hlen := hperm.length_eq
      simp only [SnakeClient.handlePacket, List.length_map, List.length_append,
        List.length_replicate, List.length_reverse] at hlen
      refine ⟨List.length_eq_zero_iff.mp ?_, hcounts⟩
      omega
    · rintro ⟨hempty, -⟩
      refine ⟨_, rfl, ?_⟩
      simp [SnakeClient.handlePacket, hempty]
  · rw [if_neg hcounts]
    constructor
    · rintro ⟨client', hclient', -⟩
      cases hclient'
    · rintro ⟨-, hfit⟩
      exact absurd hfit hcounts

/-- A server with one player, whose snake has two cells. -/
def onePlayer (powerups : List PowerupData) : Server where
  players := (∅ : AssocMap UInt32 PlayerData).insert 10000
    { direction := .left, tail := [⟨4, 6⟩, ⟨5, 6⟩], color := 7 }
  powerups := powerups
  getID := fun ref ↦ UInt32.ofNat (10000 + ref)

theorem representable_onePlayer (powerups : List PowerupData) :
    Representable .x64 (Env.plain.iteration ((onePlayer powerups).joined Env.plain 1 ⟨10, 10⟩)) := by
  have hroster : Env.plain.iteration ((onePlayer powerups).joined Env.plain 1 ⟨10, 10⟩) =
      [(10001, { direction := .up, tail := [⟨10, 10⟩], color := 0 }),
        (10000, { direction := .left, tail := [⟨4, 6⟩, ⟨5, 6⟩], color := 7 })] := rfl
  rw [hroster]
  exact ⟨by decide, by decide⟩

/-- The second client gets the snapshot right while there is no powerup, and wrong with one. -/
theorem snapshotAgrees_iff_onePlayer :
    (onePlayer []).SnapshotAgrees .x64 Env.plain 1 ⟨10, 10⟩ {} ∧
      ¬ (onePlayer [⟨3, 4⟩]).SnapshotAgrees .x64 Env.plain 1 ⟨10, 10⟩ {} := by
  constructor
  · apply (snapshotAgrees_iff .x64 (onePlayer []) Env.plain 1 ⟨10, 10⟩
      (representable_onePlayer []) (by decide) {}).mpr
    exact ⟨rfl, by decide +kernel⟩
  · intro hagrees
    have hnone := ((snapshotAgrees_iff .x64 (onePlayer [⟨3, 4⟩]) Env.plain 1 ⟨10, 10⟩
      (representable_onePlayer _) (by decide) {}).mp hagrees).1
    cases hnone

theorem representable_plain (powerups : List PowerupData) :
    Representable .x64
      (Env.plain.iteration (joined { powerups } Env.plain 0 ⟨10, 10⟩)) := by
  have hroster : Env.plain.iteration (joined { powerups } Env.plain 0 ⟨10, 10⟩) =
      [(0, { direction := .up, tail := [⟨10, 10⟩], color := 0 })] := rfl
  rw [hroster]
  exact ⟨by decide, by decide⟩

/-- With one powerup on the server, the new client holds a second one in the corner. -/
theorem not_snapshotAgrees_one_powerup :
    Representable .x64 (Env.plain.iteration (joined { powerups := [⟨3, 4⟩] } Env.plain 0 ⟨10, 10⟩)) ∧
      ¬ SnapshotAgrees .x64 { powerups := [⟨3, 4⟩] } Env.plain 0 ⟨10, 10⟩ {} := by
  refine ⟨representable_plain _, ?_⟩
  rintro ⟨client', hclient', hperm⟩
  rw [handleMessage_snapshotMsg .x64 (representable_plain _) (by decide)] at hclient'
  split at hclient'
  · cases hclient'
    exact absurd hperm.length_eq (by decide)
  · cases hclient'

end SnekCpp.Server
