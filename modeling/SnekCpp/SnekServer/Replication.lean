import SnekCpp.SnekServer.Outcomes
import SnekCpp.SnekServer.Transfer

/-!
# A move on every replica

A client encodes its own player, the server relays the message before it pops
the fields off it, and the other clients pop them off their copies.
-/

namespace SnekCpp

open Lib Networking

/-- The player `id` has the tail and the direction, and every other entry is
the one of before. -/
def MovesOnly {α : Type} (view : α → List Position × Direction) (players players' : AssocMap UInt32 α)
    (id : UInt32) (tail : List Position) (direction : Direction) : Prop :=
  (players'.lookup id).map view = some (tail, direction) ∧
    ∀ other, other ≠ id → players'.lookup other = players.lookup other

theorem movesOnly_insert {α : Type} {view : α → List Position × Direction}
    (players : AssocMap UInt32 α) (id : UInt32) {moved : α} {tail : List Position}
    {direction : Direction} (h : view moved = (tail, direction)) :
    MovesOnly view players (players.insert id moved) id tail direction := by
  constructor
  · rw [AList.lookup_insert, Option.map_some, h]
  · exact fun other hne ↦ AList.lookup_insert_ne hne

def PlayerData.view (player : PlayerData) : List Position × Direction :=
  (player.tail, player.direction)

def Player.view (player : Player) : List Position × Direction := (player.tail, player.direction)

theorem SnakeClient.updateServer_eq (platform : Platform) {client : SnakeClient} {player : Player}
    (h : client.players.lookup client.clientID.toUInt32 = some player) :
    client.updateServer platform =
      (client, updatePlayerMsg platform player.tail player.direction client.clientID) := by
  simp only [updateServer, AssocMap.subscript_of_lookup h]

namespace SnakeClient

/-- The peer's copy of the player moves, and nothing else of the peer. -/
theorem handlePacket_updatePlayer (peer : SnakeClient) (id : UInt32) (direction : Direction)
    (tail : List Position) (hknown : id ∈ peer.players) :
    MovesOnly Player.view peer.players
        (peer.handlePacket (.updatePlayer id direction tail)).players id tail direction ∧
      (peer.handlePacket (.updatePlayer id direction tail)).powerups = peer.powerups := by
  obtain ⟨player, hplayer⟩ := AssocMap.lookup_eq_some_of_mem hknown
  simp only [handlePacket, AssocMap.subscript_of_lookup hplayer]
  exact ⟨movesOnly_insert _ _ rfl, trivial⟩

end SnakeClient

namespace Server

variable {platform : Platform} {s : Server} {refs : List ConnRef} {r : ConnRef} {env : Env}

/-- A broadcast of `KillPlayer(clientID)`, with the record of the collision before it. -/
def Kill (clientID : Int32) : Effect → Prop
  | .collided id _ => id = clientID.toUInt32
  | .sent _ msg => msg = killPlayerMsg clientID
  | _ => False

/-- With all connections open a collision check of a player with a head returns,
and at most tells everyone that the player has been killed. -/
theorem run_playerCollision_open (hdeque : s.m_deqConnections = refs.map some)
    (hopen : ∀ ref ∈ refs, s.IsOpen ref) {clientID : Int32} {head : Position}
    {tail : List Position} (hown : s.cells clientID.toUInt32 = head :: tail) (depth : ℕ) :
    ∃ kills, (playerCollision env (depth + 1) clientID).run s = .ok () (s.logged kills) ∧
      ∀ e ∈ kills, Kill clientID e := by
  have houtcome := collision_outcome s env (depth + 1) clientID
  generalize (playerCollision env (depth + 1) clientID).run s = result at houtcome
  cases houtcome with
  | missed => exact ⟨[], by simp, by simp⟩
  | emptyTail hempty =>
      rw [hempty] at hown
      cases hown
  | @killed owner player head tail _ howner hcell =>
      have htold := @run_messageAllClients_of_open (s.logged [.collided clientID.toUInt32 owner])
        refs hdeque none (fun ref href ↦ hopen ref (mem_addressed.mp href).1) depth
        (killPlayerMsg clientID)
        
      refine ⟨_, htold.trans (by rw [logged_logged]), ?_⟩
      intro e he
      rcases List.mem_append.mp he with he | he
      · rw [List.mem_singleton] at he
        subst he
        rfl
      · obtain ⟨ref, -, rfl⟩ := List.mem_map.mp he
        rfl

/-- With all other connections open a decodable `UpdatePlayer` is relayed to them. -/
theorem run_onMessage_of_popUpdate_open (hdeque : s.m_deqConnections = refs.map some)
    (hopen : ∀ ref ∈ addressed (some r) refs, s.IsOpen ref) {msg rest : Msg} {clientID : Int32}
    {direction : Direction} {tail : List Position} (hid : msg.header.id = .updatePlayer)
    (hpop : popUpdate platform msg = .ok ((clientID, direction, tail), rest)) {player : PlayerData}
    (hplayer : s.players.lookup (s.getID r) = some player) (env : Env) (depth : ℕ) :
    (onMessage platform env (depth + 1) r msg).run s =
      (playerCollision env (depth + 1) clientID).run
        ((s.logged (sends msg (addressed (some r) refs))).moved (s.getID r) player tail
          direction) := by
  rw [run_onMessage_of_popUpdate s hid hpop, EStateM.run_bind,
    run_messageAllClients_of_open hdeque hopen]
  have hlookup : (s.logged (sends msg (addressed (some r) refs))).players.lookup
      ((s.logged (sends msg (addressed (some r) refs))).getID r) = some player := hplayer
  simp only [EStateM.run_bind, EStateM.run_get, hlookup, EStateM.run_modify]
  rfl

/-- Handling `msg` of `r` moves the player `id` on the server, leaves nothing of
the message, and sends whole copies of it to the other clients, on which it does
the same. -/
structure Replicates (platform : Platform) (env : Env) (depth : ℕ) (s : Server)
    (refs : List ConnRef) (r : ConnRef) (msg : Msg) (tail : List Position)
    (direction : Direction) : Prop where
  handled : ∃ s' kills, (onMessage platform env depth r msg).run s = .ok () s' ∧
    MovesOnly PlayerData.view s.players s'.players (s.getID r) tail direction ∧
      s'.powerups = s.powerups ∧
        s'.log = s.log ++ sends msg (addressed (some r) refs) ++ kills ∧
          ∀ e ∈ kills, Kill (s.getID r).toInt32 e
  popped : ∃ fields rest, popUpdate platform msg = .ok (fields, rest) ∧ rest.body = []
  relayed : ∀ peer : SnakeClient, s.getID r ∈ peer.players →
    ∃ peer', peer.HandlesWhole platform msg peer' ∧
      MovesOnly Player.view peer.players peer'.players (s.getID r) tail direction ∧
        peer'.powerups = peer.powerups

/-- `UpdateServer` replicates the sender exactly. -/
theorem updateServer_replicates (platform : Platform) {client : SnakeClient} {player : Player}
    (hplayer : client.players.lookup client.clientID.toUInt32 = some player)
    (htail : player.tail ≠ [])
    (hsize : (client.updateServer platform).2.body.length < 2 ^ 32)
    (hid : s.getID r = client.clientID.toUInt32) (hknown : s.getID r ∈ s.players)
    (hdeque : s.m_deqConnections = refs.map some) (hopen : ∀ ref ∈ refs, s.IsOpen ref) (env : Env)
    (depth : ℕ) :
    s.Replicates platform env (depth + 1) refs r (client.updateServer platform).2 player.tail
      player.direction := by
  rw [SnakeClient.updateServer_eq platform hplayer] at hsize ⊢
  have hlength : player.tail.length < 2 ^ 31 := by
    rw [Packet.length_body_updatePlayerMsg] at hsize
    omega
  have hpop := @popUpdate_updatePlayerMsg platform player.tail (by omega) player.direction
    client.clientID
  have hclientID : (s.getID r).toInt32 = client.clientID := by
    rw [hid]
    exact Int32.toInt32_toUInt32 _
  refine ⟨?_, ⟨_, _, hpop, rfl⟩, ?_⟩
  · obtain ⟨data, hdata⟩ := AssocMap.lookup_eq_some_of_mem hknown
    obtain ⟨head, tail, hcons⟩ := List.exists_cons_of_ne_nil htail
    let t := (s.logged (sends (SnakeClient.updatePlayerMsg platform player.tail player.direction
      client.clientID) (addressed (some r) refs))).moved (s.getID r) data player.tail
        player.direction
    have hrun : _ = (playerCollision env (depth + 1) client.clientID).run t :=
      run_onMessage_of_popUpdate_open hdeque (fun ref href ↦ hopen ref (mem_addressed.mp href).1)
        (Packet.header_id_updatePlayerMsg _ _ _) hpop hdata env depth
    have hdequeT : t.m_deqConnections = refs.map some := hdeque
    have hopenT : ∀ ref ∈ refs, t.IsOpen ref := hopen
    have hown : t.cells client.clientID.toUInt32 = head :: tail := by
      rw [← hid, cells_moved, hcons]
    obtain ⟨kills, hcollision, hkills⟩ := @run_playerCollision_open t refs env hdequeT hopenT
      client.clientID head tail hown depth
    refine ⟨_, kills, hrun.trans hcollision, ?_, rfl, rfl, ?_⟩
    · exact movesOnly_insert s.players (s.getID r) rfl
    · rw [hclientID]
      exact hkills
  · intro peer hpeer
    have hpop := @Packet.popPacket_updatePlayerMsg platform _ (.of_lt hlength) player.direction
      client.clientID
    rw [if_pos hlength] at hpop
    have hwhole := peer.handlesWhole_of_popPacket hpop rfl
    rw [hid] at hpeer ⊢
    exact ⟨_, hwhole, peer.handlePacket_updatePlayer _ _ _ hpeer⟩

/-- The sender of two cells, and the server that knows it as its first connection. -/
def twoCells : SnakeClient where
  clientID := 10000
  players := (∅ : AssocMap UInt32 Player).insert 10000
    { direction := .left, tail := [⟨1, 2⟩, ⟨2, 2⟩], grid := some mainGrid, color := 7 }

def knowsTwoCells : Server :=
  { twoConnections fun _ ↦ true with
    players := (∅ : AssocMap UInt32 PlayerData).insert 10000 ⟨.up, [⟨2, 2⟩], 7⟩
    getID := fun r ↦ if r = 0 then 10000 else 10001 }

theorem updateServer_replicates_twoCells :
    knowsTwoCells.Replicates .x64 Env.plain 1 [0, 1] 0 (twoCells.updateServer .x64).2
      [⟨1, 2⟩, ⟨2, 2⟩] .left :=
  @updateServer_replicates knowsTwoCells [0, 1] 0 .x64 twoCells
    { direction := .left, tail := [⟨1, 2⟩, ⟨2, 2⟩], grid := some mainGrid, color := 7 } rfl
    (by decide) (by decide) rfl (by decide) rfl (fun _ _ ↦ rfl) Env.plain 0

end Server

end SnekCpp
