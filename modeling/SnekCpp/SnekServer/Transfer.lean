import SnekCpp.SnekServer.Snapshot

/-!
# Whole messages

A handler that has popped all the fields of a message may leave bytes below
them.  A message is transferred whole if none are left.
-/

namespace SnekCpp

open Lib Networking

/-- Handling the message takes the client to `client'`, every pop is of bytes
that are there, and no bytes are left. -/
structure SnakeClient.HandlesWhole (platform : Platform) (client : SnakeClient) (msg : Msg)
    (client' : SnakeClient) : Prop where
  handled : client.handleMessage platform msg = .ok client'
  whole : ∃ packet rest, Packet.popPacket platform msg = .ok (packet, rest) ∧ rest.body = []

theorem SnakeClient.handlesWhole_of_popPacket {platform : Platform} (client : SnakeClient)
    {msg rest : Msg} {packet : Packet} (hpop : Packet.popPacket platform msg = .ok (packet, rest))
    (hrest : rest.body = []) :
    client.HandlesWhole platform msg (client.handlePacket packet) where
  handled := by
    rw [handleMessage_eq, Packet.decode_eq_popPacket, hpop]
    rfl
  whole := ⟨packet, rest, hpop, hrest⟩

/-! ## The roster of the join snapshot -/

theorem lookup_insertEntries_of_notMem (grid : Grid) (players : AssocMap UInt32 Player)
    {roster : List RosterEntry} {id : UInt32} (h : id ∉ roster.map Prod.fst) :
    (roster.foldl (SnakeClient.insertEntry grid) players).lookup id = players.lookup id := by
  induction roster generalizing players with
  | nil => rfl
  | cons entry roster ih =>
      rw [List.map_cons, List.mem_cons, not_or] at h
      rw [List.foldl_cons, ih _ h.2, SnakeClient.insertEntry, AList.lookup_insert_ne h.1]

/-- Each id is inserted once, with the player that the entry describes. -/
theorem lookup_insertEntries (grid : Grid) (players : AssocMap UInt32 Player)
    {roster : List RosterEntry} (hnodup : (roster.map Prod.fst).Nodup) {entry : RosterEntry}
    (hentry : entry ∈ roster) :
    (roster.foldl (SnakeClient.insertEntry grid) players).lookup entry.1 =
      some { Player.create grid entry.2.1 with tail := entry.2.2 } := by
  induction roster generalizing players with
  | nil => cases hentry
  | cons first roster ih =>
      rw [List.map_cons, List.nodup_cons] at hnodup
      rw [List.foldl_cons]
      rcases List.mem_cons.mp hentry with rfl | hentry
      · rw [lookup_insertEntries_of_notMem _ _ hnodup.1, SnakeClient.insertEntry,
          AList.lookup_insert]
      · exact ih _ hnodup.2 hentry

theorem Env.nodup_iteration (env : Env) (players : AssocMap UInt32 PlayerData) :
    ((env.iteration players).map Prod.fst).Nodup := by
  have hperm := (env.iteration_perm players).map Prod.fst
  rw [List.map_map] at hperm
  exact hperm.nodup_iff.mpr players.nodupKeys

/-- The client holds the server's players, each with its color and its tail. -/
def SameRoster (players : AssocMap UInt32 PlayerData) (client : SnakeClient) : Prop :=
  ∀ id, (client.players.lookup id).map (fun player ↦ (player.color, player.tail)) =
    (players.lookup id).map fun player ↦ (player.color, player.tail)

theorem sameRoster_handlePacket {client : SnakeClient} (hempty : client.players = ∅) (env : Env)
    (players : AssocMap UInt32 PlayerData) (id : UInt32) (powerups : List PowerupData) :
    SameRoster players (client.handlePacket (.serverValidation id powerups
      ((env.iteration players).map Packet.rosterEntry).reverse)) := by
  intro key
  have hkeys : (((env.iteration players).map Packet.rosterEntry).reverse.map Prod.fst) =
      ((env.iteration players).map Prod.fst).reverse := by
    rw [List.map_reverse, List.map_map]
    rfl
  have hnodup : (((env.iteration players).map Packet.rosterEntry).reverse.map Prod.fst).Nodup := by
    rw [hkeys]
    exact List.nodup_reverse.mpr (env.nodup_iteration players)
  cases hlookup : players.lookup key with
  | none =>
      have hnot : key ∉ ((env.iteration players).map Packet.rosterEntry).reverse.map Prod.fst := by
        rw [hkeys, List.mem_reverse]
        intro hmem
        obtain ⟨entry, hentry, rfl⟩ := List.mem_map.mp hmem
        rw [env.mem_iteration.mp hentry] at hlookup
        cases hlookup
      simp only [SnakeClient.handlePacket, lookup_insertEntries_of_notMem _ _ hnot, hempty]
      rfl
  | some player =>
      have hmem : (key, player.color, player.tail) ∈
          ((env.iteration players).map Packet.rosterEntry).reverse := by
        rw [List.mem_reverse]
        exact List.mem_map.mpr ⟨(key, player), env.mem_iteration.mpr hlookup, rfl⟩
      have hentry := lookup_insertEntries client.gridPointer client.players hnodup hmem
      simp only [SnakeClient.handlePacket, hentry]
      rfl

/-- The join snapshot transfers the roster exactly. -/
theorem stateMsg_transfers (platform : Platform) (players : AssocMap UInt32 PlayerData) (env : Env)
    (powerups : List PowerupData) (id : UInt32) (hplayers : players.entries.length < 2 ^ 31)
    (htails : ∀ entry ∈ players.entries, entry.2.tail.length < 2 ^ 31)
    (hpowerups : powerups.length < 2 ^ 31) (client : SnakeClient) (hempty : client.players = ∅) :
    ∃ client', client.HandlesWhole platform
        (Server.stateMsg platform (env.iteration players) powerups id) client' ∧
      client'.clientID.toUInt32 = id ∧ SameRoster players client' := by
  have hlength : (env.iteration players).length < 2 ^ 31 := by
    rw [(env.iteration_perm players).length_eq, List.length_map]
    exact hplayers
  have hlengths : ∀ entry ∈ env.iteration players, entry.2.tail.length < 2 ^ 31 := by
    intro entry hentry
    exact htails ⟨entry.1, entry.2⟩
      ((AssocMap.mem_entries_iff _ _ _).mpr (env.mem_iteration.mp hentry))
  have hpop := @Packet.popPacket_stateMsg platform _ _ (.of_lt hlength)
    (fun entry hentry ↦ .of_lt (hlengths entry hentry)) hpowerups id
  rw [if_pos ⟨hlength, hlengths⟩] at hpop
  refine ⟨_, client.handlesWhole_of_popPacket hpop rfl, ?_, ?_⟩
  · exact UInt32.toUInt32_toInt32 id
  · exact sameRoster_handlePacket hempty env players id powerups.reverse

theorem stateMsg_transfers_two :
    ∃ client', SnakeClient.HandlesWhole .x64 {}
        (Server.stateMsg .x64 (Env.plain.iteration
          ((∅ : AssocMap UInt32 PlayerData).insert 10000 ⟨.up, [⟨1, 2⟩, ⟨1, 3⟩], 7⟩)) [⟨3, 4⟩] 10001)
            client' ∧
      client'.clientID.toUInt32 = 10001 ∧
        SameRoster ((∅ : AssocMap UInt32 PlayerData).insert 10000 ⟨.up, [⟨1, 2⟩, ⟨1, 3⟩], 7⟩)
          client' :=
  stateMsg_transfers .x64 _ Env.plain _ 10001 (by decide) (by decide) (by decide) {} rfl

end SnekCpp
