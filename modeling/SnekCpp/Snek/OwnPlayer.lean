import SnekCpp.Snek.FrameLoop

/-!
# What a client does on its own

Between two messages a client moves the snakes, eats, turns and reports.  None
of this empties a tail or gives cells to a player that has none, and no entry
other than its own appears or goes away.
-/

namespace SnekCpp

open Lib Networking

/-- The cells of a player, none if it is unknown. -/
def tailOf (players : AssocMap UInt32 Player) (id : UInt32) : List Position :=
  ((players.lookup id).map Player.tail).getD []

section TailOf

variable (players : AssocMap UInt32 Player)

theorem tailOf_insert (key id : UInt32) (player : Player) :
    tailOf (players.insert key player) id = if id = key then player.tail else tailOf players id := by
  unfold tailOf
  rw [AssocMap.lookup_insert_eq]
  split
  · rfl
  · rfl

theorem tailOf_erase (key id : UInt32) :
    tailOf (players.erase key) id = if id = key then [] else tailOf players id := by
  unfold tailOf
  rw [AssocMap.lookup_erase_eq]
  split
  · rfl
  · rfl

/-- The entry that `operator []` inserts has no cells. -/
theorem tailOf_subscript (key id : UInt32) :
    tailOf (players.subscript key default).2 id = tailOf players id := by
  unfold AssocMap.subscript
  split
  · rfl
  · next hnone =>
      rw [tailOf_insert]
      split
      · next heq =>
          subst heq
          simp [tailOf, hnone]
          rfl
      · rfl

theorem tail_fst_subscript (key : UInt32) :
    (players.subscript key default).1.tail = tailOf players key := by
  unfold AssocMap.subscript tailOf
  split
  · next player hsome => simp [hsome]
  · next hnone =>
      simp [hnone]
      rfl

end TailOf

namespace SnakeClient

structure Plays (client client' : SnakeClient) : Prop where
  clientID : client'.clientID = client.clientID
  gridPointer : client'.gridPointer = client.gridPointer
  others : ∀ id, id ≠ client.ownID → (id ∈ client'.players ↔ id ∈ client.players)
  own : client.ownID ∈ client.players → client.ownID ∈ client'.players
  tails : ∀ id, tailOf client'.players id = [] ↔ tailOf client.players id = []

namespace Plays

variable {client client' client'' : SnakeClient}

theorem refl (client : SnakeClient) : client.Plays client :=
  ⟨rfl, rfl, fun _ _ ↦ .rfl, id, fun _ ↦ .rfl⟩

theorem trans (h : client.Plays client') (h' : client'.Plays client'') : client.Plays client'' := by
  have hown : client'.ownID = client.ownID := by rw [ownID, ownID, h.clientID]
  refine ⟨h'.clientID.trans h.clientID, h'.gridPointer.trans h.gridPointer, fun id hid ↦ ?_,
    fun hmem ↦ ?_, fun id ↦ (h'.tails id).trans (h.tails id)⟩
  · exact (h'.others id (hown ▸ hid)).trans (h.others id hid)
  · have hmem' := h'.own (hown ▸ h.own hmem)
    exact hown ▸ hmem'

/-- The keys of a client that knows its own player stay the same. -/
theorem mem_players_iff (h : client.Plays client') (hown : client.ownID ∈ client.players)
    (id : UInt32) : id ∈ client'.players ↔ id ∈ client.players := by
  by_cases heq : id = client.ownID
  · subst heq
    exact ⟨fun _ ↦ hown, fun _ ↦ h.own hown⟩
  · exact h.others id heq

theorem ofSubscript {player : Player} {players : AssocMap UInt32 Player}
    (hown : client.players.subscript client.ownID default = (player, players)) :
    client.Plays { client with players } := by
  have hplayers : players = (client.players.subscript client.ownID default).2 := by rw [hown]
  subst hplayers
  refine ⟨rfl, rfl, fun id hid ↦ ?_, fun _ ↦ ?_, fun id ↦ by rw [tailOf_subscript]⟩
  · rw [AssocMap.mem_subscript]
    exact or_iff_right hid
  · exact (AssocMap.mem_subscript _ _).mpr (.inl rfl)

theorem ofInsert {player player' : Player} {players : AssocMap UInt32 Player}
    (hown : client.players.subscript client.ownID default = (player, players))
    (htail : player'.tail = player.tail) :
    client.Plays { client with players := players.insert client.ownID player' } := by
  have hlooked := ofSubscript hown
  have hsame : player.tail = tailOf players client.ownID := by
    have hplayer := tail_fst_subscript client.players client.ownID
    rw [hown] at hplayer
    have hplayers := tailOf_subscript client.players client.ownID client.ownID
    rw [hown] at hplayers
    rw [hplayers]
    exact hplayer
  refine ⟨rfl, rfl, fun id hid ↦ ?_, fun _ ↦ ?_, fun id ↦ ?_⟩
  · have hothers := hlooked.others id hid
    rw [AList.mem_insert, ← hothers]
    exact or_iff_right hid
  · exact (AList.mem_insert _).mpr (.inl rfl)
  · rw [tailOf_insert, ← hlooked.tails id]
    split
    · next heq => rw [heq, htail, hsame]
    · rfl

theorem update {players : AssocMap UInt32 Player}
    (hupdate : client.players.update Player.move = .ok players) :
    client.Plays { client with players } := by
  refine ⟨rfl, rfl, fun id _ ↦ AssocMap.mem_update hupdate id,
    fun hmem ↦ (AssocMap.mem_update hupdate _).mpr hmem, fun id ↦ ?_⟩
  unfold tailOf
  cases hlookup : client.players.lookup id with
  | none => simp [AssocMap.lookup_update_none hupdate hlookup]
  | some player =>
      obtain ⟨moved, hmove, hmoved⟩ := AssocMap.lookup_update hupdate hlookup
      simpa [hmoved] using Player.tail_eq_nil_of_move hmove

theorem powerupCheck {msg : Option Msg} (h : client.PowerupCheck client' msg) :
    client.Plays client' := by
  cases h with
  | noPowerups => exact .refl client
  | missed hown => exact .ofSubscript hown
  | @ate player _ _ _ _ _ _ hown =>
      have hinsert := @ofInsert client player (player.addLength 1) _ hown rfl
      exact ⟨rfl, rfl, hinsert.others, hinsert.own, hinsert.tails⟩

theorem frame {msg : Option Msg} (h : client.frame = .ok (client', msg)) :
    client.Plays client' := by
  obtain ⟨players, hupdate, hcheck⟩ := frame_cases h
  exact (update hupdate).trans (powerupCheck hcheck)

theorem updateServer {platform : Platform} {msg : Msg}
    (h : client.updateServer platform = (client', msg)) : client.Plays client' := by
  cases h
  exact ofSubscript rfl

theorem steer (client : SnakeClient) (pressed : Bool) (opposite direction : Direction) :
    client.Plays (client.steer pressed opposite direction) := by
  rcases steer_cases client pressed opposite direction with
    heq | ⟨player, players, hown, heq | heq⟩
  · rw [heq]
    exact .refl client
  · rw [heq]
    exact .ofSubscript hown
  · rw [heq]
    exact .ofInsert hown rfl

theorem keyCallback {key : Key} {press : Bool} {msg : Option Msg}
    (h : client.keyCallback key press = (client', msg)) : client.Plays client' := by
  unfold SnakeClient.keyCallback at h
  split at h
  · cases h
    exact .refl client
  · cases h
    exact (steer ..).trans ((steer ..).trans ((steer ..).trans (steer ..)))

end Plays

/-! ## The messages of a client -/

theorem powerups_steer (client : SnakeClient) (pressed : Bool) (opposite direction : Direction) :
    (client.steer pressed opposite direction).powerups = client.powerups := by
  rcases steer_cases client pressed opposite direction with
    heq | ⟨player, players, -, heq | heq⟩
  · rw [heq]
  · rw [heq]
  · rw [heq]

theorem keyCallback_cases {client client' : SnakeClient} {key : Key} {press : Bool}
    {msg : Option Msg} (h : client.keyCallback key press = (client', msg)) :
    client'.powerups = client.powerups ∧ (msg = none ∨ msg = some (.new .startGame)) := by
  unfold keyCallback at h
  split at h
  · cases h
    exact ⟨rfl, .inl rfl⟩
  · cases h
    refine ⟨by simp only [powerups_steer], ?_⟩
    split
    · unfold attemptGameStart
      split
      · exact .inr rfl
      · exact .inl rfl
    · exact .inl rfl

/-- The report of the own player. -/
theorem updateServer_cases {platform : Platform} {client client' : SnakeClient} {msg : Msg}
    (h : client.updateServer platform = (client', msg)) :
    client'.powerups = client.powerups ∧ ∃ direction,
      msg = updatePlayerMsg platform (tailOf client.players client.ownID) direction
        client.clientID := by
  have htail := tail_fst_subscript client.players client.ownID
  unfold ownID at htail ⊢
  simp only [updateServer, Prod.mk.injEq] at h
  obtain ⟨rfl, rfl⟩ := h
  exact ⟨rfl, _, by rw [← htail]⟩

/-- A frame changes no powerup, or it eats one and says so. -/
theorem frame_powerups {client client' : SnakeClient} {msg : Option Msg}
    (h : client.frame = .ok (client', msg)) :
    client'.powerups = client.powerups ∧ msg = none ∨
      ∃ before eaten after, client.powerups = before ++ eaten :: after ∧
        (∀ powerup ∈ before, powerup.position ≠ eaten.position) ∧
          client'.powerups = before ++ after ∧ msg = some (powerupEatenMsg eaten.data) := by
  obtain ⟨players, -, hcheck⟩ := frame_cases h
  cases hcheck with
  | noPowerups => exact .inl ⟨rfl, rfl⟩
  | missed => exact .inl ⟨rfl, rfl⟩
  | @ate _ _ head _ before after eaten _ _ hpowerups hbefore heaten =>
      refine .inr ⟨before, eaten, after, hpowerups, fun powerup hmem heq ↦ ?_, rfl, rfl⟩
      have hmiss := hbefore powerup hmem
      obtain ⟨hx, hy⟩ := Position.mk.inj heq
      unfold Powerup.checkCollision at hmiss heaten
      rw [hx, hy, heaten] at hmiss
      cases hmiss

end SnakeClient

end SnekCpp
