import SnekCpp.Game.Roster
import SnekCpp.Lib.Replica

/-!
# The powerups as a replicated multiset

The server owns the positions of the powerups and every client has a replica of
them: a client that eats a powerup removes it before the server knows.
-/

namespace SnekCpp

open Lib Networking

/-! ## The client's side -/

/-- What a packet tells about the powerups. -/
def Packet.changes : Packet → List (Change Position)
  | .serverValidation _ powerups _ =>
      [.reset ↑((List.replicate powerups.length default).map Powerup.position ++
        powerups.map PowerupData.position)]
  | .newPowerup powerup => [.add powerup.position]
  | .powerupEaten powerup => [.remove powerup.position]
  | _ => []

/-- The powerup that a packet says is eaten. -/
def Packet.eaten? : Packet → Option PowerupData
  | .powerupEaten powerup => some powerup
  | _ => none

namespace SnakeClient

/-- The positions of the client's powerups. -/
def powerupCells (client : SnakeClient) : Multiset Position :=
  ↑(client.powerups.map Powerup.position)

/-- Where the own head is after the moves of a frame. -/
def nextHead (client : SnakeClient) : Option Position :=
  match client.players.update Player.move with
  | .error _ => none
  | .ok players => (tailOf players client.ownID).head?

theorem map_eraseP_position {α : Type} {position : α → Position} (powerups : List α)
    {hits : α → Bool} {pos : Position} (hhits : ∀ p, hits p = true ↔ position p = pos) :
    (powerups.eraseP hits).map position = (powerups.map position).erase pos := by
  induction powerups with
  | nil => rfl
  | cons p powerups ih =>
      by_cases hit : hits p = true
      · have heq := (hhits p).mp hit
        rw [List.eraseP_cons_of_pos hit, List.map_cons, heq, List.erase_cons_head]
      · have hne : position p ≠ pos := fun heq ↦ hit ((hhits p).mpr heq)
        rw [List.eraseP_cons_of_neg (by simpa using hit), List.map_cons, List.map_cons, ih,
          List.erase_cons_tail (by simpa using hne)]

theorem powerupCells_handlePacket (client : SnakeClient) (packet : Packet) :
    (client.handlePacket packet).powerupCells =
      Change.applyAll client.powerupCells packet.changes := by
  cases packet with
  | serverValidation id powerups roster =>
      simp only [powerupCells, handlePacket, Packet.changes, List.map_append, List.map_map]
      rfl
  | newPowerup powerup =>
      simp only [powerupCells, handlePacket, Packet.changes, List.map_append, List.map_cons,
        List.map_nil]
      exact Multiset.coe_eq_coe.mpr (List.perm_append_singleton _ _)
  | powerupEaten powerup =>
      have hhits : ∀ p : Powerup, (p.x == powerup.x && p.y == powerup.y) = true ↔
          p.position = powerup.position := by
        intro p
        simp [Powerup.position, PowerupData.position]
      simp only [powerupCells, handlePacket, Packet.changes, map_eraseP_position _ hhits]
      exact (Multiset.coe_erase _ _).symm
  | _ => rfl

/-- A frame leaves the powerups, or it eats one at the new head. -/
theorem powerupCells_frame {client client' : SnakeClient} {msg : Option Msg}
    (h : client.frame = .ok (client', msg)) :
    client'.powerupCells = client.powerupCells ∧ msg = none ∨
      ∃ powerup : PowerupData, client.nextHead = some powerup.position ∧
        powerup.position ∈ client.powerupCells ∧
          client'.powerupCells = client.powerupCells.erase powerup.position ∧
            msg = some (powerupEatenMsg powerup) := by
  obtain ⟨players, hmoved, hcheck⟩ := frame_cases h
  cases hcheck with
  | noPowerups => exact .inl ⟨rfl, rfl⟩
  | missed => exact .inl ⟨rfl, rfl⟩
  | @ate player looked head tail before after eaten hown htail hpowerups hbefore heaten =>
      have hpos : eaten.position = head := by
        obtain ⟨hx, hy⟩ : eaten.x = head.x ∧ eaten.y = head.y := by
          simpa [Powerup.checkCollision] using heaten
        rw [Powerup.position, hx, hy]
      have hcells : client.powerupCells =
          eaten.position ::ₘ ↑((before ++ after).map Powerup.position) := by
        have hsplit : client.powerups = before ++ eaten :: after := hpowerups
        rw [powerupCells, hsplit, List.map_append, List.map_cons, List.map_append]
        exact Multiset.coe_eq_coe.mpr List.perm_middle
      refine .inr ⟨eaten.data, ?_, ?_, ?_, rfl⟩
      · have hlooked := tail_fst_subscript players client.ownID
        rw [show players.subscript client.ownID default = (player, looked) from hown, htail]
          at hlooked
        simp only [nextHead, hmoved, ← hlooked, List.head?_cons]
        rw [← hpos]
        rfl
      · rw [hcells]
        exact Multiset.mem_cons_self _ _
      · rw [hcells]
        exact (Multiset.erase_cons_head _ _).symm

end SnakeClient

/-! ## The server's side -/

namespace Server

/-- The positions of the server's powerups. -/
def powerupCells (s : Server) : Multiset Position := ↑(s.powerups.map PowerupData.position)

/-- The cell that `GeneratePowerup` draws. -/
def drawn (env : Env) (s : Server) : Option Position :=
  match getFreeGrid.run s with
  | .error _ _ => none
  | .ok freeGrid _ => freeGrid[env.draw freeGrid]?

theorem drawn_congr {env : Env} {s t : Server} (hplayers : t.players = s.players)
    (hpowerups : t.powerups = s.powerups) : t.drawn env = s.drawn env := by
  simp only [drawn, getFreeGrid, EStateM.run_bind, EStateM.run_get, hplayers, hpowerups]
  split_ifs
  · rfl
  · rfl

theorem powerupCells_spawned (s : Server) (powerup : PowerupData) :
    (s.spawned powerup).powerupCells = powerup.position ::ₘ s.powerupCells := by
  rw [powerupCells, spawned, List.map_append]
  exact Multiset.coe_eq_coe.mpr (List.perm_append_singleton _ _)

theorem powerupCells_eaten (s : Server) (powerup : PowerupData) :
    (s.eaten powerup).powerupCells = s.powerupCells.erase powerup.position := by
  have hhits : ∀ p : PowerupData, (p.x == powerup.x && p.y == powerup.y) = true ↔
      p.position = powerup.position := by
    intro p
    simp [PowerupData.position]
  rw [powerupCells, eaten, SnakeClient.map_eraseP_position _ hhits]
  exact (Multiset.coe_erase _ _).symm

theorem run_generatePowerup_of_drawn (s : Server) (env : Env) (depth : ℕ) :
    (∃ fault, (generatePowerup env depth).run s = .error fault s) ∨
      ∃ powerup : PowerupData, s.drawn env = some powerup.position ∧
        (generatePowerup env depth).run s =
          (messageAllClients depth (newPowerupMsg powerup) none).run (s.spawned powerup) := by
  rcases run_generatePowerup s env depth with
    ⟨-, hrun⟩ | ⟨hcovered, ⟨-, hrun⟩ | ⟨powerup, hdraw, hrun⟩⟩
  · exact .inl ⟨_, hrun⟩
  · exact .inl ⟨_, hrun⟩
  · refine .inr ⟨powerup, ?_, hrun⟩
    rw [drawn, run_getFreeGrid_eq, if_pos hcovered]
    exact hdraw

/-- All connections are open, and each one's replica lags behind the server:
`past` is what its client has handled, `view` is its replica, and `removed` what
the server has yet to hear of. -/
structure Leads (platform : Platform) (past : ConnRef → List Packet)
    (view removed : ConnRef → Multiset Position) (s : Server) (refs : List ConnRef) : Prop
    extends s.Listed refs where
  opens : ∀ r ∈ refs, s.IsOpen r
  lags : ∀ r ∈ refs, ∃ pending, s.news platform r = past r ++ pending ∧
    Lags s.powerupCells (removed r) (view r) (pending.flatMap Packet.changes)

namespace Leads

variable {platform : Platform} {past : ConnRef → List Packet}
  {view removed removed' : ConnRef → Multiset Position} {s s' : Server} {refs refs' : List ConnRef}
  {msg : Msg} {ignoreClient : Option ConnRef} {r : ConnRef} {env : Env} {depth : ℕ}

theorem congr (h : s.Leads platform past view removed refs)
    (hdeque : s'.m_deqConnections = s.m_deqConnections) (hisConnected : s'.isConnected = s.isConnected)
    (hnews : ∀ r, s'.news platform r = s.news platform r) (hpowerups : s'.powerups = s.powerups) :
    s'.Leads platform past view removed refs where
  deque := hdeque.trans h.deque
  nodup := h.nodup
  opens r hr := by
    rw [IsOpen, hisConnected]
    exact h.opens r hr
  lags r hr := by
    obtain ⟨pending, hpending, hlags⟩ := h.lags r hr
    refine ⟨pending, (hnews r).trans hpending, ?_⟩
    rwa [powerupCells, hpowerups]

/-- The server changes its powerups and tells all clients or all but one. -/
theorem told (h : s.Leads platform past view removed refs) {powerups : List PowerupData}
    (hlags : ∀ r ∈ refs, ∀ pending, Lags s.powerupCells (removed r) (view r) pending →
      Lags ({ s with powerups } : Server).powerupCells (removed' r) (view r)
        (pending ++ if some r = ignoreClient then [] else (packetOf platform msg).changes))
    (htold : Told { s with powerups } refs msg ignoreClient s' refs') :
    s'.Leads platform past view removed' refs := by
  cases htold with
  | departed hrefs _ hclosed =>
      exact absurd (h.opens _ (by rw [hrefs]; simp)) hclosed
  | delivered =>
      refine ⟨⟨h.deque, h.nodup⟩, h.opens, fun r hr ↦ ?_⟩
      obtain ⟨pending, hpending, hlag⟩ := h.lags r hr
      have hbefore : ({ s with powerups } : Server).news platform r = s.news platform r := rfl
      refine ⟨pending ++ if some r = ignoreClient then [] else [packetOf platform msg], ?_, ?_⟩
      · rw [news_delivered h.nodup, hbefore, hpending, List.append_assoc]
        by_cases hignored : some r = ignoreClient
        · rw [if_neg fun hmem ↦ (mem_addressed.mp hmem).2 hignored, if_pos hignored]
        · rw [if_pos (mem_addressed.mpr ⟨hr, hignored⟩), if_neg hignored]
      · have hnext := hlags r hr _ hlag
        rw [List.flatMap_append]
        by_cases hignored : some r = ignoreClient
        · rw [if_pos hignored] at hnext ⊢
          exact hnext
        · rw [if_neg hignored] at hnext ⊢
          rw [List.flatMap_singleton]
          exact hnext

theorem broadcast (h : s.Leads platform past view removed refs) {powerups : List PowerupData}
    (hlags : ∀ r ∈ refs, ∀ pending, Lags s.powerupCells (removed r) (view r) pending →
      Lags ({ s with powerups } : Server).powerupCells (removed' r) (view r)
        (pending ++ if some r = ignoreClient then [] else (packetOf platform msg).changes)) :
    Ends (fun s' ↦ s'.Leads platform past view removed' refs) (fun _ _ ↦ True)
      ((messageAllClients depth msg ignoreClient).run { s with powerups }) := by
  have hlisted : Server.Listed { s with powerups } refs := ⟨h.deque, h.nodup⟩
  exact ends_messageAllClients hlisted (fun _ _ htold ↦ h.told hlags htold) fun _ _ ↦ trivial

/-- News of other things. -/
theorem tellsNothing (h : s.Leads platform past view removed refs)
    (hmsg : (packetOf platform msg).changes = [])
    (htold : Told s refs msg ignoreClient s' refs') : s'.Leads platform past view removed refs := by
  refine @told _ _ _ _ _ _ _ _ _ _ _ h s.powerups (fun r _ pending hlag ↦ ?_) htold
  rw [hmsg, ite_self, List.append_nil]
  exact hlag

theorem generatePowerup (h : s.Leads platform past view removed refs)
    (hdrawn : ∀ pos ∈ s.drawn env, ∀ r ∈ refs, pos ∉ removed r) :
    Ends (fun s' ↦ s'.Leads platform past view removed refs) (fun _ _ ↦ True)
      ((Server.generatePowerup env depth).run s) := by
  rcases run_generatePowerup_of_drawn s env depth with ⟨fault, hrun⟩ | ⟨powerup, hpos, hrun⟩
  · rw [hrun]
    trivial
  · rw [hrun]
    apply h.broadcast
    intro r hr pending hlag
    have hcells := s.powerupCells_spawned powerup
    rw [spawned] at hcells
    rw [if_neg (by simp), (Carries.newPowerupMsg powerup).packetOf_eq, hcells]
    exact hlag.tellAdd (hdrawn _ hpos r hr)

/-- The server hears that client `r` has eaten a powerup. -/
theorem powerupEaten (h : s.Leads platform past view removed refs) {powerup : PowerupData}
    (hr : removed r = powerup.position ::ₘ removed' r)
    (hother : ∀ other, other ≠ r → removed other = removed' other)
    (hdrawn : ∀ pos ∈ (s.eaten powerup).drawn env, ∀ r ∈ refs, pos ∉ removed' r) :
    Ends (fun s' ↦ s'.Leads platform past view removed' refs) (fun _ _ ↦ True)
      ((onMessage platform env depth r (powerupEatenMsg powerup)).run s) := by
  have hcells := s.powerupCells_eaten powerup
  rw [eaten] at hcells
  have hlags : ∀ other ∈ refs, ∀ pending,
      Lags s.powerupCells (removed other) (view other) pending →
        Lags (s.eaten powerup).powerupCells (removed' other) (view other) (pending ++
          if some other = some r then []
          else (packetOf platform (powerupEatenMsg powerup)).changes) := by
    intro other _ pending hlag
    rw [(Carries.powerupEatenMsg powerup).packetOf_eq, eaten, hcells]
    by_cases heq : other = r
    · subst heq
      rw [hr] at hlag
      rw [if_pos rfl, List.append_nil]
      exact hlag.confirm
    · rw [hother other heq] at hlag
      rw [if_neg (by simpa using heq)]
      exact hlag.tellRemove
  have hdelete : Ends
      (fun t ↦ t.Leads platform past view removed' refs ∧ t.drawn env = (s.eaten powerup).drawn env)
      (fun _ _ ↦ True)
      ((messageAllClients depth (powerupEatenMsg powerup) (some r)).run (s.eaten powerup)) := by
    have hlisted : (s.eaten powerup).Listed refs := ⟨h.deque, h.nodup⟩
    apply ends_messageAllClients hlisted
    · intro t refs' htold
      refine ⟨h.told hlags htold, ?_⟩
      cases htold with
      | delivered => exact drawn_congr rfl rfl
      | departed hrefs _ hclosed => exact absurd (h.opens _ (by rw [hrefs]; simp)) hclosed
    · exact fun _ _ ↦ trivial
  rw [run_onMessage_powerupEaten]
  refine Ends.bind hdelete ?_
  rintro _ t - ⟨hleads, hsame⟩
  apply hleads.generatePowerup
  rwa [hsame]

theorem startGame (h : s.Leads platform past view removed refs) (hid : msg.header.id = .startGame) :
    Ends (fun s' ↦ s'.Leads platform past view removed refs) (fun _ _ ↦ True)
      ((onMessage platform env depth r msg).run s) := by
  rw [run_onMessage_startGame s hid]
  have hstarted : Server.Leads platform past view removed { s with gameStarted := true } refs :=
    h.congr rfl rfl (fun _ ↦ rfl) rfl
  apply ends_messageAllClients hstarted.toListed
  · intro _ _ htold
    exact hstarted.tellsNothing (by rw [packetOf_startGame hid]; rfl) htold
  · exact fun _ _ ↦ trivial

theorem updatePlayer (h : s.Leads platform past view removed refs) {tail : List Position}
    {direction : Direction} {clientID : Int32}
    (hsize : (SnakeClient.updatePlayerMsg platform tail direction clientID).body.length < 2 ^ 32) :
    Ends (fun s' ↦ s'.Leads platform past view removed refs) (fun _ _ ↦ True)
      ((onMessage platform env depth r
        (SnakeClient.updatePlayerMsg platform tail direction clientID)).run s) := by
  have htail : tail.length < 2 ^ 31 := by
    rw [Packet.length_body_updatePlayerMsg] at hsize
    omega
  apply Server.ends_updatePlayer h.toListed htail
  · exact fun _ _ ↦ trivial
  · exact fun _ _ _ _ ↦ trivial
  intro t refs' player htold _
  have hrelayed : t.Leads platform past view removed refs :=
    h.tellsNothing (by rw [(Carries.updatePlayerMsg hsize).packetOf_eq]; rfl) htold
  have hmoved : (t.moved (t.getID r) player tail direction).Leads platform past view removed refs :=
    hrelayed.congr rfl rfl (fun _ ↦ rfl) rfl
  apply ends_playerCollision
  · exact hmoved
  · exact fun _ _ _ _ _ _ ↦ trivial
  · intro owner _ _ _ _ _ _
    have hcollided : ((t.moved (t.getID r) player tail direction).logged
        [.collided clientID.toUInt32 owner]).Leads platform past view removed refs :=
      hmoved.congr rfl rfl (fun r ↦ by rw [news_logged]; exact List.append_nil _) rfl
    apply ends_messageAllClients hcollided.toListed
    · intro _ _ htold'
      exact hcollided.tellsNothing
        (by rw [(Carries.killPlayerMsg clientID).packetOf_eq]; rfl) htold'
    · exact fun _ _ ↦ trivial

end Leads

end Server

end SnekCpp
