import SnekCpp.Game.Clients
import SnekCpp.Game.DeadPlayers

/-!
# Death is final

The server does not mark a dead player: its cells stay where they were until
its next report, and a report that was on its way is taken for that of an alive
player.
-/

namespace SnekCpp

open Lib Networking

/-- The calls of `SendKillMessage`: the victim, and the player on whose cell its
head was. -/
def kills (log : List Effect) : List (UInt32 × UInt32) :=
  log.filterMap fun
    | .collided clientID owner => some (clientID, owner)
    | _ => none

/-- The packet gives cells to a player. -/
def Packet.Revives (id : UInt32) : Packet → Prop
  | .serverValidation _ _ roster => ∃ entry ∈ roster, entry.1 = id ∧ entry.2.2 ≠ []
  | .newPlayer id' _ tail => id' = id ∧ tail ≠ []
  | .updatePlayer id' _ tail => id' = id ∧ tail ≠ []
  | _ => False

/-- `SendKillMessage` has been called for the player. -/
def Server.Killed (s : Server) (id : UInt32) : Prop := id ∈ (kills s.log).map Prod.fst

instance (s : Server) (id : UInt32) : Decidable (s.Killed id) :=
  inferInstanceAs (Decidable (_ ∈ _))

/-- No killed player reports cells, no head is on a cell that a killed player
still has on the server, no new client that has been told of a death is sent
cells of that player, and no id is given out twice. -/
def DeathsRespected (platform : Platform) (S : System) : Event → Prop
  | .accept => S.server.approved < 2 ^ 32
  | .validate r _ => ∀ entry ∈ S.server.players.entries, entry.2.tail ≠ [] →
      .killPlayer entry.1 ∉ S.server.news platform r
  | .update _ => ∀ report ∈ S.nextReport platform, ∀ head ∈ report.tail.head?,
      ¬ S.server.Killed report.id ∧
        ∀ entry ∈ S.server.players.entries, S.server.Killed entry.1 → head ∉ entry.2.tail
  | _ => True

instance (platform : Platform) (S : System) (e : Event) :
    Decidable (DeathsRespected platform S e) := by
  rcases e <;> unfold DeathsRespected <;> infer_instance

/-- After a call of `SendKillMessage` there is none for the same player or
because of one of its cells, every `KillPlayer` comes from such a call, and no
client that has handled it holds a cell of the player. -/
structure System.DeathsFinal (platform : Platform) (S : System) : Prop where
  once : (kills S.server.log).Pairwise fun earlier later ↦
    later.1 ≠ earlier.1 ∧ later.2 ≠ earlier.1
  sent : ∀ r id, .killPlayer id ∈ S.server.news platform r → S.server.Killed id
  tails : ∀ r id, .killPlayer id ∈ (S.peers r).learnt platform →
    tailOf (S.peers r).client.players id = []

/-! ## The server -/

namespace Server

/-- What the log says of deaths. -/
structure DeathRecord (platform : Platform) (s : Server) : Prop where
  once : (kills s.log).Pairwise fun earlier later ↦ later.1 ≠ earlier.1 ∧ later.2 ≠ earlier.1
  sent : ∀ r id, .killPlayer id ∈ s.news platform r → s.Killed id
  quiet : ∀ r, NeverAfter .killPlayer Packet.Revives (s.news platform r)

structure Deaths (platform : Platform) (s : Server) (refs : List ConnRef) : Prop
    extends Membership s refs, DeathRecord platform s where
  validated : ∀ id, s.Killed id → ∃ r, s.Validated r ∧ idOf r = id

section Kills

variable {s s' : Server} {refs refs' : List ConnRef} {msg : Msg} {ignoreClient : Option ConnRef}

theorem kills_append (xs ys : List Effect) : kills (xs ++ ys) = kills xs ++ kills ys :=
  List.filterMap_append

theorem kills_eq_nil {effects : List Effect} (h : ∀ id owner, .collided id owner ∉ effects) :
    kills effects = [] := by
  apply List.filterMap_eq_nil_iff.mpr
  intro e he
  cases e with
  | collided id owner => exact absurd he (h id owner)
  | _ => rfl

theorem kills_logged {effects : List Effect} (h : ∀ id owner, .collided id owner ∉ effects) :
    kills (s.logged effects).log = kills s.log := by
  rw [logged, kills_append, kills_eq_nil h, List.append_nil]

theorem kills_of_cast {effects : List Effect}
    (h : ∀ e ∈ effects, s.Cast refs msg ignoreClient e) :
    kills (s.log ++ effects) = kills s.log := by
  have hnone : kills effects = [] := by
    apply kills_eq_nil
    intro id owner hmem
    rcases h _ hmem with ⟨ref, -, -, heq⟩ | hremoval
    · cases heq
    · exact hremoval
  rw [kills_append, hnone, List.append_nil]

theorem Told.kills (h : Told s refs msg ignoreClient s' refs') :
    SnekCpp.kills s'.log = SnekCpp.kills s.log := by
  obtain ⟨effects, hlog, hcast⟩ := h.cast
  rw [hlog, kills_of_cast hcast]

theorem Overflows.kills (h : Overflows s refs msg s') :
    SnekCpp.kills s'.log = SnekCpp.kills s.log := by
  obtain ⟨effects, rfl, hcast⟩ := h.broadcast.cast
  exact kills_of_cast hcast

theorem killed_congr (h : kills s'.log = kills s.log) (id : UInt32) :
    s'.Killed id ↔ s.Killed id := by
  rw [Killed, Killed, h]

end Kills

/-- A broadcast tells only of deaths that have happened, and gives no cells to
the dead. -/
structure Decent (platform : Platform) (s : Server) (msg : Msg) : Prop where
  kill : ∀ id, packetOf platform msg = .killPlayer id → s.Killed id
  cells : ∀ id, (packetOf platform msg).Revives id → ¬ s.Killed id

theorem AtLarge.decent {platform : Platform} {s : Server} {msg : Msg} (h : AtLarge msg) :
    Decent platform s msg := by
  rcases @AtLarge.packet platform _ h with heq | ⟨powerup, heq⟩ | ⟨powerup, heq⟩
  · exact ⟨fun id hid ↦ by simp [heq] at hid, fun id hid ↦ by rw [heq] at hid; exact hid.elim⟩
  · exact ⟨fun id hid ↦ by simp [heq] at hid, fun id hid ↦ by rw [heq] at hid; exact hid.elim⟩
  · exact ⟨fun id hid ↦ by simp [heq] at hid, fun id hid ↦ by rw [heq] at hid; exact hid.elim⟩

namespace DeathRecord

variable {platform : Platform} {s s' : Server} {refs refs' : List ConnRef} {msg : Msg}
  {ignoreClient : Option ConnRef}

theorem congr (h : s.DeathRecord platform) (hkills : kills s'.log = kills s.log)
    (hnews : ∀ r, s'.news platform r = s.news platform r) : s'.DeathRecord platform where
  once := by
    rw [hkills]
    exact h.once
  sent r id hmem := by
    rw [hnews] at hmem
    exact (killed_congr hkills id).mpr (h.sent r id hmem)
  quiet r := by
    rw [hnews]
    exact h.quiet r

theorem told (h : s.DeathRecord platform) (hdecent : Decent platform s msg) (hnodup : refs.Nodup)
    (htold : Told s refs msg ignoreClient s' refs') : s'.DeathRecord platform := by
  refine ⟨by rw [htold.kills]; exact h.once, fun r id hmem ↦ ?_, fun r ↦ ?_⟩
  · rw [killed_congr htold.kills]
    obtain ⟨fresh, hnews, hfresh⟩ := @Told.news platform _ _ _ _ _ _ htold hnodup r
    rw [hnews] at hmem
    rcases List.mem_append.mp hmem with hmem | hmem
    · exact h.sent r id hmem
    · rcases hfresh _ hmem with heq | ⟨-, gone, -, -, -, -, heq⟩
      · exact hdecent.kill id heq.symm
      · cases heq
  · apply htold.neverAfter hnodup (h.quiet r)
    · exact fun _ _ hid ↦ hid
    · intro id hid
      refine ⟨fun hmem ↦ hdecent.cells id hid (h.sent r id hmem), fun heq ↦ ?_, by simp⟩
      rw [← heq] at hid
      exact hid

theorem overflow (h : s.DeathRecord platform) (hdecent : Decent platform s msg)
    (hoverflow : Overflows s refs msg s') : s'.DeathRecord platform := by
  refine ⟨by rw [hoverflow.kills]; exact h.once, fun r id hmem ↦ ?_, fun r ↦ ?_⟩
  · rw [killed_congr hoverflow.kills]
    obtain ⟨told, removed, hnews, htold, hremoved⟩ := @Overflows.news platform _ _ _ _ hoverflow r
    rw [hnews, List.mem_append, List.mem_append] at hmem
    rcases hmem with (hmem | hmem) | hmem
    · exact h.sent r id hmem
    · exact hdecent.kill id (htold _ hmem).symm
    · obtain ⟨-, gone, -, -, heq⟩ := hremoved _ hmem
      cases heq
  · apply hoverflow.neverAfter (h.quiet r)
    · exact fun _ _ hid ↦ hid
    · intro id hid
      refine ⟨fun hmem ↦ hdecent.cells id hid (h.sent r id hmem), fun heq ↦ ?_⟩
      rw [← heq] at hid
      exact hid

theorem collided (h : s.DeathRecord platform) {id owner : UInt32} (hid : ¬ s.Killed id)
    (howner : ¬ s.Killed owner) : (s.logged [.collided id owner]).DeathRecord platform := by
  have hkills : kills (s.logged [.collided id owner]).log = kills s.log ++ [(id, owner)] :=
    kills_append _ _
  have hnews : ∀ r, (s.logged [.collided id owner]).news platform r = s.news platform r := by
    intro r
    rw [news_logged]
    exact List.append_nil _
  refine ⟨?_, fun r id' hmem ↦ ?_, fun r ↦ by rw [hnews]; exact h.quiet r⟩
  · rw [hkills]
    refine List.pairwise_append.mpr ⟨h.once, List.pairwise_singleton _ _, ?_⟩
    intro earlier hearlier later hlater
    rw [List.mem_singleton.mp hlater]
    have hkilled : s.Killed earlier.1 := List.mem_map_of_mem hearlier
    refine ⟨fun heq ↦ hid ?_, fun heq ↦ howner ?_⟩
    · rwa [show id = earlier.1 from heq]
    · rwa [show owner = earlier.1 from heq]
  · rw [hnews] at hmem
    rw [Killed, hkills, List.map_append]
    exact List.mem_append_left _ (h.sent r id' hmem)

end DeathRecord

namespace Deaths

variable {platform : Platform} {s s' : Server} {refs refs' : List ConnRef} {msg : Msg}
  {ignoreClient : Option ConnRef} {r : ConnRef} {env : Env} {depth : ℕ}

theorem congr (h : s.Deaths platform refs) (hmember : s'.Membership refs')
    (hkills : kills s'.log = kills s.log)
    (hnews : ∀ r, s'.news platform r = s.news platform r)
    (hvalidated : ∀ r, s.Validated r → s'.Validated r) : s'.Deaths platform refs' := by
  refine ⟨hmember, h.toDeathRecord.congr hkills hnews, fun id hid ↦ ?_⟩
  obtain ⟨r, hr, heq⟩ := h.validated id ((killed_congr hkills id).mp hid)
  exact ⟨r, hvalidated r hr, heq⟩

theorem told (h : s.Deaths platform refs) (hdecent : Decent platform s msg)
    (htold : Told s refs msg ignoreClient s' refs') : s'.Deaths platform refs' := by
  refine ⟨h.toMembership.told htold, h.toDeathRecord.told hdecent h.listed.nodup htold,
    fun id hid ↦ ?_⟩
  obtain ⟨r, hr, heq⟩ := h.validated id ((killed_congr htold.kills id).mp hid)
  exact ⟨r, (htold.extends_.validated_iff r).mpr hr, heq⟩

theorem indifferent (platform : Platform) :
    Indifferent (Deaths platform) fun _ s ↦ s.DeathRecord platform where
  listed h := h.listed
  fields h powerups gameStarted m_qMessagesIn :=
    h.congr (h.toMembership.fields powerups gameStarted m_qMessagesIn) rfl (fun _ ↦ rfl)
      fun _ hr ↦ hr
  told h hmsg htold := h.told hmsg.decent htold
  overflow h hmsg hoverflow := h.toDeathRecord.overflow hmsg.decent hoverflow
  noCell h _ := h.toDeathRecord

/-- Nobody is dead before it has joined. -/
theorem not_killed (h : s.Deaths platform refs) (happroved : r < s.approved)
    (hnew : ¬ s.Validated r) : ¬ s.Killed (idOf r) := by
  intro hkilled
  obtain ⟨r', hvalidated, hid⟩ := h.validated _ hkilled
  exact hnew (h.inj (h.approvals.validated r' hvalidated) happroved hid ▸ hvalidated)

theorem welcomed (h : s.Deaths platform refs) (hmem : r ∈ refs) (hnew : ¬ s.Validated r)
    {spawnpoint : Position}
    (hsize : (s.snapshotMsg platform env r spawnpoint).body.length < 2 ^ 32)
    (hcells : ∀ entry ∈ s.players.entries, entry.2.tail ≠ [] →
      .killPlayer entry.1 ∉ s.news platform r) :
    (s.welcomed platform env r spawnpoint).Deaths platform refs := by
  have hkills : kills (s.welcomed platform env r spawnpoint).log = kills s.log := by
    rw [Server.welcomed, kills_append]
    exact List.append_nil _
  have hpacket := Carries.packetOf_eq (Carries.stateMsg hsize)
  rw [← snapshotMsg] at hpacket
  refine ⟨h.toMembership.welcomed hmem, ⟨by rw [hkills]; exact h.once, fun r' id hid ↦ ?_,
    fun r' ↦ ?_⟩, fun id hid ↦ ?_⟩
  · rw [killed_congr hkills]
    rw [news_welcomed] at hid
    rcases List.mem_append.mp hid with hid | hid
    · exact h.sent r' id hid
    · split at hid
      · rw [List.mem_singleton, hpacket] at hid
        cases hid
      · cases hid
  · rw [news_welcomed]
    split
    · next heq =>
        subst heq
        apply (h.quiet r').append
        · exact List.pairwise_singleton _ _
        · intro later hlater id hid hkill
          rw [List.mem_singleton.mp hlater, hpacket] at hid
          obtain ⟨entry, hentry, rfl, htail⟩ := hid
          obtain ⟨⟨key, player⟩, hplayer, rfl⟩ := List.mem_map.mp (List.mem_reverse.mp hentry)
          have hlookup := env.mem_iteration.mp hplayer
          simp only [joined, AssocMap.lookup_insert_eq, h.getID_of_mem hmem] at hlookup
          split at hlookup
          · next heq =>
              have hkilled := h.sent r' _ hkill
              exact h.not_killed (h.lt_of_mem hmem) hnew (heq ▸ hkilled)
          · have hentries := (AssocMap.mem_entries_iff _ _ _).mpr hlookup
            refine hcells _ hentries (fun hempty ↦ htail ?_) hkill
            simpa [Packet.rosterEntry] using hempty
    · rw [List.append_nil]
      exact h.quiet r'
  · obtain ⟨r', hr', heq⟩ := h.validated id ((killed_congr hkills id).mp hid)
    exact ⟨r', Membership.validated_welcomed.mpr (.inl hr'), heq⟩

theorem ends_onClientValidated (h : s.Deaths platform refs) (hmem : r ∈ refs)
    (hnew : ¬ s.Validated r)
    (hsize : ∀ spawnpoint ∈ s.spawnpoints.getLast?,
      (s.snapshotMsg platform env r spawnpoint).body.length < 2 ^ 32)
    (hcells : ∀ entry ∈ s.players.entries, entry.2.tail ≠ [] →
      .killPlayer entry.1 ∉ s.news platform r) :
    Ends (fun s' ↦ ∃ refs', s'.Deaths platform refs') (fun _ s' ↦ s'.DeathRecord platform)
      ((onClientValidated platform env depth r).run s) := by
  have hwelcomed : ∀ spawnpoint, s.spawnpoints.getLast? = some spawnpoint →
      (s.welcomed platform env r spawnpoint).Deaths platform refs :=
    fun spawnpoint hspawn ↦ h.welcomed hmem hnew (hsize spawnpoint hspawn) hcells
  have hdecent : ∀ spawnpoint, Decent platform (s.welcomed platform env r spawnpoint)
      (newPlayerMsg platform { direction := .up, tail := [spawnpoint], color := env.color }
        (idOf r)) := by
    intro spawnpoint
    have hpacket := Carries.packetOf_eq (@Carries.newPlayerMsg platform
      { direction := .up, tail := [spawnpoint], color := env.color } (by simp) (idOf r))
    refine ⟨fun id hid ↦ (by rw [hpacket] at hid; cases hid), fun id hid hkilled ↦ ?_⟩
    rw [hpacket] at hid
    have hkills : kills (s.welcomed platform env r spawnpoint).log = kills s.log := by
      rw [Server.welcomed, kills_append]
      exact List.append_nil _
    rw [killed_congr hkills, ← hid.1] at hkilled
    exact h.not_killed (h.lt_of_mem hmem) hnew hkilled
  apply h.toRoll.ends_onClientValidated (indifferent platform) (h.lt_of_mem hmem)
  · refine h.toDeathRecord.congr (kills_logged (by simp)) fun r' ↦ ?_
    rw [news_logged]
    exact List.append_nil _
  · exact fun spawnpoint hspawn s' refs' htold ↦
      (hwelcomed spawnpoint hspawn).told (hdecent spawnpoint) htold
  · exact fun spawnpoint hspawn s' hoverflow ↦
      (hwelcomed spawnpoint hspawn).toDeathRecord.overflow (hdecent spawnpoint) hoverflow

theorem ends_updatePlayer (h : s.Deaths platform refs) (hvalidated : s.Validated r)
    {tail : List Position} {direction : Direction} {clientID : Int32}
    (hid : clientID.toUInt32 = idOf r)
    (hsize : (SnakeClient.updatePlayerMsg platform tail direction clientID).body.length < 2 ^ 32)
    (halive : ∀ head ∈ tail.head?, ¬ s.Killed (idOf r) ∧
      ∀ entry ∈ s.players.entries, s.Killed entry.1 → head ∉ entry.2.tail) :
    Ends (fun s' ↦ ∃ refs', s'.Deaths platform refs') (fun _ s' ↦ s'.DeathRecord platform)
      ((onMessage platform env depth r
        (SnakeClient.updatePlayerMsg platform tail direction clientID)).run s) := by
  have happroved := h.approvals.validated r hvalidated
  have hpacket := Carries.packetOf_eq (Carries.updatePlayerMsg hsize)
  have hrelay : Decent platform s (SnakeClient.updatePlayerMsg platform tail direction clientID) := by
    refine ⟨fun id hkill ↦ (by rw [hpacket] at hkill; cases hkill), fun id hrevives ↦ ?_⟩
    rw [hpacket] at hrevives
    obtain ⟨rfl, htail⟩ := hrevives
    obtain ⟨head, rest, rfl⟩ := List.exists_cons_of_ne_nil htail
    rw [hid]
    exact (halive head rfl).1
  have hmoved : ∀ s' refs' player, Told s refs
      (SnakeClient.updatePlayerMsg platform tail direction clientID) (some r) s' refs' →
        s'.players.lookup (idOf r) = some player →
          (s'.moved (idOf r) player tail direction).Deaths platform refs' := by
    intro s' refs' player htold hlookup
    have htold' := h.told hrelay htold
    exact htold'.congr (htold'.toMembership.moved hlookup tail direction) rfl (fun _ ↦ rfl)
      fun _ hr ↦ hr
  apply h.toRoll.ends_updatePlayer happroved hid hsize
  · exact fun s' hoverflow ↦ h.toDeathRecord.overflow hrelay hoverflow
  · exact fun s' refs' htold _ ↦ (h.told hrelay htold).toDeathRecord
  · exact fun s' refs' player htold hlookup ↦ ⟨refs', hmoved s' refs' player htold hlookup⟩
  · exact fun s' refs' player other p htold hlookup _ _ _ _ ↦
      (hmoved s' refs' player htold hlookup).toDeathRecord
  · intro s' refs' player owner p head rest htold hlookup htail howner hcell
    obtain ⟨hself, hothers⟩ := halive head (by rw [htail]; rfl)
    have hmove := hmoved s' refs' player htold hlookup
    have hkilled : ∀ id, (s'.moved (idOf r) player tail direction).Killed id ↔ s.Killed id :=
      fun id ↦ killed_congr htold.kills id
    have hdead : ¬ s.Killed owner := by
      by_cases heq : owner = idOf r
      · rwa [heq]
      · rw [lookup_moved_ne heq] at howner
        rw [collisionCells, if_neg heq] at hcell
        intro hkill
        exact hothers ⟨owner, p⟩ ((AssocMap.mem_entries_iff _ _ _).mpr (htold.lookup howner))
          hkill hcell
    have hrecord := hmove.toDeathRecord.collided (fun hk ↦ hself ((hkilled _).mp hk))
      fun hk ↦ hdead ((hkilled _).mp hk)
    have hnews : Decent platform
        ((s'.moved (idOf r) player tail direction).logged [.collided (idOf r) owner])
        (killPlayerMsg clientID) := by
      have hpacket := Carries.packetOf_eq (@Carries.killPlayerMsg platform clientID)
      refine ⟨fun id hkill ↦ ?_, fun id hrevives ↦ by rw [hpacket] at hrevives; exact hrevives.elim⟩
      rw [hpacket, Packet.killPlayer.injEq, hid] at hkill
      subst hkill
      simp [Killed, logged, kills]
    have hcollided := hmove.toMembership.collided (idOf r) owner
    have hdeaths : ((s'.moved (idOf r) player tail direction).logged
        [.collided (idOf r) owner]).Deaths platform refs' := by
      refine ⟨hcollided, hrecord, fun id hkill ↦ ?_⟩
      have hvalidated' : ∀ r', s.Validated r' → ((s'.moved (idOf r) player tail direction).logged
          [.collided (idOf r) owner]).Validated r' := by
        intro r' hr'
        exact List.mem_append_left _ ((htold.extends_.validated_iff r').mpr hr')
      simp only [Killed, logged, kills_append, List.map_append, List.mem_append] at hkill
      rcases hkill with hkill | hkill
      · obtain ⟨r', hr', heq⟩ := h.validated id ((hkilled id).mp hkill)
        exact ⟨r', hvalidated' r' hr', heq⟩
      · exact ⟨r, hvalidated' r hvalidated, (List.mem_singleton.mp hkill).symm⟩
    apply ends_messageAllClients hcollided.listed
    · exact fun t refs'' htold' ↦ ⟨refs'', hdeaths.told hnews htold'⟩
    · exact fun t hoverflow ↦ hrecord.overflow hnews hoverflow

end Deaths

end Server

theorem deaths_rules (platform : Platform) (depth : ℕ) :
    ServerRules platform depth (fun S e ↦ Framed platform S e ∧ DeathsRespected platform S e)
      (Server.Deaths platform) fun _ s ↦ s.DeathRecord platform where
  toIndifferent := Server.Deaths.indifferent platform
  accept {S refs} h hallowed := by
    obtain ⟨refs', hmember⟩ := h.toMembership.exists_onAccept hallowed.2
    have hlog := S.server.log_onAccept
    refine ⟨refs', h.congr hmember (by rw [hlog]) (Server.news_congr platform hlog) fun r hr ↦ ?_⟩
    unfold Server.Validated
    rwa [hlog]
  close h r := h.congr (h.toMembership.close r) rfl (fun _ ↦ rfl) fun _ hr ↦ hr
  closeDown h _ := h.congr rfl fun _ ↦ rfl
  validate h hopen hnew hallowed :=
    h.ends_onClientValidated (h.mem_of_isConnected hopen) hnew hallowed.1 hallowed.2
  updatePlayer {S refs r env tail direction clientID rest} h hqueue hvalidated hid hsize
      hallowed := by
    have hpopped := (Server.Deaths.indifferent platform).fields h S.server.powerups
      S.server.gameStarted rest
    apply hpopped.ends_updatePlayer hvalidated hid hsize
    intro head hhead
    have hreport := hallowed.2 _ (System.nextReport_eq hqueue hsize) head hhead
    exact ⟨hid ▸ hreport.1, hreport.2⟩

/-! ## The clients -/

theorem tailOf_insertEntries (grid : Grid) (players : AssocMap UInt32 Player)
    {roster : List RosterEntry} {id : UInt32}
    (hroster : ∀ entry ∈ roster, entry.1 = id → entry.2.2 = []) (h : tailOf players id = []) :
    tailOf (roster.foldl (SnakeClient.insertEntry grid) players) id = [] := by
  induction roster generalizing players with
  | nil => exact h
  | cons entry roster ih =>
      apply ih
      · exact fun e he ↦ hroster e (List.mem_cons_of_mem _ he)
      · rw [SnakeClient.insertEntry, tailOf_insert]
        split
        · next heq => exact hroster entry List.mem_cons_self heq.symm
        · exact h

/-- Only a packet that gives cells to a player makes its tail non-empty. -/
theorem tailOf_handlePacket {client : SnakeClient} {packet : Packet} {id : UInt32}
    (hpacket : ¬ packet.Revives id) (h : tailOf client.players id = []) :
    tailOf (client.handlePacket packet).players id = [] := by
  cases packet with
  | serverValidation clientID powerups roster =>
      apply tailOf_insertEntries
      · intro entry hentry heq
        by_contra htail
        exact hpacket ⟨entry, hentry, heq, htail⟩
      · exact h
  | newPlayer id' color tail =>
      simp only [SnakeClient.handlePacket, SnakeClient.insertEntry, tailOf_insert]
      split
      · next heq =>
          by_contra htail
          exact hpacket ⟨heq.symm, htail⟩
      · exact h
  | removePlayer id' =>
      simp only [SnakeClient.handlePacket, tailOf_erase, h, ite_self]
  | updatePlayer id' direction tail =>
      simp only [SnakeClient.handlePacket, tailOf_insert, tailOf_subscript]
      split
      · next heq =>
          by_contra htail
          exact hpacket ⟨heq.symm, htail⟩
      · exact h
  | killPlayer id' =>
      simp only [SnakeClient.handlePacket, tailOf_insert, tailOf_subscript, h]
      split <;> rfl
  | _ => exact h

theorem tails_rules (platform : Platform) :
    ClientRules platform (fun _ news ↦ NeverAfter .killPlayer Packet.Revives news)
      fun _ packets client ↦ ∀ id, .killPlayer id ∈ packets → tailOf client.players id = [] where
  start r id h := by cases h
  plays h _ hplays id hmem := (hplays.tails id).mpr (h id hmem)
  handle {r packets packet rest client} h hnews _ _ id hmem := by
    rcases List.mem_append.mp hmem with hmem | hmem
    · have hlater := (List.pairwise_append.mp hnews).2.2 _ hmem packet List.mem_cons_self
      exact tailOf_handlePacket (hlater id rfl) (h id hmem)
    · rw [← List.mem_singleton.mp hmem]
      simp only [SnakeClient.handlePacket, tailOf_insert, if_pos]
      rfl

/-- Deaths are final in every run in which no killed player reports cells, no
head is on a cell that a killed player still has, and no snapshot brings back
the cells of a player whose death its receiver has been told. -/
theorem deathsFinal_of_reaches {platform : Platform} {depth : ℕ} {S : System}
    (h : Reaches (System.step platform depth)
      (fun S e ↦ Framed platform S e ∧ DeathsRespected platform S e) {} S) :
    S.DeathsFinal platform := by
  have hrecord : ∀ S, Reaches (System.step platform depth)
      (fun S e ↦ Framed platform S e ∧ DeathsRespected platform S e) {} S →
        S.server.DeathRecord platform := by
    intro S h
    have hstart : Server.init.Deaths platform [] :=
      ⟨.init, ⟨.nil, fun r id hmem ↦ (by cases hmem), fun r ↦ .nil⟩, fun id hid ↦ by cases hid⟩
    have hholds := Holds.of_reaches (deaths_rules platform depth)
      (fun h ↦ (Sound.of_reaches (h.mono fun _ _ h ↦ h.1)).toReporting) hstart h
    cases hfault : S.fault with
    | none =>
        obtain ⟨refs, hup⟩ := hholds.up hfault
        exact hup.toDeathRecord
    | some fault => exact hholds.down fault hfault
  have hclients := (tails_rules platform).of_reaches (fun _ _ h ↦ h.1)
    (fun S h r ↦ (hrecord S h).quiet r) h
  exact ⟨(hrecord S h).once, (hrecord S h).sent, hclients⟩

theorem deathsFinal_runsInto :
    ∃ S, run (guarded (System.step .x64 8)
        fun S e ↦ Framed .x64 S e ∧ DeathsRespected .x64 S e) {} runsInto = some S ∧
      S.DeathsFinal .x64 := by
  obtain ⟨S, hrun⟩ : ∃ S, run (guarded (System.step .x64 8)
      fun S e ↦ Framed .x64 S e ∧ DeathsRespected .x64 S e) {} runsInto = some S :=
    Option.isSome_iff_exists.mp (by decide +kernel)
  exact ⟨S, hrun, deathsFinal_of_reaches (reaches_of_guarded hrun)⟩

/-- The killed client reports once more before it hears of its death. -/
theorem not_deathsFinal_reports :
    ¬ ∀ S, Reaches (System.step .x64 8) (fun _ _ ↦ True) {} S → S.DeathsFinal .x64 := by
  intro hfinal
  obtain ⟨S, hreaches, hcells⟩ := @exists_reaches_of_run _ _ (System.step .x64 8) {}
    (runsInto ++ [.frame 0, .updateServer 0, .read 0, .update .plain] ++
      List.replicate 15 (.receive 1) ++ List.replicate 15 (.handle 1))
    (fun S ↦ decide (.killPlayer 10000 ∈ (S.peers 1).learnt .x64 ∧
      tailOf (S.peers 1).client.players 10000 ≠ [])) (by decide +kernel)
  obtain ⟨hkilled, hcells⟩ := of_decide_eq_true hcells
  exact hcells ((hfinal S hreaches).tails 1 10000 hkilled)

end SnekCpp
