import SnekCpp.Game.News

/-!
# Messages of clients that are gone

The server meets a closed connection while it broadcasts a message of another
client.  What the removed client has sent before may still be in the queue, and
nothing takes it out.
-/

namespace SnekCpp

open Lib Networking

/-- The packet reports a player. -/
def Packet.Updates (id : UInt32) : Packet → Prop
  | .updatePlayer id' _ _ => id' = id
  | _ => False

/-- No report of a client is handled after the client has been removed, and no
id is given out twice. -/
def NoneLeft (platform : Platform) (S : System) : Event → Prop
  | .accept => S.server.approved < 2 ^ 32
  | .update _ => ∀ report ∈ S.nextReport platform, ¬ S.server.Left report.client
  | _ => True

instance (platform : Platform) (S : System) (e : Event) : Decidable (NoneLeft platform S e) := by
  rcases e <;> unfold NoneLeft <;> infer_instance

/-- No message has asked for a player that is not there, and no client has been
told of a player that was removed before. -/
structure System.RemovalsFinal (platform : Platform) (S : System) : Prop where
  found : S.fault ≠ some .outOfRange
  quiet : ∀ r, NeverAfter .removePlayer Packet.Updates (S.server.news platform r)

namespace Server

structure Departures (platform : Platform) (s : Server) (refs : List ConnRef) : Prop
    extends Membership s refs where
  left : ∀ r id, .removePlayer id ∈ s.news platform r → ∃ gone, s.Left gone ∧ idOf gone = id
  quiet : ∀ r, NeverAfter .removePlayer Packet.Updates (s.news platform r)

/-- What a fault leaves behind. -/
def DeparturesEnd (platform : Platform) (fault : Fault) (s : Server) : Prop :=
  fault ≠ .outOfRange ∧ ∀ r, NeverAfter .removePlayer Packet.Updates (s.news platform r)

/-- A broadcast removes nobody itself, and reports only a client that is still there. -/
structure Current (platform : Platform) (refs : List ConnRef) (ignoreClient : Option ConnRef)
    (msg : Msg) : Prop where
  report : ∀ id, (packetOf platform msg).Updates id →
    ∃ r ∈ refs, ignoreClient = some r ∧ idOf r = id
  removal : ∀ id, packetOf platform msg ≠ .removePlayer id

theorem AtLarge.current {platform : Platform} {msg : Msg} (h : AtLarge msg) (refs : List ConnRef)
    (ignoreClient : Option ConnRef) : Current platform refs ignoreClient msg := by
  rcases @AtLarge.packet platform _ h with heq | ⟨powerup, heq⟩ | ⟨powerup, heq⟩
  · exact ⟨fun id hid ↦ by rw [heq] at hid; exact hid.elim, fun id ↦ by rw [heq]; simp⟩
  · exact ⟨fun id hid ↦ by rw [heq] at hid; exact hid.elim, fun id ↦ by rw [heq]; simp⟩
  · exact ⟨fun id hid ↦ by rw [heq] at hid; exact hid.elim, fun id ↦ by rw [heq]; simp⟩

theorem Current.of_carries {platform : Platform} {refs : List ConnRef}
    {ignoreClient : Option ConnRef} {msg : Msg} {packet : Packet}
    (h : Carries platform msg packet) (hreport : ∀ id, ¬ packet.Updates id)
    (hremoval : ∀ id, packet ≠ .removePlayer id) : Current platform refs ignoreClient msg where
  report id hid := by
    rw [h.packetOf_eq] at hid
    exact absurd hid (hreport id)
  removal id := by
    rw [h.packetOf_eq]
    exact hremoval id

namespace Departures

variable {platform : Platform} {s s' : Server} {refs refs' : List ConnRef} {msg : Msg}
  {ignoreClient : Option ConnRef}

/-- Nobody has been told that a client that is there is gone. -/
theorem notMem_news (h : s.Departures platform refs) {r r' : ConnRef} (hr : r ∈ refs) :
    .removePlayer (idOf r) ∉ s.news platform r' := by
  intro hmem
  obtain ⟨gone, hleft, hid⟩ := h.left r' _ hmem
  have heq := h.inj (h.left_lt gone hleft) (h.lt_of_mem hr) hid
  exact ((h.mem_iff r).mp hr).2 (heq ▸ hleft)

theorem told (h : s.Departures platform refs) (hcurrent : Current platform refs ignoreClient msg)
    (htold : Told s refs msg ignoreClient s' refs') : s'.Departures platform refs' := by
  refine ⟨h.toMembership.told htold, fun r id hmem ↦ ?_, fun r ↦ ?_⟩
  · obtain ⟨fresh, hnews, hfresh⟩ := @Told.news platform _ _ _ _ _ _ htold h.listed.nodup r
    rw [hnews] at hmem
    rcases List.mem_append.mp hmem with hmem | hmem
    · obtain ⟨gone, hleft, hid⟩ := h.left r id hmem
      obtain ⟨effects, hlog, -⟩ := htold.extends_.log
      refine ⟨gone, ?_, hid⟩
      unfold Server.Left
      rw [hlog]
      exact List.mem_append_left _ hleft
    · rcases hfresh _ hmem with heq | ⟨-, gone, hgone, -, -, hleft, heq⟩
      · exact absurd heq.symm (hcurrent.removal id)
      · rw [h.getID_of_mem hgone, Packet.removePlayer.injEq] at heq
        exact ⟨gone, hleft, heq.symm⟩
  · apply htold.neverAfter h.listed.nodup (h.quiet r)
    · exact fun _ _ hid ↦ hid
    · intro id hid
      obtain ⟨reporter, hmem, hignored, rfl⟩ := hcurrent.report id hid
      refine ⟨h.notMem_news hmem, (hcurrent.removal _).symm, fun gone hgone hne heq ↦ hne ?_⟩
      rw [h.getID_of_mem hgone, Packet.removePlayer.injEq] at heq
      rw [hignored, h.inj (h.lt_of_mem hmem) (h.lt_of_mem hgone) heq]

theorem overflow (h : s.Departures platform refs)
    (hcurrent : Current platform refs ignoreClient msg) (hoverflow : Overflows s refs msg s') :
    DeparturesEnd platform .stackOverflow s' := by
  refine ⟨by simp, fun r ↦ hoverflow.neverAfter (h.quiet r) (fun _ _ hid ↦ hid) fun id hid ↦ ?_⟩
  obtain ⟨reporter, hmem, -, rfl⟩ := hcurrent.report id hid
  exact ⟨h.notMem_news hmem, (hcurrent.removal _).symm⟩

theorem congr (h : s.Departures platform refs) (hmember : s'.Membership refs')
    (hnews : ∀ r, s'.news platform r = s.news platform r) (hleft : ∀ r, s.Left r → s'.Left r) :
    s'.Departures platform refs' := by
  refine ⟨hmember, fun r id hmem ↦ ?_, fun r ↦ ?_⟩
  · rw [hnews] at hmem
    obtain ⟨gone, hgone, hid⟩ := h.left r id hmem
    exact ⟨gone, hleft gone hgone, hid⟩
  · rw [hnews]
    exact h.quiet r

theorem collided (h : s.Departures platform refs) (id owner : UInt32) :
    (s.logged [.collided id owner]).Departures platform refs := by
  apply h.congr (h.toMembership.collided id owner)
  · intro r
    rw [news_logged]
    exact List.append_nil _
  · exact fun r hr ↦ List.mem_append_left _ hr

theorem welcomed (h : s.Departures platform refs) {env : Env} {r : ConnRef} {spawnpoint : Position}
    (hmem : r ∈ refs) (hsnapshot : ∀ id,
      packetOf platform (s.snapshotMsg platform env r spawnpoint) ≠ .removePlayer id ∧
        ¬ (packetOf platform (s.snapshotMsg platform env r spawnpoint)).Updates id) :
    (s.welcomed platform env r spawnpoint).Departures platform refs := by
  refine ⟨h.toMembership.welcomed hmem, fun r' id hid ↦ ?_, fun r' ↦ ?_⟩
  · rw [news_welcomed] at hid
    rcases List.mem_append.mp hid with hid | hid
    · obtain ⟨gone, hgone, hgoneID⟩ := h.left r' id hid
      exact ⟨gone, List.mem_append_left _ hgone, hgoneID⟩
    · split at hid
      · exact absurd (List.mem_singleton.mp hid).symm (hsnapshot id).1
      · cases hid
  · have hquiet : ∀ later ∈ (if r' = r then
        [packetOf platform (s.snapshotMsg platform env r spawnpoint)] else []), ∀ id,
          ¬ later.Updates id := by
      intro later hlater id
      split at hlater
      · rw [List.mem_singleton.mp hlater]
        exact (hsnapshot id).2
      · cases hlater
    rw [news_welcomed]
    apply (h.quiet r').append
    · apply neverAfter_of_forall
      exact fun _ _ later hlater id hid ↦ absurd hid (hquiet later hlater id)
    · exact fun later hlater id hid ↦ absurd hid (hquiet later hlater id)

theorem indifferent (platform : Platform) :
    Indifferent (Departures platform) (DeparturesEnd platform) where
  listed h := h.listed
  fields h powerups gameStarted m_qMessagesIn :=
    h.congr (h.toMembership.fields powerups gameStarted m_qMessagesIn) (fun r ↦ rfl) fun _ hr ↦ hr
  told h hmsg htold := h.told (hmsg.current _ _) htold
  overflow h hmsg hoverflow := h.overflow (hmsg.current _ none) hoverflow
  noCell h hfault := by
    refine ⟨?_, h.quiet⟩
    rcases hfault with rfl | rfl <;> simp

theorem ends_onClientValidated (h : s.Departures platform refs) {r : ConnRef} {env : Env}
    {depth : ℕ} (hmem : r ∈ refs) (hsize : ∀ spawnpoint ∈ s.spawnpoints.getLast?,
      (s.snapshotMsg platform env r spawnpoint).body.length < 2 ^ 32) :
    Ends (fun s' ↦ ∃ refs', s'.Departures platform refs') (DeparturesEnd platform)
      ((onClientValidated platform env depth r).run s) := by
  have hcurrent : ∀ spawnpoint, Current platform refs (some r)
      (newPlayerMsg platform { direction := .up, tail := [spawnpoint], color := env.color }
        (idOf r)) := by
    intro spawnpoint
    exact .of_carries (.newPlayerMsg (by simp) _) (fun _ hid ↦ hid) (by simp)
  have hwelcomed : ∀ spawnpoint, s.spawnpoints.getLast? = some spawnpoint →
      (s.welcomed platform env r spawnpoint).Departures platform refs := by
    intro spawnpoint hspawn
    apply h.welcomed hmem
    intro id
    rw [snapshotMsg, (Carries.stateMsg (hsize spawnpoint hspawn)).packetOf_eq]
    exact ⟨by simp, fun hid ↦ hid⟩
  apply h.toRoll.ends_onClientValidated (indifferent platform) (h.lt_of_mem hmem)
  · refine ⟨by simp, fun r' ↦ ?_⟩
    have hsame : (s.logged [.validated r]).news platform r' = s.news platform r' := by
      rw [news_logged]
      exact List.append_nil _
    rw [hsame]
    exact h.quiet r'
  · exact fun spawnpoint hspawn s' refs' htold ↦
      (hwelcomed spawnpoint hspawn).told (hcurrent spawnpoint) htold
  · exact fun spawnpoint hspawn s' hoverflow ↦
      (hwelcomed spawnpoint hspawn).overflow (hcurrent spawnpoint) hoverflow

theorem ends_updatePlayer (h : s.Departures platform refs) {r : ConnRef} {env : Env} {depth : ℕ}
    (hmem : r ∈ refs) (hvalidated : s.Validated r) {tail : List Position} {direction : Direction}
    {clientID : Int32} (hid : clientID.toUInt32 = idOf r)
    (hsize : (SnakeClient.updatePlayerMsg platform tail direction clientID).body.length < 2 ^ 32) :
    Ends (fun s' ↦ ∃ refs', s'.Departures platform refs') (DeparturesEnd platform)
      ((onMessage platform env depth r
        (SnakeClient.updatePlayerMsg platform tail direction clientID)).run s) := by
  have hcarries := Carries.updatePlayerMsg hsize
  have hrelay : Current platform refs (some r)
      (SnakeClient.updatePlayerMsg platform tail direction clientID) := by
    refine ⟨fun id hupdates ↦ ⟨r, hmem, rfl, ?_⟩, fun id ↦ by rw [hcarries.packetOf_eq]; simp⟩
    rw [hcarries.packetOf_eq] at hupdates
    exact hid.symm.trans hupdates
  have hkill : ∀ refs', Current platform refs' none (killPlayerMsg clientID) :=
    fun _ ↦ .of_carries (.killPlayerMsg clientID) (fun _ hid ↦ hid) (by simp)
  have hmoved : ∀ s' refs' player, Told s refs
      (SnakeClient.updatePlayerMsg platform tail direction clientID) (some r) s' refs' →
        s'.players.lookup (idOf r) = some player →
          (s'.moved (idOf r) player tail direction).Departures platform refs' := by
    intro s' refs' player htold hlookup
    have htold' := h.told hrelay htold
    exact htold'.congr (htold'.toMembership.moved hlookup tail direction) (fun _ ↦ rfl)
      fun _ hr ↦ hr
  apply h.toRoll.ends_updatePlayer (h.lt_of_mem hmem) hid hsize
  · exact fun s' hoverflow ↦ h.overflow hrelay hoverflow
  · intro s' refs' htold hnone
    exfalso
    have hmember := (h.told hrelay htold).toMembership
    have hplayer := (hmember.mem_players_iff
      ((htold.extends_.validated_iff r).mpr hvalidated)).mpr (htold.mem_of_ignored hmem)
    obtain ⟨player, hlookup⟩ := AssocMap.lookup_eq_some_of_mem hplayer
    rw [hnone] at hlookup
    cases hlookup
  · exact fun s' refs' player htold hlookup ↦ ⟨refs', hmoved s' refs' player htold hlookup⟩
  · intro s' refs' player other p htold hlookup _ _ _ _
    exact ⟨by simp, (hmoved s' refs' player htold hlookup).quiet⟩
  · intro s' refs' player owner p head cells htold hlookup _ _ _
    have hcollided := (hmoved s' refs' player htold hlookup).collided (idOf r) owner
    apply ends_messageAllClients hcollided.listed
    · exact fun t refs'' htold' ↦ ⟨refs'', hcollided.told (hkill refs') htold'⟩
    · exact fun t hoverflow ↦ hcollided.overflow (hkill refs') hoverflow

end Departures

end Server

theorem departures_rules (platform : Platform) (depth : ℕ) :
    ServerRules platform depth
      (fun S e ↦ TellsIDs platform S e ∧ BodiesFit platform S e ∧ NoneLeft platform S e)
      (Server.Departures platform) (Server.DeparturesEnd platform) where
  toIndifferent := Server.Departures.indifferent platform
  accept {S refs} h hallowed := by
    obtain ⟨refs', hmember⟩ := h.toMembership.exists_onAccept hallowed.2.2
    have hlog := S.server.log_onAccept
    refine ⟨refs', h.congr hmember (Server.news_congr platform hlog) fun r hr ↦ ?_⟩
    unfold Server.Left
    rwa [hlog]
  close h r := h.congr (h.toMembership.close r) (fun _ ↦ rfl) fun _ hr ↦ hr
  closeDown h _ := h
  validate h hopen _ hallowed :=
    h.ends_onClientValidated (h.mem_of_isConnected hopen) hallowed.2.1
  updatePlayer {S refs r env tail direction clientID rest} h hqueue hvalidated hid hsize
      hallowed := by
    have hstays := hallowed.2.2 _ (System.nextReport_eq hqueue hsize)
    have hmem := (h.mem_iff r).mpr ⟨h.approvals.validated r hvalidated, hstays⟩
    have hpopped := (Server.Departures.indifferent platform).fields h S.server.powerups
      S.server.gameStarted rest
    exact hpopped.ends_updatePlayer hmem hvalidated hid hsize

/-- Removals are final in every run in which every client keeps its id and no
report of a removed client is handled; what else it has sent does no harm. -/
theorem removalsFinal_of_reaches {platform : Platform} {depth : ℕ} {S : System}
    (h : Reaches (System.step platform depth)
      (fun S e ↦ TellsIDs platform S e ∧ BodiesFit platform S e ∧ NoneLeft platform S e) {} S) :
    S.RemovalsFinal platform := by
  have hstart : Server.init.Departures platform [] :=
    ⟨.init, fun r id hmem ↦ (by cases hmem), fun r ↦ .nil⟩
  have hholds := Holds.of_reaches (departures_rules platform depth)
    (fun h ↦ .of_reaches (h.mono fun _ _ h ↦ ⟨h.1, h.2.1⟩)) hstart h
  cases hfault : S.fault with
  | none =>
      obtain ⟨refs, hup⟩ := hholds.up hfault
      exact ⟨by simp [hfault], hup.quiet⟩
  | some fault =>
      obtain ⟨hne, hquiet⟩ := hholds.down fault hfault
      exact ⟨fun heq ↦ hne (by rw [hfault] at heq; exact Option.some.inj heq), hquiet⟩

/-- Two clients join and enter the game. -/
def bothJoin : List Event :=
  [.accept, .accept, .validate 0 .plain, .validate 1 .plain] ++
    [0, 1].flatMap (fun r ↦ List.replicate 3 (.receive r)) ++
      [0, 1].flatMap (fun r ↦ List.replicate 3 (.handle r)) ++ [.enterGame 0, .enterGame 1]

/-- The second client's report is handled after the first one has closed, and
then its start with the body of the report. -/
def leavesEarly : List Event :=
  bothJoin ++ [.frame 1, .updateServer 1, .key 1 .p true, .read 1, .read 1, .close 0,
    .update .plain, .update .plain]

theorem removalsFinal_leavesEarly :
    ∃ S, run (guarded (System.step .x64 8)
        fun S e ↦ TellsIDs .x64 S e ∧ BodiesFit .x64 S e ∧ NoneLeft .x64 S e) {} leavesEarly =
          some S ∧ S.RemovalsFinal .x64 := by
  obtain ⟨S, hrun⟩ : ∃ S, run (guarded (System.step .x64 8)
      fun S e ↦ TellsIDs .x64 S e ∧ BodiesFit .x64 S e ∧ NoneLeft .x64 S e) {} leavesEarly =
        some S :=
    Option.isSome_iff_exists.mp (by decide +kernel)
  exact ⟨S, hrun, removalsFinal_of_reaches (reaches_of_guarded hrun)⟩

/-- The first client's report is in the queue when the second one's is handled. -/
theorem not_removalsFinal_queued :
    ¬ ∀ S, Reaches (System.step .x64 8) (fun _ _ ↦ True) {} S → S.RemovalsFinal .x64 := by
  intro hfinal
  obtain ⟨S, hreaches, hfault⟩ := @exists_reaches_of_run _ _ (System.step .x64 8) {}
    (bothJoin ++ [.frame 0, .updateServer 0, .frame 1, .updateServer 1, .read 1, .read 0, .close 0,
      .update .plain, .update .plain])
    (fun S ↦ decide (S.fault = some .outOfRange)) (by decide +kernel)
  exact (hfinal S hreaches).found (of_decide_eq_true hfault)

end SnekCpp
