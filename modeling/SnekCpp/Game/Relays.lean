import SnekCpp.Game.Independence
import SnekCpp.Game.Powerups
import SnekCpp.Game.Shown
import SnekCpp.Lib.History
import SnekCpp.SnekServer.Validation

/-!
# The reports that clients get of each other

A report goes from its client's stream over the server's queue into a broadcast
and from there into the streams of the others.  What one client learns of
another is a block of what that one has reported, in the same order.
-/

namespace SnekCpp

open Lib Networking

/-- What a packet reports of a player. -/
def Packet.reportOf (id : UInt32) : Packet → Option (Direction × List Position)
  | .updatePlayer id' direction tail => if id' = id then some (direction, tail) else none
  | _ => none

/-- All that packets report of a player, in their order. -/
def reportsOf (id : UInt32) (packets : List Packet) : List (Direction × List Position) :=
  packets.filterMap (Packet.reportOf id)

@[simp] theorem reportsOf_nil (id : UInt32) : reportsOf id [] = [] := rfl

@[simp] theorem reportsOf_append (id : UInt32) (xs ys : List Packet) :
    reportsOf id (xs ++ ys) = reportsOf id xs ++ reportsOf id ys :=
  List.filterMap_append

theorem reportsOf_singleton (id : UInt32) (packet : Packet) :
    reportsOf id [packet] = (packet.reportOf id).toList := by
  cases hreport : packet.reportOf id with
  | none => simp [reportsOf, hreport]
  | some report => simp [reportsOf, hreport]

namespace Server

/-- The reports of client `sender` that have been handled are `handled`.  Each
other client has been told those that were handled while it was listed. -/
structure Forwards (platform : Platform) (sender : ConnRef)
    (handled : List (Direction × List Position)) (s : Server) (refs : List ConnRef) : Prop
    extends Membership s refs where
  told : ∀ r, r ≠ sender →
    Window (¬ s.Left r) handled (reportsOf (idOf sender) (s.news platform r))
  unheard : ∀ r, s.approved ≤ r → s.news platform r = []

variable {platform : Platform} {s s' : Server} {refs refs' : List ConnRef} {msg : Msg}
  {ignoreClient : Option ConnRef} {sender r : ConnRef} {id : UInt32}
  {handled : List (Direction × List Position)}

/-- A broadcast reports what its message does, once, to every client that it leaves. -/
theorem Told.reports (h : Told s refs msg ignoreClient s' refs') (hnodup : refs.Nodup)
    (r : ConnRef) :
    reportsOf id (s'.news platform r) = reportsOf id (s.news platform r) ++
      if r ∈ addressed ignoreClient refs' then ((packetOf platform msg).reportOf id).toList
      else [] := by
  obtain ⟨before, after, hnews, hremovals⟩ := @Told.once platform _ _ _ _ _ _ h hnodup r
  have hnone : ∀ part, (∀ packet ∈ part, packet ∈ before ++ after) → reportsOf id part = [] := by
    intro part hpart
    refine List.filterMap_eq_nil_iff.mpr fun packet hpacket ↦ ?_
    obtain ⟨gone, -, rfl⟩ := hremovals packet (hpart packet hpacket)
    rfl
  rw [hnews, reportsOf_append, reportsOf_append, reportsOf_append,
    hnone before (fun _ hmem ↦ List.mem_append_left _ hmem),
    hnone after (fun _ hmem ↦ List.mem_append_right _ hmem), List.nil_append, List.append_nil]
  congr 1
  split
  · exact reportsOf_singleton ..
  · rfl

namespace Forwards

variable {env : Env} {depth : ℕ}

theorem congr (h : s.Forwards platform sender handled refs) (hmember : s'.Membership refs)
    (hnews : ∀ r, s'.news platform r = s.news platform r) (hleft : ∀ r, s'.Left r ↔ s.Left r)
    (happroved : s'.approved = s.approved) : s'.Forwards platform sender handled refs := by
  refine ⟨hmember, fun r hr ↦ ?_, fun r hr ↦ ?_⟩
  · rw [hnews]
    exact (h.told r hr).mono fun hstays hleft' ↦ hstays ((hleft r).mpr hleft')
  · rw [happroved] at hr
    rw [hnews]
    exact h.unheard r hr

theorem onAccept (h : s.Forwards platform sender handled refs) (haccept : s.onClientConnect = true)
    (hfew : s.approved < 2 ^ 32) :
    s.onAccept.Forwards platform sender handled (refs ++ [s.approved]) := by
  have hmember := h.toMembership.onAccept haccept hfew
  unfold Server.onAccept at hmember ⊢
  rw [if_pos haccept] at hmember ⊢
  exact ⟨hmember, h.told, fun r hr ↦ h.unheard r (Nat.le_of_succ_le hr)⟩

theorem unheard_told (h : s.Forwards platform sender handled refs)
    (htold : Told s refs msg ignoreClient s' refs') (hr : s'.approved ≤ r) :
    s'.news platform r = [] := by
  rw [htold.extends_.approved] at hr
  rw [htold.news_of_notMem h.listed.nodup fun hmem ↦ absurd (h.lt_of_mem hmem) (Nat.not_lt.mpr hr)]
  exact h.unheard r hr

theorem left_of_left (htold : Told s refs msg ignoreClient s' refs') (hleft : s.Left r) :
    s'.Left r := by
  obtain ⟨effects, hlog, -⟩ := htold.extends_.log
  unfold Left
  rw [hlog]
  exact List.mem_append_left _ hleft

/-- News of other things. -/
theorem tellsNothing (h : s.Forwards platform sender handled refs)
    (hmsg : (packetOf platform msg).reportOf (idOf sender) = none)
    (htold : Told s refs msg ignoreClient s' refs') :
    s'.Forwards platform sender handled refs' := by
  refine ⟨h.toMembership.told htold, fun r hr ↦ ?_, fun r hr ↦ h.unheard_told htold hr⟩
  rw [htold.reports h.listed.nodup, hmsg, Option.toList_none, ite_self, List.append_nil]
  exact (h.told r hr).mono fun hstays hleft ↦ hstays (left_of_left htold hleft)

/-- A report of the sender goes to all others that are listed. -/
theorem relayed (h : s.Forwards platform sender handled refs)
    {report : Direction × List Position}
    (hmsg : (packetOf platform msg).reportOf (idOf sender) = some report)
    (htold : Told s refs msg (some sender) s' refs') :
    s'.Forwards platform sender (handled ++ [report]) refs' := by
  have hmember := h.toMembership.told htold
  refine ⟨hmember, fun r hr ↦ ?_, fun r hr ↦ h.unheard_told htold hr⟩
  rw [htold.reports h.listed.nodup, hmsg, Option.toList_some]
  have hstays : ¬ s'.Left r → ¬ s.Left r := fun hstays hleft ↦ hstays (left_of_left htold hleft)
  by_cases hmem : r ∈ refs'
  · rw [if_pos (mem_addressed.mpr ⟨hmem, by simpa using hr⟩)]
    exact ((h.told r hr).mono hstays).deliver ((hmember.mem_iff r).mp hmem).2 [report]
  · rw [if_neg fun haddressed ↦ hmem (mem_addressed.mp haddressed).1, List.append_nil]
    by_cases hnew : s'.approved ≤ r
    · have hnone : reportsOf (idOf sender) (s.news platform r) = [] := by
        rw [htold.extends_.approved] at hnew
        rw [h.unheard r hnew, reportsOf_nil]
      rw [hnone]
      exact .empty _
    · have hleft : s'.Left r := by
        by_contra hstays
        exact hmem ((hmember.mem_iff r).mpr ⟨Nat.lt_of_not_le hnew, hstays⟩)
      exact (h.told r hr).miss (fun hstays ↦ hstays hleft) [report]

theorem reportOf_of_atLarge (h : AtLarge msg) (id : UInt32) :
    (packetOf platform msg).reportOf id = none := by
  rcases @AtLarge.packet platform _ h with heq | ⟨powerup, heq⟩ | ⟨powerup, heq⟩ <;> rw [heq] <;> rfl

theorem indifferent (platform : Platform) (sender : ConnRef)
    (handled : List (Direction × List Position)) :
    Indifferent (Forwards platform sender handled) fun _ _ ↦ True where
  listed h := h.listed
  fields h powerups gameStarted m_qMessagesIn :=
    h.congr (h.toMembership.fields powerups gameStarted m_qMessagesIn) (fun _ ↦ rfl)
      (fun _ ↦ .rfl) rfl
  told h hmsg htold := h.tellsNothing (reportOf_of_atLarge hmsg _) htold
  overflow _ _ _ := trivial
  noCell _ _ := trivial

theorem welcomed (h : s.Forwards platform sender handled refs) (hmem : r ∈ refs)
    {spawnpoint : Position}
    (hsize : (s.snapshotMsg platform env r spawnpoint).body.length < 2 ^ 32) :
    (s.welcomed platform env r spawnpoint).Forwards platform sender handled refs := by
  have hpacket := Carries.packetOf_eq (Carries.stateMsg hsize)
  rw [← snapshotMsg] at hpacket
  have hreports : ∀ r', reportsOf (idOf sender)
      ((s.welcomed platform env r spawnpoint).news platform r') =
        reportsOf (idOf sender) (s.news platform r') := by
    intro r'
    rw [news_welcomed, reportsOf_append]
    split
    · rw [hpacket, reportsOf_singleton]
      exact List.append_nil _
    · exact List.append_nil _
  refine ⟨h.toMembership.welcomed hmem, fun r' hr' ↦ ?_, fun r' hr' ↦ ?_⟩
  · rw [hreports]
    exact (h.told r' hr').mono fun hstays hleft ↦ hstays (by simpa [Left, Server.welcomed] using hleft)
  · have hne : r' ≠ r := fun heq ↦ absurd (h.lt_of_mem hmem) (Nat.not_lt.mpr (heq ▸ hr'))
    rw [news_welcomed, if_neg hne, List.append_nil]
    exact h.unheard r' hr'

theorem ends_onClientValidated (h : s.Forwards platform sender handled refs) (hmem : r ∈ refs)
    (hsize : ∀ spawnpoint ∈ s.spawnpoints.getLast?,
      (s.snapshotMsg platform env r spawnpoint).body.length < 2 ^ 32) :
    Ends (fun s' ↦ ∃ refs', s'.Forwards platform sender handled refs') (fun _ _ ↦ True)
      ((onClientValidated platform env depth r).run s) := by
  apply h.toRoll.ends_onClientValidated (indifferent platform sender handled) (h.lt_of_mem hmem)
    trivial
  · intro spawnpoint hspawn s' refs' htold
    apply (h.welcomed hmem (hsize spawnpoint hspawn)).tellsNothing ?_ htold
    rw [(Carries.newPlayerMsg (by simp) _).packetOf_eq]
    rfl
  · exact fun _ _ _ _ ↦ trivial

/-- A client's report is told to the others, and counts as handled from then on. -/
theorem ends_updatePlayer (h : s.Forwards platform sender handled refs)
    (hsender : sender < 2 ^ 32) (hvalidated : s.Validated r) {tail : List Position}
    {direction : Direction} {clientID : Int32} (hid : clientID.toUInt32 = idOf r)
    (hsize : (SnakeClient.updatePlayerMsg platform tail direction clientID).body.length < 2 ^ 32) :
    Ends (fun s' ↦ ∃ refs', s'.Forwards platform sender
        (handled ++ if r = sender then [(direction, tail)] else []) refs') (fun _ _ ↦ True)
      ((onMessage platform env depth r
        (SnakeClient.updatePlayerMsg platform tail direction clientID)).run s) := by
  have happroved := h.approvals.validated r hvalidated
  have hpacket : packetOf platform (SnakeClient.updatePlayerMsg platform tail direction clientID) =
      .updatePlayer (idOf r) direction tail := by
    rw [← hid]
    exact (Carries.updatePlayerMsg hsize).packetOf_eq
  have hrelayed : ∀ s' refs', Told s refs
      (SnakeClient.updatePlayerMsg platform tail direction clientID) (some r) s' refs' →
        s'.Forwards platform sender (handled ++ if r = sender then [(direction, tail)] else [])
          refs' := by
    intro s' refs' htold
    by_cases hself : r = sender
    · subst hself
      rw [if_pos rfl]
      exact h.relayed (by rw [hpacket]; exact if_pos rfl) htold
    · rw [if_neg hself, List.append_nil]
      apply h.tellsNothing ?_ htold
      rw [hpacket]
      exact if_neg fun heq ↦ hself (idOf_inj (Nat.lt_of_lt_of_le happroved h.few) hsender heq)
  have hmoved : ∀ s' refs' player, Told s refs
      (SnakeClient.updatePlayerMsg platform tail direction clientID) (some r) s' refs' →
        s'.players.lookup (idOf r) = some player →
          (s'.moved (idOf r) player tail direction).Forwards platform sender
            (handled ++ if r = sender then [(direction, tail)] else []) refs' :=
    fun s' refs' player htold hlookup ↦ (hrelayed s' refs' htold).congr
      ((hrelayed s' refs' htold).toMembership.moved hlookup tail direction) (fun _ ↦ rfl)
      (fun _ ↦ .rfl) rfl
  apply h.toRoll.ends_updatePlayer happroved hid hsize
  · exact fun _ _ ↦ trivial
  · exact fun _ _ _ _ ↦ trivial
  · exact fun s' refs' player htold hlookup ↦ ⟨refs', hmoved s' refs' player htold hlookup⟩
  · exact fun _ _ _ _ _ _ _ _ _ _ _ ↦ trivial
  · intro s' refs' player owner p head rest htold hlookup htail _ _
    have hcollided : ((s'.moved (idOf r) player tail direction).logged
        [.collided (idOf r) owner]).Forwards platform sender
          (handled ++ if r = sender then [(direction, tail)] else []) refs' := by
      have hbefore := hmoved s' refs' player htold hlookup
      apply hbefore.congr (hbefore.toMembership.collided (idOf r) owner)
      · intro r'
        rw [news_logged]
        exact List.append_nil _
      · intro r'
        simp [Left, logged]
      · rfl
    apply ends_messageAllClients hcollided.listed
    · intro t refs'' htold'
      refine ⟨refs'', hcollided.tellsNothing ?_ htold'⟩
      rw [(Carries.killPlayerMsg clientID).packetOf_eq]
      rfl
    · exact fun _ _ ↦ trivial

theorem ends_onMessage (h : s.Forwards platform sender handled refs) (hsender : sender < 2 ^ 32)
    (hvalidated : s.Validated r) (hsends : ClientSends platform (idOf r) msg) :
    Ends (fun s' ↦ ∃ refs', s'.Forwards platform sender
        (handled ++ reportsOf (idOf sender)
          ((if r = sender then [msg] else []).map (packetOf platform))) refs') (fun _ _ ↦ True)
      ((onMessage platform env depth r msg).run s) := by
  have hother : reportsOf (idOf sender) [packetOf platform msg] = [] →
      reportsOf (idOf sender) ((if r = sender then [msg] else []).map (packetOf platform)) = [] := by
    intro hnone
    split
    · exact hnone
    · rfl
  cases hsends with
  | @updatePlayer tail direction clientID hid hsize =>
      have hreport : reportsOf (idOf sender) ((if r = sender then
          [SnakeClient.updatePlayerMsg platform tail direction clientID] else []).map
            (packetOf platform)) = if r = sender then [(direction, tail)] else [] := by
        by_cases hself : r = sender
        · rw [if_pos hself, if_pos hself, List.map_singleton, reportsOf_singleton,
            (Carries.updatePlayerMsg hsize).packetOf_eq, Packet.reportOf,
            if_pos (hid.trans (congrArg idOf hself)), Option.toList_some]
        · rw [if_neg hself, if_neg hself]
          rfl
      rw [hreport]
      exact h.ends_updatePlayer hsender hvalidated hid hsize
  | powerupEaten powerup =>
      rw [hother, List.append_nil]
      · exact (indifferent platform sender handled).powerupEaten h env depth r powerup
      · rw [(Carries.powerupEatenMsg powerup).packetOf_eq]
        rfl
  | startGame =>
      rw [hother, List.append_nil]
      · exact (indifferent platform sender handled).startGame h env depth r rfl
      · rw [Carries.startGame.packetOf_eq]
        rfl

end Forwards

end Server

namespace System

/-- While the server runs, what a client has sent splits into what has been
handled, and told to the others, and what is still on its way up. -/
def Relays (platform : Platform) (sender : ConnRef) (S : System) : Prop :=
  S.fault = none → ∃ refs handled, S.server.Forwards platform sender handled refs ∧
    reportsOf (idOf sender) ((S.peers sender).sent.map (packetOf platform)) =
      handled ++ reportsOf (idOf sender) ((S.upward sender).map (packetOf platform))

variable {platform : Platform} {depth : ℕ} {S S' : System} {sender r : ConnRef}

theorem upward_read {msg : Msg} {rest : List Msg} {reader : Reader MessageTypes}
    (hunread : (S.readers r).unread (S.peers r).sent = msg :: rest)
    (hrest : reader.unread (S.peers r).sent = rest) (other : ConnRef) :
    ({ S with
      server.m_qMessagesIn := S.server.m_qMessagesIn ++ [(r, msg)]
      readers := Function.update S.readers r reader } : System).upward other = S.upward other := by
  simp only [upward, queuedFrom_append, queuedFrom_cons]
  by_cases heq : r = other
  · subst heq
    simp [hunread, hrest, queuedFrom]
  · have hne : other ≠ r := fun h ↦ heq h.symm
    simp [heq, hne, queuedFrom]

theorem upward_update {msg : Msg} {rest : List (ConnRef × Msg)}
    (hqueue : S.server.m_qMessagesIn = (r, msg) :: rest) (other : ConnRef) :
    S.upward other = (if r = other then [msg] else []) ++
      ({ S with server.m_qMessagesIn := rest } : System).upward other := by
  rw [upward, hqueue, queuedFrom_cons, List.append_assoc]
  rfl

theorem upward_serve {handler : ServerM Unit}
    (hqueue : (Server.after (handler.run S.server)).m_qMessagesIn = S.server.m_qMessagesIn)
    (other : ConnRef) : (S.serve handler).upward other = S.upward other := by
  obtain ⟨fault, heq⟩ := S.serve_eq handler
  rw [heq, upward, upward, hqueue]

namespace Relays

theorem start (platform : Platform) (sender : ConnRef) : Relays platform sender {} := by
  refine fun _ ↦ ⟨[], [], ⟨.init, fun r _ ↦ .empty [], fun r _ ↦ rfl⟩, ?_⟩
  rfl

/-- A handler that leaves the queue as it is. -/
theorem serve {handler : ServerM Unit} {handled : List (Direction × List Position)}
    (hup : S.fault = none)
    (hqueue : (Server.after (handler.run S.server)).m_qMessagesIn = S.server.m_qMessagesIn)
    (hends : Server.Ends (fun s' ↦ ∃ refs', s'.Forwards platform sender handled refs')
      (fun _ _ ↦ True) (handler.run S.server))
    (hsent : reportsOf (idOf sender) ((S.peers sender).sent.map (packetOf platform)) =
      handled ++ reportsOf (idOf sender) ((S.upward sender).map (packetOf platform))) :
    Relays platform sender (S.serve handler) := by
  intro hnext
  obtain ⟨refs, hforwards⟩ := (Holds.serve hup hends).up hnext
  refine ⟨refs, handled, hforwards, ?_⟩
  rw [peers_serve, upward_serve hqueue]
  exact hsent

/-- A client sends more, which is on its way up from then on. -/
theorem setPeer (h : Relays platform sender S) (hsound : Sound platform S) {peer : Peer}
    (hsent : (S.peers r).sent <+: peer.sent) : Relays platform sender (S.setPeer r peer) := by
  intro hup
  obtain ⟨refs, handled, hforwards, hsplit⟩ := h hup
  refine ⟨refs, handled, hforwards, ?_⟩
  by_cases heq : sender = r
  · subst heq
    obtain ⟨more, hmore⟩ := hsent
    have hunread := Reader.unread_append (hsound.readers sender).frames_le more
    simp only [System.setPeer, upward, Function.update_self, ← hmore, hunread]
    rw [List.map_append, reportsOf_append, hsplit, ← List.append_assoc, List.map_append,
      reportsOf_append, List.append_assoc]
    rfl
  · simp only [System.setPeer, upward, ne_eq, heq, not_false_eq_true, Function.update_of_ne]
    exact hsplit

theorem update (h : Relays platform sender S) (hsound : Sound platform S) (hup : S.fault = none)
    (hsender : sender < 2 ^ 32) {env : Env} {msg : Msg} {rest : List (ConnRef × Msg)}
    (hqueue : S.server.m_qMessagesIn = (r, msg) :: rest) :
    Relays platform sender ({ S with server.m_qMessagesIn := rest }.serve
      (Server.onMessage platform env depth r msg)) := by
  obtain ⟨refs, handled, hforwards, hsplit⟩ := h hup
  obtain ⟨hvalidated, hsends⟩ := hsound.queued r msg (by rw [hqueue]; exact List.mem_cons_self ..)
  have hpopped : Server.Forwards platform sender handled
      { S.server with m_qMessagesIn := rest } refs :=
    (Server.Forwards.indifferent platform sender handled).fields hforwards _ _ _
  refine serve hup (Server.untouched_onMessage platform env depth r msg _).queue
    (hpopped.ends_onMessage hsender hvalidated hsends) ?_
  rw [List.append_assoc, ← reportsOf_append, ← List.map_append, ← upward_update hqueue]
  exact hsplit

theorem step (h : Relays platform sender S) (hsound : Sound platform S) (hsender : sender < 2 ^ 32)
    {e : Event} (hframed : Framed platform S e) (hcount : Countable S e)
    (hstep : S.step platform depth e = some S') : Relays platform sender S' := by
  cases hpeer : e.peer with
  | some r =>
      rw [step_of_peer hpeer] at hstep
      obtain ⟨next, hnext, rfl⟩ := Option.map_eq_some_iff.mp hstep
      exact h.setPeer hsound (sent_prefix_of_stepPeer hnext)
  | none =>
      cases moves_of_step hstep with
      | accept hup =>
          intro _
          obtain ⟨refs, handled, hforwards, hsplit⟩ := h hup
          cases haccept : S.server.onClientConnect with
          | true =>
              refine ⟨_, handled, hforwards.onAccept haccept hcount, ?_⟩
              rw [upward, Server.queue_onAccept]
              exact hsplit
          | false =>
              rw [Server.onAccept, haccept, if_neg (by simp)]
              exact ⟨refs, handled, hforwards, hsplit⟩
      | @validate r env hup hopen =>
          obtain ⟨refs, handled, hforwards, hsplit⟩ := h hup
          have hmem := hforwards.mem_of_isConnected hopen
          exact serve hup (Server.untouched_onClientValidated platform env depth r _).queue
            (hforwards.ends_onClientValidated hmem hframed) hsplit
      | @close r =>
          intro hup
          obtain ⟨refs, handled, hforwards, hsplit⟩ := h hup
          exact ⟨refs, handled, hforwards.congr (hforwards.toMembership.close r) (fun _ ↦ rfl)
            (fun _ ↦ .rfl) rfl, hsplit⟩
      | @read r msg reader hup _ _ hread =>
          intro _
          obtain ⟨refs, handled, hforwards, hsplit⟩ := h hup
          obtain ⟨rest, hunread, hrest, -⟩ := hsound.read_cases hframed hread
          refine ⟨refs, handled, (Server.Forwards.indifferent platform sender handled).fields
            hforwards _ _ _, ?_⟩
          rw [upward_read hunread hrest]
          exact hsplit
      | update hup hqueue => exact h.update hsound hup hsender hqueue
      | _ => cases hpeer

end Relays

theorem Relays.of_reaches {platform : Platform} {depth : ℕ} {S : System} {sender : ConnRef}
    (h : Reaches (System.step platform depth)
      (fun S e ↦ Framed platform S e ∧ Countable S e) {} S) (hsender : sender < 2 ^ 32) :
    S.Relays platform sender := by
  have hstart : Sound platform {} ∧ System.Relays platform sender {} :=
    ⟨.start platform, .start platform sender⟩
  refine (h.invariant (I := fun S ↦ Sound platform S ∧ S.Relays platform sender) hstart ?_).2
  rintro S e S' ⟨hsound, hrelays⟩ hallowed hstep
  exact ⟨hsound.step hallowed.1 hstep, hrelays.step hsound hsender hallowed.1 hallowed.2 hstep⟩

/-- What one client learns of another is a block of what that one has reported:
nothing is reordered, doubled or left out in between.  The block reaches up to
the last report once nothing is on its way between the two. -/
theorem reports_of_reaches {platform : Platform} {depth : ℕ} {S : System}
    (h : Reaches (System.step platform depth)
      (fun S e ↦ Framed platform S e ∧ Countable S e) {} S) (hup : S.fault = none)
    {sender r : ConnRef} (hsender : sender < S.server.approved) (hne : r ≠ sender) :
    reportsOf (idOf sender) ((S.peers r).learnt platform) <:+:
        reportsOf (idOf sender) ((S.peers sender).sent.map (packetOf platform)) ∧
      (S.server.isConnected r = true → S.Drained r → S.upward sender = [] →
        reportsOf (idOf sender) ((S.peers r).learnt platform) <:+
          reportsOf (idOf sender) ((S.peers sender).sent.map (packetOf platform))) := by
  have hfew : S.server.approved ≤ 2 ^ 32 := by
    obtain ⟨refs, handled, hforwards, -⟩ := @Relays.of_reaches platform depth S 0 h (by decide) hup
    exact hforwards.few
  obtain ⟨refs, handled, hforwards, hsplit⟩ :=
    Relays.of_reaches h (Nat.lt_of_lt_of_le hsender hfew) hup
  have hsound := Sound.of_reaches (h.mono fun _ _ h ↦ h.1)
  have hwindow := hforwards.told r hne
  rw [hsplit]
  constructor
  · obtain ⟨rest, hnews⟩ := (hsound.streams r).exists_learnt_append
    rw [← Server.news_eq] at hnews
    rw [hnews, reportsOf_append] at hwindow
    exact List.infix_append_of_infix_left
      (List.infix_append_left.trans hwindow.block)
  · intro hopen hdrained hnone
    have hstays : ¬ S.server.Left r :=
      ((hforwards.mem_iff r).mp (hforwards.mem_of_isConnected hopen)).2
    rw [hnone, (hsound.streams r).learnt_eq hdrained.queue hdrained.stream, List.map_nil,
      reportsOf_nil, List.append_nil]
    exact hwindow.recent hstays

theorem reports_of_reaches_hearsOfMove :
    ∃ S, run (guarded (System.step .x64 8)
        fun S e ↦ Framed .x64 S e ∧ Countable S e) {} hearsOfMove = some S ∧
      reportsOf (idOf 0) ((S.peers 1).learnt .x64) ≠ [] ∧
        reportsOf (idOf 0) ((S.peers 1).learnt .x64) <:+
          reportsOf (idOf 0) ((S.peers 0).sent.map (packetOf .x64)) := by
  obtain ⟨S, hrun, hcheck⟩ := exists_run_of_any
    (P := fun S : System ↦ decide (S.fault = none ∧ 0 < S.server.approved ∧
      S.server.isConnected 1 = true ∧ S.Drained 1 ∧ S.upward 0 = [] ∧
        reportsOf (idOf 0) ((S.peers 1).learnt .x64) ≠ []))
    (show (run (guarded (System.step .x64 8)
      fun S e ↦ Framed .x64 S e ∧ Countable S e) {} hearsOfMove).any _ = true by decide +kernel)
  obtain ⟨hup, hsender, hopen, hdrained, hnone, hlearnt⟩ := of_decide_eq_true hcheck
  have hreports := @reports_of_reaches .x64 8 S (reaches_of_guarded hrun) hup 0 1 hsender (by decide)
  exact ⟨S, hrun, hlearnt, hreports.2 hopen hdrained hnone⟩

end System

end SnekCpp
