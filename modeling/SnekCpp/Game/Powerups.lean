import SnekCpp.Game.Replicas

/-!
# Agreement about the powerups

The clients stay the same.  A client that eats a powerup removes it at once and
the server leaves the client out when it tells the others; the client's removal
and the server's messages may cross.
-/

namespace SnekCpp

open Lib Networking

/-- The positions of the powerups that messages say are eaten. -/
def eatenCells (platform : Platform) (msgs : List Msg) : Multiset Position :=
  ↑((msgs.filterMap fun msg ↦ (packetOf platform msg).eaten?).map PowerupData.position)

theorem eatenCells_append (platform : Platform) (xs ys : List Msg) :
    eatenCells platform (xs ++ ys) = eatenCells platform xs + eatenCells platform ys := by
  rw [eatenCells, List.filterMap_append, List.map_append]
  rfl

theorem eatenCells_singleton {platform : Platform} {msg : Msg} {packet : Packet}
    (h : packetOf platform msg = packet) :
    eatenCells platform [msg] = ↑((packet.eaten?.map PowerupData.position).toList) := by
  subst h
  rw [eatenCells]
  cases hpacket : (packetOf platform msg).eaten? with
  | none => simp [hpacket]
  | some powerup => simp [hpacket]

/-- The messages of one client in the server's queue. -/
def queuedFrom (m_qMessagesIn : List (ConnRef × Msg)) (r : ConnRef) : List Msg :=
  (m_qMessagesIn.filter fun item ↦ item.1 = r).map Prod.snd

namespace System

/-- What a client has sent and the server has not handled. -/
def upward (S : System) (r : ConnRef) : List Msg :=
  queuedFrom S.server.m_qMessagesIn r ++ (S.readers r).unread (S.peers r).sent

/-- What the server has sent and a client has not handled. -/
def pending (platform : Platform) (S : System) (r : ConnRef) : List Packet :=
  (S.server.news platform r).drop (S.peers r).handled.length

/-- The server runs, and all queues and streams are drained. -/
structure Quiet (S : System) (refs : List ConnRef) : Prop where
  up : S.fault = none
  queue : S.server.m_qMessagesIn = []
  drained : ∀ r ∈ refs, S.Drained r
  streams : ∀ r ∈ refs, (S.readers r).consumed = (S.upstream r).length

instance (S : System) (refs : List ConnRef) : Decidable (S.Quiet refs) :=
  decidable_of_iff (S.fault = none ∧ S.server.m_qMessagesIn = [] ∧ (∀ r ∈ refs, S.Drained r) ∧
    ∀ r ∈ refs, (S.readers r).consumed = (S.upstream r).length)
    ⟨fun h ↦ ⟨h.1, h.2.1, h.2.2.1, h.2.2.2⟩, fun h ↦ ⟨h.up, h.queue, h.drained, h.streams⟩⟩

def PowerupsAgree (S : System) (refs : List ConnRef) : Prop :=
  ∀ r ∈ refs, (S.peers r).client.powerupCells = S.server.powerupCells

instance (S : System) (refs : List ConnRef) : Decidable (S.PowerupsAgree refs) :=
  inferInstanceAs (Decidable (∀ r ∈ refs, _))

/-- The server's connections are `refs`, each of a validated client, and the
clients agree with the server about the powerups. -/
structure Settled (S : System) (refs : List ConnRef) : Prop extends S.Quiet refs where
  listed : S.server.Listed refs
  opens : ∀ r ∈ refs, S.server.IsOpen r
  validated : ∀ r ∈ refs, S.server.Validated r
  connected : ∀ r ∈ refs, (S.peers r).isConnected = true
  agree : S.PowerupsAgree refs

instance (S : System) (refs : List ConnRef) : Decidable (S.Settled refs) :=
  decidable_of_iff (S.Quiet refs ∧ (S.server.m_deqConnections = refs.map some ∧ refs.Nodup) ∧
    (∀ r ∈ refs, S.server.IsOpen r) ∧ (∀ r ∈ refs, S.server.Validated r) ∧
      (∀ r ∈ refs, (S.peers r).isConnected = true) ∧ S.PowerupsAgree refs)
    ⟨fun h ↦ ⟨h.1, ⟨h.2.1.1, h.2.1.2⟩, h.2.2.1, h.2.2.2.1, h.2.2.2.2.1, h.2.2.2.2.2⟩,
      fun h ↦ ⟨h.toQuiet, ⟨h.listed.deque, h.listed.nodup⟩, h.opens, h.validated, h.connected,
        h.agree⟩⟩

end System

/-- Nobody joins, and none of the clients leaves. -/
def SameClients (refs : List ConnRef) : Event → Prop
  | .accept => False
  | .validate _ _ => False
  | .close r => r ∉ refs
  | .hangUp r => r ∉ refs
  | _ => True

instance (refs : List ConnRef) (e : Event) : Decidable (SameClients refs e) := by
  rcases e <;> unfold SameClients <;> infer_instance

/-- No client eats a powerup while one is on its way to it for the same cell, and
the server draws no cell of which a client has told it that it has eaten there. -/
def KeepsPowerups (platform : Platform) (refs : List ConnRef) (S : System) : Event → Prop
  | .frame r => r ∈ refs → ∀ pos ∈ (S.peers r).client.nextHead,
      pos ∈ (S.peers r).client.powerupCells →
        ∀ change ∈ (S.pending platform r).flatMap Packet.changes, ¬ change.Brings pos
  | .update env => ∀ item ∈ S.server.m_qMessagesIn.head?,
      ∀ powerup ∈ (packetOf platform item.2).eaten?, ∀ pos ∈ (S.server.eaten powerup).drawn env,
        ∀ r ∈ refs, pos ∉ eatenCells platform
          (({ S with server.m_qMessagesIn := S.server.m_qMessagesIn.tail } : System).upward r)
  | _ => True

instance (platform : Platform) (refs : List ConnRef) (S : System) (e : Event) :
    Decidable (KeepsPowerups platform refs S e) := by
  rcases e <;> unfold KeepsPowerups <;> infer_instance

/-! ## What a step leaves -/

theorem queuedFrom_append (xs ys : List (ConnRef × Msg)) (r : ConnRef) :
    queuedFrom (xs ++ ys) r = queuedFrom xs r ++ queuedFrom ys r := by
  rw [queuedFrom, List.filter_append, List.map_append]
  rfl

theorem queuedFrom_cons (r ref : ConnRef) (msg : Msg) (rest : List (ConnRef × Msg)) :
    queuedFrom ((ref, msg) :: rest) r = (if ref = r then [msg] else []) ++ queuedFrom rest r := by
  unfold queuedFrom
  by_cases heq : ref = r
  · simp [heq]
  · simp [heq]

namespace System

/-- The replicas of the clients lag behind the server. -/
structure Follows (platform : Platform) (refs : List ConnRef) (S : System) : Prop where
  leads : S.server.Leads platform (fun r ↦ (S.peers r).learnt platform)
    (fun r ↦ (S.peers r).client.powerupCells) (fun r ↦ eatenCells platform (S.upward r)) refs
  connected : ∀ r ∈ refs, (S.peers r).isConnected = true

theorem fault_eq_none_of_step {platform : Platform} {depth : ℕ} {S S' : System} {e : Event}
    (h : S.step platform depth e = some S') (hup : S'.fault = none) : S.fault = none := by
  cases moves_of_step h with
  | accept hS | validate hS | read hS | update hS => exact hS
  | _ => exact hup

namespace Follows

variable {platform : Platform} {depth : ℕ} {refs : List ConnRef} {S S' : System}

theorem of_settled (hsound : Sound platform S) (h : S.Settled refs) : S.Follows platform refs where
  leads := by
    refine ⟨h.listed, h.opens, fun r hr ↦ ⟨[], ?_, ?_⟩⟩
    · obtain ⟨hstream, hqueue⟩ := h.drained r hr
      rw [List.append_nil, (hsound.streams r).learnt_eq hqueue hstream]
      rfl
    · have hnone : S.upward r = [] := by
        rw [upward, h.queue, (hsound.readers r).unread_eq_nil (h.streams r hr)]
        rfl
      rw [hnone]
      exact .of_eq (h.agree r hr)
  connected := h.connected

/-- When nothing is on its way any more, there is nothing to lag behind. -/
theorem agree (h : S.Follows platform refs) (hsound : Sound platform S) (hquiet : S.Quiet refs) :
    S.PowerupsAgree refs := by
  intro r hr
  obtain ⟨pending, hpending, hlags⟩ := h.leads.lags r hr
  obtain ⟨hstream, hqueue⟩ := hquiet.drained r hr
  have hlearnt : S.server.news platform r = (S.peers r).learnt platform :=
    ((hsound.streams r).learnt_eq hqueue hstream).symm
  have hnone : S.upward r = [] := by
    rw [upward, hquiet.queue, (hsound.readers r).unread_eq_nil (hquiet.streams r hr)]
    rfl
  rw [hlearnt, List.self_eq_append_right] at hpending
  rw [hpending, hnone] at hlags
  exact hlags.eq

theorem setPeer (h : S.Follows platform refs) {r : ConnRef} {peer : Peer}
    (hconnected : r ∈ refs → peer.isConnected = true)
    (hlags : r ∈ refs → ∀ pending, S.server.news platform r =
      (S.peers r).learnt platform ++ pending →
        Lags S.server.powerupCells (eatenCells platform (S.upward r))
          (S.peers r).client.powerupCells (pending.flatMap Packet.changes) →
            ∃ pending', S.server.news platform r = peer.learnt platform ++ pending' ∧
              Lags S.server.powerupCells
                (eatenCells platform (queuedFrom S.server.m_qMessagesIn r ++
                  (S.readers r).unread peer.sent))
                peer.client.powerupCells (pending'.flatMap Packet.changes)) :
    (S.setPeer r peer).Follows platform refs := by
  refine ⟨⟨⟨h.leads.deque, h.leads.nodup⟩, h.leads.opens, ?_⟩, ?_⟩
  · apply @forall_setPeer S r peer fun other p ↦ other ∈ refs → ∃ pending,
      S.server.news platform other = p.learnt platform ++ pending ∧
        Lags S.server.powerupCells
          (eatenCells platform (queuedFrom S.server.m_qMessagesIn other ++
            (S.readers other).unread p.sent))
          p.client.powerupCells (pending.flatMap Packet.changes)
    · intro hr
      obtain ⟨pending, hpending, hlag⟩ := h.leads.lags r hr
      exact hlags hr pending hpending hlag
    · exact fun other _ hr ↦ h.leads.lags other hr
  · apply @forall_setPeer S r peer fun other p ↦ other ∈ refs → p.isConnected = true
    · exact hconnected
    · exact fun other _ hr ↦ h.connected other hr

theorem sent_sendAny {peer : Peer} (hconnected : peer.isConnected = true) (msg : Option Msg) :
    (peer.sendAny msg).sent = peer.sent ++ msg.toList := by
  cases msg with
  | none => exact (List.append_nil _).symm
  | some m => rw [Peer.sendAny, Peer.send, if_pos hconnected]; rfl

/-- A client plays on, and what it says it has eaten is missing in its replica. -/
theorem plays (h : S.Follows platform refs) (hsound : Sound platform S) {r : ConnRef}
    {client : SnakeClient} {phase : Phase} {msg : Option Msg}
    (hcells : r ∈ refs → ∀ removed,
      Lags S.server.powerupCells removed (S.peers r).client.powerupCells
        ((S.pending platform r).flatMap Packet.changes) →
          Lags S.server.powerupCells (removed + eatenCells platform msg.toList)
            client.powerupCells ((S.pending platform r).flatMap Packet.changes)) :
    (S.setPeer r ({ S.peers r with client, phase }.sendAny msg)).Follows platform refs := by
  apply h.setPeer
  · intro hr
    have hkept : ∀ peer : Peer, (peer.sendAny msg).isConnected = peer.isConnected := by
      intro peer
      cases msg with
      | none => rfl
      | some m =>
          simp only [Peer.sendAny, Peer.send]
          split <;> rfl
    rw [hkept]
    exact h.connected r hr
  · intro hr pending hpending hlag
    have hnext : S.pending platform r = pending := by
      have hlength : ((S.peers r).learnt platform).length = (S.peers r).handled.length :=
        List.length_map _
      rw [System.pending, hpending, ← hlength, List.drop_left]
    refine ⟨pending, ?_, ?_⟩
    · rw [Peer.learnt, Peer.handled_sendAny]
      exact hpending
    · have hconnected : ({ S.peers r with client, phase } : Peer).isConnected = true :=
        h.connected r hr
      rw [sent_sendAny hconnected, Reader.unread_append (hsound.readers r).frames_le,
        ← List.append_assoc, eatenCells_append, Peer.client_sendAny]
      have hplayed := hcells hr _ (hnext ▸ hlag)
      rwa [hnext] at hplayed

/-- The client does not touch its powerups, and tells of something else. -/
theorem playsOther (h : S.Follows platform refs) (hsound : Sound platform S) {r : ConnRef}
    {client : SnakeClient} {phase : Phase} {msg : Option Msg}
    (hpowerups : client.powerups = (S.peers r).client.powerups)
    (hmsg : eatenCells platform msg.toList = 0) :
    (S.setPeer r ({ S.peers r with client, phase }.sendAny msg)).Follows platform refs := by
  apply h.plays hsound
  intro _ removed hlag
  rwa [hmsg, add_zero, SnakeClient.powerupCells, hpowerups]

theorem frame (h : S.Follows platform refs) (hsound : Sound platform S) {r : ConnRef}
    {client : SnakeClient} {msg : Option Msg} (hkeeps : KeepsPowerups platform refs S (.frame r))
    (hframe : (S.peers r).client.frame = .ok (client, msg)) :
    (S.setPeer r ({ S.peers r with client, phase := .handling }.sendAny msg)).Follows
      platform refs := by
  apply h.plays hsound
  intro hr removed hlag
  rcases SnakeClient.powerupCells_frame hframe with
    ⟨hcells, rfl⟩ | ⟨powerup, hhead, hmem, hcells, rfl⟩
  · rw [hcells, show eatenCells platform (none : Option Msg).toList = 0 from rfl, add_zero]
    exact hlag
  · have htold := eatenCells_singleton (@Carries.powerupEatenMsg platform powerup).packetOf_eq
    rw [hcells, show eatenCells platform (some (SnakeClient.powerupEatenMsg powerup)).toList =
      {powerup.position} from htold, add_comm, Multiset.singleton_add]
    exact hlag.remove (hkeeps hr _ hhead hmem)

theorem handle (h : S.Follows platform refs) {r : ConnRef} {msg : Msg} {rest : List Msg}
    {client : SnakeClient} (hsound : Sound platform S)
    (hqueue : (S.peers r).m_qMessagesIn = msg :: rest)
    (hhandle : (S.peers r).client.handleMessage platform msg = .ok client) :
    (S.setPeer r { S.peers r with
      client
      m_qMessagesIn := rest
      handled := (S.peers r).handled ++ [msg] }).Follows platform refs := by
  apply h.setPeer
  · exact h.connected r
  · intro hr pending hpending hlag
    obtain ⟨more, hmore⟩ := (hsound.streams r).exists_learnt_append
    rw [← Server.news_eq, hpending, List.append_cancel_left_eq, hqueue, List.map_cons,
      List.cons_append] at hmore
    refine ⟨rest.map (packetOf platform) ++ more, ?_, ?_⟩
    · rw [hpending, hmore, Peer.learnt, Peer.learnt, List.map_append, List.append_assoc]
      rfl
    · have hclient : client = (S.peers r).client.handlePacket (packetOf platform msg) := by
        obtain ⟨packet, hdecode, rfl⟩ := SnakeClient.handleMessage_cases hhandle
        rw [packetOf, hdecode]
        rfl
      rw [hmore, List.flatMap_cons] at hlag
      rw [hclient, SnakeClient.powerupCells_handlePacket]
      exact hlag.hear

theorem read (h : S.Follows platform refs) {r : ConnRef} {msg : Msg} {rest : List Msg}
    {reader : Reader MessageTypes} (hunread : (S.readers r).unread (S.peers r).sent = msg :: rest)
    (hrest : reader.unread (S.peers r).sent = rest) :
    Follows platform refs { S with
      server.m_qMessagesIn := S.server.m_qMessagesIn ++ [(r, msg)]
      readers := Function.update S.readers r reader } := by
  have hupward : ∀ other, ({ S with
      server.m_qMessagesIn := S.server.m_qMessagesIn ++ [(r, msg)]
      readers := Function.update S.readers r reader } : System).upward other = S.upward other := by
    intro other
    simp only [upward, queuedFrom_append, queuedFrom_cons]
    by_cases heq : r = other
    · subst heq
      simp [hunread, hrest, queuedFrom]
    · have hne : other ≠ r := fun h ↦ heq h.symm
      simp [heq, hne, queuedFrom]
  refine ⟨⟨⟨h.leads.deque, h.leads.nodup⟩, h.leads.opens, fun other hr ↦ ?_⟩, h.connected⟩
  simp only [hupward]
  exact h.leads.lags other hr

theorem close (h : S.Follows platform refs) {r : ConnRef} (hr : r ∉ refs) :
    Follows platform refs
      { S with server.isConnected := Function.update S.server.isConnected r false } := by
  refine ⟨⟨⟨h.leads.deque, h.leads.nodup⟩, fun other hother ↦ ?_, h.leads.lags⟩, h.connected⟩
  have hne : other ≠ r := fun heq ↦ hr (heq ▸ hother)
  exact (Function.update_of_ne hne _ _).trans (h.leads.opens other hother)

theorem update (h : S.Follows platform refs) (hsound : Sound platform S) (depth : ℕ) {env : Env}
    {r : ConnRef} {msg : Msg} {rest : List (ConnRef × Msg)} (hqueue : S.server.m_qMessagesIn = (r, msg) :: rest)
    (hkeeps : KeepsPowerups platform refs S (.update env)) :
    Server.Ends (fun s' ↦ s'.Leads platform (fun r ↦ (S.peers r).learnt platform)
        (fun r ↦ (S.peers r).client.powerupCells)
        (fun r ↦ eatenCells platform
          (({ S with server.m_qMessagesIn := rest } : System).upward r)) refs)
      (fun _ _ ↦ True)
      ((Server.onMessage platform env depth r msg).run { S.server with m_qMessagesIn := rest }) := by
  have hpopped : ∀ other, eatenCells platform (S.upward other) =
      eatenCells platform (if r = other then [msg] else []) +
        eatenCells platform (({ S with server.m_qMessagesIn := rest } : System).upward other) := by
    intro other
    rw [upward, hqueue, queuedFrom_cons, List.append_assoc, eatenCells_append]
    rfl
  have hleads : Server.Leads platform (fun r ↦ (S.peers r).learnt platform)
      (fun r ↦ (S.peers r).client.powerupCells) (fun r ↦ eatenCells platform (S.upward r))
      { S.server with m_qMessagesIn := rest } refs :=
    h.leads.congr rfl rfl (fun _ ↦ rfl) rfl
  have hother : eatenCells platform [msg] = 0 → ∀ other, eatenCells platform (S.upward other) =
      eatenCells platform (({ S with server.m_qMessagesIn := rest } : System).upward other) := by
    intro hnone other
    rw [hpopped other]
    by_cases heq : r = other
    · rw [if_pos heq, hnone, zero_add]
    · rw [if_neg heq]
      exact zero_add _
  have hmem := (hsound.queued r msg (by rw [hqueue]; exact List.mem_cons_self ..)).2
  cases hmem with
  | updatePlayer hid hsize =>
      simp only [← hother (eatenCells_singleton (Carries.updatePlayerMsg hsize).packetOf_eq)]
      exact hleads.updatePlayer hsize
  | startGame =>
      simp only [← hother (eatenCells_singleton (packetOf_startGame rfl))]
      exact hleads.startGame rfl
  | powerupEaten powerup =>
      have hpacket := (@Carries.powerupEatenMsg platform powerup).packetOf_eq
      refine hleads.powerupEaten ?_ (fun other hne ↦ ?_) fun pos hpos other hr ↦ ?_
      · rw [hpopped r, if_pos rfl, eatenCells_singleton hpacket]
        exact Multiset.singleton_add _ _
      · rw [hpopped other, if_neg (fun heq ↦ hne heq.symm)]
        exact zero_add _
      · have hdrawn : (({ S.server with m_qMessagesIn := rest } : Server).eaten powerup).drawn env =
            (S.server.eaten powerup).drawn env := Server.drawn_congr rfl rfl
        have hcell : pos ∈ (S.server.eaten powerup).drawn env := hdrawn ▸ hpos
        have hfresh := hkeeps (r, Server.powerupEatenMsg powerup) (by rw [hqueue]; rfl) powerup
          (by rw [hpacket]; rfl) pos hcell other hr
        rwa [hqueue] at hfresh

theorem step (h : S.Follows platform refs) (hsound : Sound platform S) {e : Event}
    (hframed : Framed platform S e) (hsame : SameClients refs e)
    (hkeeps : KeepsPowerups platform refs S e) (hstep : S.step platform depth e = some S')
    (hup : S'.fault = none) : S'.Follows platform refs := by
  cases moves_of_step hstep with
  | accept => exact hsame.elim
  | validate => exact hsame.elim
  | close => exact h.close hsame
  | read _ _ _ hread =>
      obtain ⟨rest, hunread, hrest, -, -⟩ := hsound.read_cases hframed hread
      exact h.read hunread hrest
  | @update env r msg rest _ hqueue =>
      have hserved := h.update hsound depth hqueue hkeeps
      have hkept := Server.only_onMessage platform env depth r msg
        { S.server with m_qMessagesIn := rest }
      unfold serve at hup ⊢
      unfold Server.OnlyFrom at hkept
      cases hrun : (Server.onMessage platform env depth r msg).run
          { S.server with m_qMessagesIn := rest } with
      | error fault s' => simp [hrun] at hup
      | ok u s' =>
          rw [hrun] at hserved hkept
          refine ⟨?_, h.connected⟩
          have hqueued : s'.m_qMessagesIn = rest := hkept.queue
          simp only [upward, hqueued]
          exact hserved
  | hangUp r => exact h.setPeer (fun hr ↦ absurd hr hsame) fun hr ↦ absurd hr hsame
  | @receive r msg reader hopen hread =>
      exact h.setPeer (h.connected r) fun _ pending hpending hlag ↦ ⟨pending, hpending, hlag⟩
  | handle hqueue _ hhandle => exact h.handle hsound hqueue hhandle
  | @enterGame r _ _ =>
      exact h.setPeer (h.connected r) fun _ pending hpending hlag ↦ ⟨pending, hpending, hlag⟩
  | frame _ hframe => exact h.frame hsound hkeeps hframe
  | @updateServer r client msg _ hupdate =>
      obtain ⟨hpowerups, direction, hmsg⟩ := SnakeClient.updateServer_cases hupdate
      have hsize : msg.body.length < 2 ^ 32 := by
        have hsize : ((S.peers r).client.updateServer platform).2.body.length < 2 ^ 32 := hframed
        rwa [hupdate] at hsize
      rw [hmsg] at hsize
      have hother : eatenCells platform (some msg).toList = 0 := by
        rw [hmsg]
        exact eatenCells_singleton (Carries.updatePlayerMsg hsize).packetOf_eq
      exact h.playsOther hsound hpowerups hother
  | @key r key press client msg _ hkey =>
      obtain ⟨hpowerups, hmsg⟩ := SnakeClient.keyCallback_cases hkey
      apply h.playsOther hsound hpowerups
      rcases hmsg with rfl | rfl
      · rfl
      · exact eatenCells_singleton (packetOf_startGame rfl)

end Follows

end System

/-- From any settled state on, the powerups agree whenever all queues and streams
are drained, in a run in which no client eats where a powerup is on its way to it
and none appears where a client has eaten. -/
theorem powerupsAgree_of_reaches {platform : Platform} {depth : ℕ} {S₀ S : System}
    {refs : List ConnRef} (hstart : Reaches (System.step platform depth) (Framed platform) {} S₀)
    (hsettled : S₀.Settled refs)
    (h : Reaches (System.step platform depth)
      (fun S e ↦ Framed platform S e ∧ SameClients refs e ∧ KeepsPowerups platform refs S e) S₀ S)
    (hquiet : S.Quiet refs) : S.PowerupsAgree refs := by
  have hsound := Sound.of_reaches hstart
  have hinvariant : Sound platform S ∧ (S.fault = none → S.Follows platform refs) := by
    refine h.invariant (I := fun S ↦ Sound platform S ∧ (S.fault = none → S.Follows platform refs))
      ⟨hsound, fun _ ↦ .of_settled hsound hsettled⟩ ?_
    rintro T e U ⟨hT, hfollows⟩ ⟨hframed, hsame, hkeeps⟩ hstep
    refine ⟨hT.step hframed hstep, fun hup ↦ ?_⟩
    exact (hfollows (System.fault_eq_none_of_step hstep hup)).step hT hframed hsame hkeeps hstep hup
  exact (hinvariant.2 hquiet.up).agree hinvariant.1 hquiet

/-- Draws `pos` if it is free. -/
def Env.placing (pos : Position) : Env :=
  { Env.plain with
    draw := fun positions ↦ if pos ∈ positions then positions.idxOf pos else 0
    draw_lt := fun positions h ↦ by
      split
      · next hmem => exact List.idxOf_lt_length_of_mem hmem
      · exact List.length_pos_iff.mpr h }

/-- A client reads and handles so many messages. -/
def listen (r : ConnRef) (n : ℕ) : List Event :=
  List.replicate n (.receive r) ++ List.replicate n (.handle r)

/-- Six clients take the spawnpoints and leave; the next two start in the corner,
and the first one of them eats what the snapshots have put there. -/
def twoStay : List Event :=
  let turn (key : SnakeClient.Key) : List Event := [.key 6 key true, .frame 6, .updateServer 6]
  let env := Env.placing ⟨0, 29⟩
  List.flatten [(List.range 6).flatMap fun r ↦ [.accept, .validate r env, .close r],
    [.accept, .accept, .validate 6 env, .validate 7 env], listen 6 3, listen 7 3,
    [.enterGame 6], turn .d, turn .s, turn .a, [.key 6 .w true, .frame 6],
    List.replicate 4 (.read 6), List.replicate 4 (.update (.placing ⟨5, 5⟩)), listen 7 5, listen 6 1]

/-- Both eat the same powerup, and the next one is drawn at `pos`. -/
def bothEat (pos : Position) : List Event :=
  [.enterGame 7, .frame 7, .updateServer 7, .updateServer 6, .frame 6, .read 7, .read 7,
    .update (.placing pos), .update .plain, .read 6, .read 6, .update .plain,
      .update (.placing ⟨7, 7⟩)] ++ listen 6 4 ++ [.frame 7] ++ listen 7 4

theorem powerupsAgree_bothEat_elsewhere :
    ∃ S₀ S, run (guarded (System.step .x64 8) (Framed .x64)) {} twoStay = some S₀ ∧
      run (guarded (System.step .x64 8) fun S e ↦
        Framed .x64 S e ∧ SameClients [6, 7] e ∧ KeepsPowerups .x64 [6, 7] S e) S₀
          (bothEat ⟨9, 9⟩) = some S ∧ S.PowerupsAgree [6, 7] := by
  obtain ⟨S₀, hstart, hcheck⟩ := exists_run_of_any
    (P := fun S₀ : System ↦ decide (S₀.Settled [6, 7]) &&
      (run (guarded (System.step .x64 8) fun S e ↦
        Framed .x64 S e ∧ SameClients [6, 7] e ∧ KeepsPowerups .x64 [6, 7] S e) S₀
          (bothEat ⟨9, 9⟩)).any fun S : System ↦ decide (S.Quiet [6, 7]))
    (show (run (guarded (System.step .x64 8) (Framed .x64)) {} twoStay).any _ = true by
      decide +kernel)
  obtain ⟨hsettled, hrest⟩ := Bool.and_eq_true_iff.mp hcheck
  obtain ⟨S, hrun, hquiet⟩ := exists_run_of_any hrest
  exact ⟨S₀, S, hstart, hrun, powerupsAgree_of_reaches (reaches_of_guarded hstart)
    (of_decide_eq_true hsettled) (reaches_of_guarded hrun) (of_decide_eq_true hquiet)⟩

/-- The next powerup is drawn where the second client has eaten as well. -/
theorem not_powerupsAgree_bothEat :
    ¬ ∀ S₀ S refs, Reaches (System.step .x64 8) (Framed .x64) {} S₀ → S₀.Settled refs →
      Reaches (System.step .x64 8) (fun S e ↦ Framed .x64 S e ∧ SameClients refs e) S₀ S →
        S.Quiet refs → S.PowerupsAgree refs := by
  intro hagree
  obtain ⟨S₀, hstart, hcheck⟩ := exists_run_of_any
    (P := fun S₀ : System ↦ decide (S₀.Settled [6, 7]) &&
      (run (guarded (System.step .x64 8) fun S e ↦ Framed .x64 S e ∧ SameClients [6, 7] e) S₀
        (bothEat ⟨0, 29⟩)).any fun S : System ↦ decide (S.Quiet [6, 7] ∧ ¬ S.PowerupsAgree [6, 7]))
    (show (run (guarded (System.step .x64 8) (Framed .x64)) {} twoStay).any _ = true by
      decide +kernel)
  obtain ⟨hsettled, hrest⟩ := Bool.and_eq_true_iff.mp hcheck
  obtain ⟨S, hrun, hbad⟩ := exists_run_of_any hrest
  obtain ⟨hquiet, hdisagree⟩ := of_decide_eq_true hbad
  exact hdisagree (hagree S₀ S [6, 7] (reaches_of_guarded hstart) (of_decide_eq_true hsettled)
    (reaches_of_guarded hrun) hquiet)

end SnekCpp
