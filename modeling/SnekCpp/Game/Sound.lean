import SnekCpp.Game.Reporting

/-!
# Streams in step

As long as the server's read loops never meet a message without a body in a
buffer that still holds one, every message on every stream is one frame, every
reader stands between two frames, and every client that plays has been told its
own id.
-/

namespace SnekCpp

open Lib Networking

/-! ## What is sent -/

/-- A message that the server may send to a client. -/
structure Addressed (platform : Platform) (r : ConnRef) (msg : Msg) (packet : Packet) : Prop
    extends Carries platform msg packet where
  /-- A client is told its own id, and that it is a player. -/
  id : ∀ clientID powerups roster, packet = .serverValidation clientID powerups roster →
    clientID = idOf r ∧ clientID ∈ roster.map Prod.fst

theorem Server.Plain.carries {platform : Platform} {msg : Msg} (h : Server.Plain msg) :
    ∃ packet, Carries platform msg packet ∧
      ∀ clientID powerups roster, packet ≠ .serverValidation clientID powerups roster := by
  cases h with
  | removePlayer id => exact ⟨_, .removePlayerMsg id, by simp⟩
  | newPowerup powerup => exact ⟨_, .newPowerupMsg powerup, by simp⟩
  | powerupEaten powerup => exact ⟨_, .powerupEatenMsg powerup, by simp⟩
  | killPlayer id => exact ⟨_, .killPlayerMsg id, by simp⟩

/-- All that the server has sent may be sent. -/
def AllAddressed (platform : Platform) (log : List Effect) : Prop :=
  ∀ r msg, .sent r msg ∈ log → ∃ packet, Addressed platform r msg packet

theorem AllAddressed.append {platform : Platform} {xs ys : List Effect}
    (hx : AllAddressed platform xs) (hy : AllAddressed platform ys) :
    AllAddressed platform (xs ++ ys) := by
  intro r msg hmem
  rcases List.mem_append.mp hmem with hmem | hmem
  · exact hx r msg hmem
  · exact hy r msg hmem

theorem AllAddressed.of_speaks {platform : Platform} {said : Msg} {packet : Packet}
    (hsaid : Carries platform said packet)
    (hid : ∀ clientID powerups roster, packet ≠ .serverValidation clientID powerups roster)
    {effects : List Effect} (h : ∀ e ∈ effects, Server.Speaks said e) :
    AllAddressed platform effects := by
  intro r msg hmem
  rcases h _ hmem with rfl | hplain
  · exact ⟨packet, hsaid, fun _ _ _ heq ↦ absurd heq (hid _ _ _)⟩
  · obtain ⟨p, hcarries, hp⟩ := @Server.Plain.carries platform _ hplain
    exact ⟨p, hcarries, fun _ _ _ heq ↦ absurd heq (hp _ _ _)⟩

/-! ## A client and its stream -/

/-- What the client has read is a beginning of what has been sent to it. -/
structure InStream (platform : Platform) (toClient : List Msg) (peer : Peer) : Prop where
  reader : peer.reader.InStep toClient
  received : (peer.handled ++ peer.m_qMessagesIn).map (Packet.decode platform) =
    (toClient.take peer.reader.frames).map (Packet.decode platform)

namespace InStream

variable {platform : Platform} {toClient : List Msg} {peer : Peer}

theorem start (platform : Platform) (toClient : List Msg) : InStream platform toClient {} where
  reader := ⟨Nat.zero_le _, rfl⟩
  received := rfl

theorem append (h : InStream platform toClient peer) (more : List Msg) :
    InStream platform (toClient ++ more) peer where
  reader := h.reader.append more
  received := by rw [h.received, List.take_append_of_le_length h.reader.frames_le]

theorem send (h : InStream platform toClient peer) (msg : Msg) :
    InStream platform toClient (peer.send msg) := by
  unfold Peer.send
  split
  · exact ⟨h.reader, h.received⟩
  · exact h

theorem sendAny (h : InStream platform toClient peer) (msg : Option Msg) :
    InStream platform toClient (peer.sendAny msg) := by
  cases msg with
  | none => exact h
  | some m => exact h.send m

/-- The next message is decoded as it was sent. -/
theorem receive (h : InStream platform toClient peer)
    (hsent : ∀ msg ∈ toClient, ∃ packet, Carries platform msg packet) {msg : Msg}
    {reader : Reader MessageTypes} (hread : peer.reader.read (stream toClient) = some (msg, reader)) :
    InStream platform toClient
      { peer with m_qMessagesIn := peer.m_qMessagesIn ++ [msg], reader } := by
  cases hunread : peer.reader.unread toClient with
  | nil =>
      rw [h.reader.read_nil hunread] at hread
      cases hread
  | cons next rest =>
      have hmem : next ∈ toClient := by
        have hnext : next ∈ peer.reader.unread toClient := by simp [hunread]
        exact List.mem_of_mem_drop hnext
      obtain ⟨packet, hcarries⟩ := hsent next hmem
      obtain ⟨reader', hread', hstep, hrest, -⟩ := h.reader.read_cons hunread hcarries.framed
      rw [hread', Option.some.injEq, Prod.mk.injEq] at hread
      obtain ⟨rfl, rfl⟩ := hread
      have hdecode : Packet.decode platform (next.received peer.reader.stale) =
          Packet.decode platform next := by
        rw [hcarries.decode_received, hcarries.decode]
      have htake : toClient.take reader'.frames = toClient.take peer.reader.frames ++ [next] := by
        have hbefore : toClient.take peer.reader.frames ++ next :: rest = toClient := by
          rw [← hunread]
          exact List.take_append_drop ..
        have hafter : toClient.take reader'.frames ++ rest = toClient := by
          rw [← hrest]
          exact List.take_append_drop ..
        rw [← List.singleton_append, ← List.append_assoc] at hbefore
        exact List.append_cancel_right (hafter.trans hbefore.symm)
      refine ⟨hstep, ?_⟩
      rw [← List.append_assoc, List.map_append, h.received, htake, List.map_append]
      simp [hdecode]

/-- A handled message was sent to this client. -/
theorem exists_sent (h : InStream platform toClient peer) {msg : Msg}
    (hmem : msg ∈ peer.handled ++ peer.m_qMessagesIn) :
    ∃ next ∈ toClient, Packet.decode platform next = Packet.decode platform msg := by
  have hdecode : Packet.decode platform msg ∈
      (toClient.take peer.reader.frames).map (Packet.decode platform) := by
    rw [← h.received]
    exact List.mem_map_of_mem hmem
  obtain ⟨next, hnext, heq⟩ := List.mem_map.mp hdecode
  exact ⟨next, List.mem_of_mem_take hnext, heq⟩

theorem handle (h : InStream platform toClient peer) {msg : Msg} {rest : List Msg}
    (hqueue : peer.m_qMessagesIn = msg :: rest) (client : SnakeClient) :
    InStream platform toClient { peer with
      client
      m_qMessagesIn := rest
      handled := peer.handled ++ [msg] } where
  reader := h.reader
  received := by
    rw [← h.received, hqueue]
    simp

end InStream

/-! ## The whole system -/

/-- What is on its way is what was sent. -/
structure Carried (platform : Platform) (S : System) : Prop where
  sends : AllAddressed platform S.server.log
  clean : ∀ r msg, (r, msg) ∈ S.server.m_qMessagesIn → ClientSends platform (idOf r) msg
  streams : ∀ r, InStream platform (sentTo S.server.log r) (S.peers r)

structure Sound (platform : Platform) (S : System) : Prop
    extends Reporting platform S, Carried platform S

/-- No message without a body is read into a buffer that still holds one, and no
message outgrows the size field of its header. -/
def Framed (platform : Platform) (S : System) : Event → Prop
  | .read r => ∀ msg ∈ ((S.readers r).unread (S.peers r).sent).head?,
      msg.body = [] → (S.readers r).stale = []
  | .updateServer r => ((S.peers r).client.updateServer platform).2.body.length < 2 ^ 32
  | .validate r env => ∀ spawnpoint ∈ S.server.spawnpoints.getLast?,
      (S.server.snapshotMsg platform env r spawnpoint).body.length < 2 ^ 32
  | _ => True

instance (platform : Platform) (S : System) (e : Event) : Decidable (Framed platform S e) := by
  rcases e <;> unfold Framed <;> infer_instance

theorem Framed.bodiesFit {platform : Platform} {S : System} {e : Event}
    (h : Framed platform S e) : BodiesFit platform S e := by
  cases e with
  | updateServer r => exact h
  | validate r env => exact h
  | _ => trivial

namespace Carried

variable {platform : Platform} {S : System}

theorem start (platform : Platform) : Carried platform {} where
  sends r msg h := by cases h
  clean r msg h := by cases h
  streams r := .start platform _

/-- A step of the server that sends what it may send. -/
theorem ofServer (h : Carried platform S) (server : Server) (effects : List Effect)
    (hlog : server.log = S.server.log ++ effects) (heffects : AllAddressed platform effects)
    (hqueue : ∀ item ∈ server.m_qMessagesIn, item ∈ S.server.m_qMessagesIn)
    (fault : Option Fault) : Carried platform { S with server, fault } where
  sends := by
    rw [hlog]
    exact h.sends.append heffects
  clean r msg hmem := h.clean r msg (hqueue _ hmem)
  streams r := by
    rw [hlog, sentTo_append]
    exact (h.streams r).append _

theorem ofExtends (h : Carried platform S) {server : Server} {said : Msg} {packet : Packet}
    (hextends : Server.Extends said S.server server) (hsaid : Carries platform said packet)
    (hid : ∀ clientID powerups roster, packet ≠ .serverValidation clientID powerups roster)
    (fault : Option Fault) : Carried platform { S with server, fault } := by
  obtain ⟨effects, hlog, hspeaks⟩ := hextends.log
  exact h.ofServer server effects hlog (.of_speaks hsaid hid hspeaks)
    (by rw [hextends.queue]; exact fun _ hmem ↦ hmem) fault

theorem setPeer (h : Carried platform S) {r : ConnRef} {peer : Peer}
    (hpeer : InStream platform (sentTo S.server.log r) peer) :
    Carried platform (S.setPeer r peer) where
  sends := h.sends
  clean := h.clean
  streams := @System.forall_setPeer S r peer
    (fun r' peer ↦ InStream platform (sentTo S.server.log r') peer) hpeer fun r' _ ↦ h.streams r'

/-- A client that goes on without reading or handling. -/
theorem sendAny (h : Carried platform S) (r : ConnRef) (client : SnakeClient) (phase : Phase)
    (msg : Option Msg) :
    Carried platform (S.setPeer r (({ S.peers r with client, phase } : Peer).sendAny msg)) :=
  have hstream : InStream platform (sentTo S.server.log r) { S.peers r with client, phase } :=
    ⟨(h.streams r).reader, (h.streams r).received⟩
  h.setPeer (hstream.sendAny msg)

end Carried

namespace Sound

variable {platform : Platform} {depth : ℕ} {S S' : System}

theorem start (platform : Platform) : Sound platform {} where
  toReporting := .start platform
  toCarried := .start platform

theorem queued (h : Sound platform S) (r : ConnRef) (msg : Msg)
    (hmem : (r, msg) ∈ S.server.m_qMessagesIn) :
    S.server.Validated r ∧ ClientSends platform (idOf r) msg :=
  ⟨(h.heard r msg hmem).1, h.clean r msg hmem⟩

/-- What the server reads is what the client has sent. -/
theorem read_cases (h : Sound platform S) {r : ConnRef} (hframed : Framed platform S (.read r))
    {msg : Msg} {reader : Reader MessageTypes}
    (hread : (S.readers r).read (S.upstream r) = some (msg, reader)) :
    ∃ rest, (S.readers r).unread (S.peers r).sent = msg :: rest ∧
      reader.unread (S.peers r).sent = rest ∧ reader.InStep (S.peers r).sent ∧
        ClientSends platform (idOf r) msg := by
  obtain ⟨next, rest, hunread, hrest, hstep, hmsg, hsends⟩ := h.toReporting.read hread
  have hself : next.received (S.readers r).stale = next := by
    apply (Message.received_eq_self_iff _ _).mpr
    exact hframed next (by simp [hunread])
  rw [hmsg, hself]
  exact ⟨rest, hunread, hrest, hstep, hsends⟩

theorem carried_validate (h : Sound platform S) {r : ConnRef} {env : Env}
    (hopen : S.server.isConnected r = true) (hsizes : BodiesFit platform S (.validate r env)) :
    Carried platform (S.serve (Server.onClientValidated platform env depth r)) := by
  have happroved := h.approvals.connected r hopen
  obtain ⟨server, fault, heq, ⟨-, rfl⟩ | ⟨spawnpoint, hspawn, hextends⟩⟩ :=
    S.serve_onClientValidated platform depth r env
  · rw [heq]
    exact h.toCarried.ofServer (S.server.logged [.validated r]) [.validated r] rfl
      (fun r' msg hmem ↦ by simp at hmem) (fun _ hmem ↦ hmem) fault
  · rw [heq]
    have hsnapshot : Addressed platform r (S.server.snapshotMsg platform env r spawnpoint)
        (.serverValidation (S.server.getID r) S.server.powerups.reverse
          ((env.iteration (S.server.joined env r spawnpoint)).map Packet.rosterEntry).reverse) := by
      refine ⟨.stateMsg (hsizes spawnpoint hspawn), fun clientID powerups roster hpacket ↦ ?_⟩
      injection hpacket with hid _ hroster
      refine ⟨by rw [← hid, h.approvals.getID r happroved], ?_⟩
      have hown : (S.server.getID r, _) ∈ env.iteration (S.server.joined env r spawnpoint) :=
        env.mem_iteration.mpr (AList.lookup_insert _)
      rw [← hid, ← hroster]
      simp only [List.map_reverse, List.mem_reverse, List.map_map, List.mem_map]
      exact ⟨_, hown, rfl⟩
    have hwelcomed : Carried platform { S with
        server := S.server.welcomed platform env r spawnpoint, fault := S.fault } := by
      refine h.toCarried.ofServer (S.server.welcomed platform env r spawnpoint) [.validated r,
        .sent r (S.server.snapshotMsg platform env r spawnpoint)] rfl (fun r' msg hmem ↦ ?_)
        (fun _ hmem ↦ hmem) S.fault
      have hsent : r' = r ∧ msg = S.server.snapshotMsg platform env r spawnpoint := by
        simpa using hmem
      rw [hsent.1, hsent.2]
      exact ⟨_, hsnapshot⟩
    exact hwelcomed.ofExtends hextends (.newPlayerMsg (by simp) _) (by simp) fault

/-- What a client handles is a packet that was sent to it. -/
theorem exists_addressed (h : Sound platform S) {r : ConnRef} {msg : Msg} {rest : List Msg}
    {packet : Packet} (hqueue : (S.peers r).m_qMessagesIn = msg :: rest)
    (hdecode : Packet.decode platform msg = .ok packet) :
    ∃ next, Addressed platform r next packet := by
  obtain ⟨next, hnext, hsame⟩ := (h.streams r).exists_sent
    (List.mem_append_right _ (by rw [hqueue]; exact List.mem_cons_self ..))
  obtain ⟨packet', hpacket⟩ := h.sends r next (mem_sentTo.mp hnext)
  rw [hdecode, hpacket.decode, Except.ok.injEq] at hsame
  exact ⟨next, hsame ▸ hpacket⟩

theorem tellsIDs (h : Sound platform S) (e : Event) : TellsIDs platform S e := by
  cases e with
  | handle r =>
      intro msg hmsg packet hpacket
      obtain ⟨rest, hqueue⟩ := List.head?_eq_some_iff.mp (Option.mem_def.mp hmsg)
      cases hdecode : Packet.decode platform msg with
      | error fault =>
          rw [hdecode] at hpacket
          cases hpacket
      | ok packet' =>
          rw [hdecode] at hpacket
          cases hpacket
          obtain ⟨next, haddressed⟩ := h.exists_addressed hqueue hdecode
          cases packet with
          | serverValidation => exact (haddressed.id _ _ _ rfl).1
          | _ => trivial
  | _ => trivial

theorem carried_step (h : Sound platform S) {e : Event} (hframed : Framed platform S e)
    (hstep : S.step platform depth e = some S') : Carried platform S' := by
  cases System.moves_of_step hstep with
  | accept =>
      exact h.toCarried.ofServer S.server.onAccept [] (by simp) (fun r msg hmem ↦ by cases hmem) (by simp)
        S.fault
  | validate _ hopen => exact h.carried_validate hopen hframed.bodiesFit
  | @close r _ =>
      exact h.toCarried.ofServer
        { S.server with isConnected := Function.update S.server.isConnected r false } [] (by simp)
        (fun r msg hmem ↦ by cases hmem) (fun _ hmem ↦ hmem) S.fault
  | @read r msg reader _ _ hvalidated hread =>
      obtain ⟨rest, -, -, -, hsends⟩ := h.read_cases hframed hread
      refine ⟨h.sends, fun r' msg' hmem ↦ ?_, h.streams⟩
      rcases List.mem_append.mp hmem with hmem | hmem
      · exact h.clean r' msg' hmem
      · rw [List.mem_singleton, Prod.mk.injEq] at hmem
        obtain ⟨rfl, rfl⟩ := hmem
        exact hsends
  | @update env r msg rest _ hqueue =>
      obtain ⟨packet, hcarries, hpacket⟩ := (h.clean r msg (by simp [hqueue])).carries
      have hpopped : Carried platform { S with server.m_qMessagesIn := rest } :=
        h.toCarried.ofServer { S.server with m_qMessagesIn := rest } [] (by simp)
          (fun r msg hmem ↦ by cases hmem)
          (fun item hmem ↦ by rw [hqueue]; exact List.mem_cons_of_mem _ hmem) S.fault
      obtain ⟨fault, heq⟩ := System.serve_eq { S with server.m_qMessagesIn := rest }
        (Server.onMessage platform env depth r msg)
      rw [heq]
      exact hpopped.ofExtends (Server.only_onMessage platform env depth r msg _) hcarries hpacket
        fault
  | hangUp r => exact h.toCarried.setPeer ⟨(h.streams r).reader, (h.streams r).received⟩
  | @receive r msg reader _ hread =>
      refine h.toCarried.setPeer ((h.streams r).receive (fun m hm ↦ ?_) hread)
      obtain ⟨packet, hpacket⟩ := h.sends r m (mem_sentTo.mp hm)
      exact ⟨packet, hpacket.toCarries⟩
  | @handle r msg rest client hqueue =>
      exact h.toCarried.setPeer ((h.streams r).handle hqueue client)
  | @enterGame r =>
      exact h.toCarried.setPeer ⟨(h.streams r).reader, (h.streams r).received⟩
  | @frame r client msg => exact h.toCarried.sendAny r client .handling msg
  | @updateServer r client msg => exact h.toCarried.sendAny r client .polling (some msg)
  | @key r key press client msg => exact h.toCarried.sendAny r client (S.peers r).phase msg

theorem step (h : Sound platform S) {e : Event} (hframed : Framed platform S e)
    (hstep : S.step platform depth e = some S') : Sound platform S' where
  toReporting := h.toReporting.step (h.tellsIDs e) hframed.bodiesFit hstep
  toCarried := h.carried_step hframed hstep

end Sound

/-! ## Server-to-client streams -/

/-- Every message the server has sent is one frame, and what a client has not
read of its stream is whole frames. -/
structure System.InSync (S : System) : Prop where
  framed : ∀ r msg, .sent r msg ∈ S.server.log → msg.WellFramed
  streams : ∀ r, (S.downstream r).drop (S.peers r).reader.consumed =
    stream ((S.peers r).reader.unread (sentTo S.server.log r))

theorem Sound.inSync {platform : Platform} {S : System} (h : Sound platform S) : S.InSync where
  framed r msg hmem := by
    obtain ⟨packet, hpacket⟩ := h.sends r msg hmem
    exact hpacket.framed
  streams r := (h.streams r).reader.drop_consumed

theorem Sound.of_reaches {platform : Platform} {depth : ℕ} {S : System}
    (h : Reaches (System.step platform depth) (Framed platform) {} S) : Sound platform S :=
  h.invariant (.start platform) fun _ _ _ hsound hframed hstep ↦ hsound.step hframed hstep

/-- No stream from the server to a client loses frame synchronisation in a run
in which the server never reads a message without a body into a used buffer. -/
theorem inSync_of_reaches {platform : Platform} {depth : ℕ} {S : System}
    (h : Reaches (System.step platform depth) (Framed platform) {} S) : S.InSync :=
  (Sound.of_reaches h).inSync

/-- A client joins, starts the game and then moves. -/
def startThenUpdate : List Event :=
  [.accept, .validate 0 .plain, .receive 0, .handle 0, .enterGame 0, .key 0 .p true, .frame 0,
    .receive 0, .handle 0, .updateServer 0, .read 0, .read 0, .update .plain, .update .plain,
    .receive 0]

theorem inSync_startThenUpdate :
    ∃ S, run (guarded (System.step .x64 8) (Framed .x64)) {} startThenUpdate = some S ∧
      S.InSync := by
  obtain ⟨S, hrun⟩ : ∃ S, run (guarded (System.step .x64 8) (Framed .x64)) {} startThenUpdate =
      some S := Option.isSome_iff_exists.mp (by decide +kernel)
  exact ⟨S, hrun, inSync_of_reaches (reaches_of_guarded hrun)⟩

/-- A client joins, moves and then starts the game. -/
def updateThenStart : List Event :=
  [.accept, .validate 0 .plain, .receive 0, .receive 0, .handle 0, .handle 0, .enterGame 0,
    .frame 0, .updateServer 0, .key 0 .p true, .read 0, .read 0, .update .plain, .update .plain]

/-- The server relays the start with the body of the update under an empty size. -/
theorem not_inSync_updateThenStart :
    ¬ ∀ S, Reaches (System.step .x64 8) (fun _ _ ↦ True) {} S → S.InSync := by
  intro hsync
  obtain ⟨S, hreaches, hany⟩ := @exists_reaches_of_run _ _ (System.step .x64 8) {}
    updateThenStart (fun S ↦ (sentTo S.server.log 0).any fun msg ↦ decide (¬ msg.WellFramed))
    (by decide +kernel)
  obtain ⟨msg, hsent, hbad⟩ := List.any_eq_true.mp hany
  exact of_decide_eq_true hbad ((hsync S hreaches).framed 0 msg (mem_sentTo.mp hsent))

end SnekCpp
