import SnekCpp.Game.Carries
import SnekCpp.Snek.OwnPlayer

/-!
# Clients that know their id

What the server hears of a client is about that client as long as the client
has taken no other id for its own.  This is so even when a message without a
body has been relayed with a stale one and the clients read on among its bytes,
unless these look like a `ServerValidation`.
-/

namespace SnekCpp

open Lib Networking

/-- `GetID` of the connection that is approved as number `r`. -/
def idOf (r : ConnRef) : UInt32 := UInt32.ofNat (10000 + r)

/-- A message that the client with an id may send. -/
inductive ClientSends (platform : Platform) (id : UInt32) : Msg → Prop
  | updatePlayer {tail : List Position} {direction : Direction} {clientID : Int32}
      (hid : clientID.toUInt32 = id)
      (hsize : (SnakeClient.updatePlayerMsg platform tail direction clientID).body.length < 2 ^ 32) :
      ClientSends platform id (SnakeClient.updatePlayerMsg platform tail direction clientID)
  | powerupEaten (powerup : PowerupData) :
      ClientSends platform id (Server.powerupEatenMsg powerup)
  | startGame : ClientSends platform id (.new .startGame)

namespace ClientSends

variable {platform : Platform} {id : UInt32} {msg : Msg}

theorem carries (h : ClientSends platform id msg) :
    ∃ packet, Carries platform msg packet ∧
      ∀ clientID powerups roster, packet ≠ .serverValidation clientID powerups roster := by
  cases h with
  | updatePlayer hid hsize => exact ⟨_, .updatePlayerMsg hsize, by simp⟩
  | powerupEaten powerup => exact ⟨_, .powerupEatenMsg powerup, by simp⟩
  | startGame => exact ⟨_, .startGame, by simp⟩

/-- Only a start has no body, so only a start can get a stale one. -/
theorem received (h : ClientSends platform id msg) (stale : List UInt8) :
    ClientSends platform id (msg.received stale) ∨ (msg.received stale).header.id = .startGame := by
  obtain ⟨packet, hcarries, -⟩ := h.carries
  by_cases hbody : msg.body = []
  · right
    rw [Message.received, if_pos hbody]
    exact hcarries.nonempty hbody
  · left
    rw [Message.received, if_neg hbody]
    exact h

end ClientSends

/-! ## The server's numbers -/

structure Server.Approvals (s : Server) : Prop where
  counter : s.IDCounter = idOf s.approved
  getID : ∀ r, r < s.approved → s.getID r = idOf r
  connected : ∀ r, s.isConnected r = true → r < s.approved
  validated : ∀ r, s.Validated r → r < s.approved

namespace Server.Approvals

variable {s t : Server} {said : Msg}

theorem init : Server.init.Approvals where
  counter := rfl
  getID r h := by cases h
  connected r h := by cases h
  validated r h := by cases h

theorem congr (h : s.Approvals) (hIDCounter : t.IDCounter = s.IDCounter)
    (happroved : t.approved = s.approved) (hgetID : t.getID = s.getID)
    (hisConnected : t.isConnected = s.isConnected)
    (hvalidated : ∀ r, t.Validated r → r < s.approved) : t.Approvals where
  counter := by rw [hIDCounter, happroved, h.counter]
  getID r hr := by
    rw [happroved] at hr
    rw [hgetID, h.getID r hr]
  connected r hr := by
    rw [hisConnected] at hr
    rw [happroved]
    exact h.connected r hr
  validated r hr := by
    rw [happroved]
    exact hvalidated r hr

theorem extends_ (h : s.Approvals) (hextends : Extends said s t) : t.Approvals :=
  h.congr hextends.IDCounter hextends.approved hextends.getID hextends.isConnected
    fun r hr ↦ h.validated r ((hextends.validated_iff r).mp hr)

theorem welcomed (h : s.Approvals) {platform : Platform} {env : Env} {r : ConnRef}
    {spawnpoint : Position} (hr : r < s.approved) :
    (s.welcomed platform env r spawnpoint).Approvals := by
  refine h.congr rfl rfl rfl rfl fun r' hr' ↦ ?_
  rcases List.mem_append.mp hr' with hr' | hr'
  · exact h.validated r' hr'
  · have heq : r' = r := by simpa using hr'
    exact heq ▸ hr

theorem logged_validated (h : s.Approvals) {r : ConnRef} (hr : r < s.approved) :
    (s.logged [.validated r]).Approvals := by
  refine h.congr rfl rfl rfl rfl fun r' hr' ↦ ?_
  rcases List.mem_append.mp hr' with hr' | hr'
  · exact h.validated r' hr'
  · have heq : r' = r := by simpa using hr'
    exact heq ▸ hr

theorem collided (h : s.Approvals) (id owner : UInt32) :
    (s.logged [.collided id owner]).Approvals := by
  refine h.congr rfl rfl rfl rfl fun r hr ↦ ?_
  exact h.validated r (by simpa [Validated, logged] using hr)

theorem idOf_succ (r : ConnRef) : idOf r + 1 = idOf (r + 1) := by
  exact (UInt32.ofNat_add (10000 + r) 1).symm

theorem onAccept (h : s.Approvals) : s.onAccept.Approvals := by
  unfold Server.onAccept
  split
  · refine ⟨?_, fun r hr ↦ ?_, fun r hr ↦ ?_, fun r hr ↦ ?_⟩
    · exact (congrArg (· + 1) h.counter).trans (idOf_succ _)
    · by_cases heq : r = s.approved
      · subst heq
        simp [h.counter]
      · have hlt : r < s.approved := by
          change r < s.approved + 1 at hr
          omega
        simp [heq, h.getID r hlt]
    · by_cases heq : r = s.approved
      · simp [heq]
      · have hlt := h.connected r (by simpa [heq] using hr)
        exact Nat.lt_succ_of_lt hlt
    · exact Nat.lt_succ_of_lt (h.validated r hr)
  · exact h

theorem close (h : s.Approvals) (r : ConnRef) :
    { s with isConnected := Function.update s.isConnected r false }.Approvals where
  counter := h.counter
  getID := h.getID
  connected r' hr' := by
    by_cases heq : r' = r
    · simp [heq] at hr'
    · exact h.connected r' (by simpa [heq] using hr')
  validated := h.validated

end Server.Approvals

/-! ## What a client knows about itself -/

/-- The client has not been told its id yet, or has it right. -/
structure Peer.KnowsID (id : UInt32) (peer : Peer) : Prop where
  clientID : peer.client.clientID = -1 ∨ peer.client.clientID.toUInt32 = id
  playing : peer.phase ≠ .connecting → 0 ≤ peer.client.clientID

/-- The packet tells its receiver no other id. -/
def Packet.TellsID (id : UInt32) : Packet → Prop
  | .serverValidation clientID _ _ => clientID = id
  | _ => True

instance (id : UInt32) (packet : Packet) : Decidable (packet.TellsID id) := by
  cases packet <;> unfold Packet.TellsID <;> infer_instance

namespace Peer.KnowsID

variable {id : UInt32} {peer : Peer}

theorem start (id : UInt32) : Peer.KnowsID id {} where
  clientID := .inl rfl
  playing h := absurd rfl h

/-- A client that plays knows its id. -/
theorem clientID_eq (h : peer.KnowsID id) (hplaying : peer.phase ≠ .connecting) :
    peer.client.clientID.toUInt32 = id := by
  apply h.clientID.resolve_left
  intro hnone
  have hpos := h.playing hplaying
  rw [hnone] at hpos
  exact absurd hpos (by decide)

theorem plays (h : peer.KnowsID id) {client : SnakeClient} (hplays : peer.client.Plays client)
    (phase : Phase) (hplaying : peer.phase ≠ .connecting) : { peer with client, phase }.KnowsID id where
  clientID := by
    rw [hplays.clientID]
    exact h.clientID
  playing _ := by
    rw [hplays.clientID]
    exact h.playing hplaying

theorem send (h : peer.KnowsID id) (msg : Msg) : (peer.send msg).KnowsID id := by
  unfold Peer.send
  split
  · exact ⟨h.clientID, h.playing⟩
  · exact h

theorem sendAny (h : peer.KnowsID id) (msg : Option Msg) : (peer.sendAny msg).KnowsID id := by
  cases msg with
  | none => exact h
  | some m => exact h.send m

theorem handle (h : peer.KnowsID id) {packet : Packet} (hpacket : packet.TellsID id)
    (rest handled : List Msg) : Peer.KnowsID id { peer with
      client := peer.client.handlePacket packet
      m_qMessagesIn := rest
      handled } := by
  have hid : (peer.client.handlePacket packet).clientID = peer.client.clientID ∨
      (peer.client.handlePacket packet).clientID = id.toInt32 := by
    cases packet with
    | serverValidation clientID powerups roster =>
        right
        rw [← show clientID = id from hpacket]
        rfl
    | _ => exact .inl rfl
  refine ⟨?_, fun hplaying ↦ ?_⟩
  · rcases hid with heq | heq
    · rw [heq]
      exact h.clientID
    · right
      rw [heq]
      exact UInt32.toUInt32_toInt32 id
  · rcases hid with heq | heq
    · rw [heq]
      exact h.playing hplaying
    · have hsame := h.clientID_eq hplaying
      rw [heq, ← hsame]
      exact h.playing hplaying

end Peer.KnowsID

@[simp] theorem System.peers_serve (S : System) (handler : ServerM Unit) :
    (S.serve handler).peers = S.peers := by
  unfold System.serve
  split <;> rfl

/-- Every client knows its id, or none. -/
def System.KnowIDs (S : System) : Prop := ∀ r, (S.peers r).KnowsID (idOf r)

/-- No client is told an id that is not its own. -/
def TellsIDs (platform : Platform) (S : System) : Event → Prop
  | .handle r => ∀ msg ∈ (S.peers r).m_qMessagesIn.head?,
      ∀ packet ∈ (Packet.decode platform msg).toOption, packet.TellsID (idOf r)
  | _ => True

instance (platform : Platform) (S : System) (e : Event) : Decidable (TellsIDs platform S e) := by
  rcases e <;> unfold TellsIDs <;> infer_instance

theorem TellsIDs.packet {platform : Platform} {S : System} {r : ConnRef}
    (h : TellsIDs platform S (.handle r)) {msg : Msg} {rest : List Msg} {packet : Packet}
    (hqueue : (S.peers r).m_qMessagesIn = msg :: rest)
    (hdecode : Packet.decode platform msg = .ok packet) : packet.TellsID (idOf r) :=
  h msg (by rw [hqueue]; rfl) packet (by rw [hdecode]; rfl)

namespace System.KnowIDs

variable {platform : Platform} {depth : ℕ} {S S' : System}

theorem start : System.KnowIDs {} := fun r ↦ .start (idOf r)

theorem setPeer (h : S.KnowIDs) {r : ConnRef} {peer : Peer} (hpeer : peer.KnowsID (idOf r)) :
    (S.setPeer r peer).KnowIDs :=
  @System.forall_setPeer S r peer (fun r peer ↦ peer.KnowsID (idOf r)) hpeer fun r' _ ↦ h r'

theorem step (h : S.KnowIDs) {e : Event} (htells : TellsIDs platform S e)
    (hstep : S.step platform depth e = some S') : S'.KnowIDs := by
  cases moves_of_step hstep with
  | accept => exact h
  | validate => simpa [KnowIDs] using h
  | close => exact h
  | read => exact h
  | update => simpa [KnowIDs] using h
  | hangUp r => exact h.setPeer ⟨(h r).clientID, (h r).playing⟩
  | @receive r => exact h.setPeer ⟨(h r).clientID, (h r).playing⟩
  | @handle r msg rest client hqueue _ hhandle =>
      obtain ⟨packet, hdecode, rfl⟩ := SnakeClient.handleMessage_cases hhandle
      exact h.setPeer ((h r).handle (htells.packet hqueue hdecode) rest _)
  | @enterGame r _ hid => exact h.setPeer ⟨(h r).clientID, fun _ ↦ hid⟩
  | @frame r client msg hphase hframe =>
      exact h.setPeer (((h r).plays (.frame hframe) .handling (by simp [hphase])).sendAny msg)
  | @updateServer r client msg hphase hupdate =>
      exact h.setPeer (((h r).plays (.updateServer hupdate) .polling (by simp [hphase])).send msg)
  | @key r key press client msg hphase hkey =>
      exact h.setPeer (((h r).plays (.keyCallback hkey) (S.peers r).phase
        (by simp [hphase])).sendAny msg)

end System.KnowIDs

/-! ## What the server hears -/

/-- No message outgrows the size field of its header. -/
def BodiesFit (platform : Platform) (S : System) : Event → Prop
  | .updateServer r => ((S.peers r).client.updateServer platform).2.body.length < 2 ^ 32
  | .validate r env => ∀ spawnpoint ∈ S.server.spawnpoints.getLast?,
      (S.server.snapshotMsg platform env r spawnpoint).body.length < 2 ^ 32
  | _ => True

instance (platform : Platform) (S : System) (e : Event) : Decidable (BodiesFit platform S e) := by
  rcases e <;> unfold BodiesFit <;> infer_instance

/-- What the clients have sent is about themselves, and the server has read a
beginning of it; a message without a body may have got a stale one. -/
structure Reporting (platform : Platform) (S : System) : Prop where
  approvals : S.server.Approvals
  knowIDs : S.KnowIDs
  reports : ∀ r, ∀ msg ∈ (S.peers r).sent, ClientSends platform (idOf r) msg
  heard : ∀ r msg, (r, msg) ∈ S.server.m_qMessagesIn → S.server.Validated r ∧
    (ClientSends platform (idOf r) msg ∨ msg.header.id = .startGame)
  readers : ∀ r, (S.readers r).InStep (S.peers r).sent

theorem System.serve_eq (S : System) (handler : ServerM Unit) :
    ∃ fault, S.serve handler =
      { S with server := Server.after (handler.run S.server), fault } := by
  unfold System.serve
  cases handler.run S.server with
  | ok a server => exact ⟨S.fault, rfl⟩
  | error fault server => exact ⟨some fault, rfl⟩

/-- The handler of a joining client goes on from the state in which it has got its
snapshot, or has popped no spawnpoint. -/
theorem System.serve_onClientValidated (S : System) (platform : Platform) (depth : ℕ) (r : ConnRef)
    (env : Env) : ∃ server fault,
      S.serve (Server.onClientValidated platform env depth r) = { S with server, fault } ∧
        (S.server.spawnpoints.getLast? = none ∧ server = S.server.logged [.validated r] ∨
          ∃ spawnpoint, S.server.spawnpoints.getLast? = some spawnpoint ∧
            Server.Extends (Server.newPlayerMsg platform
              { direction := .up, tail := [spawnpoint], color := env.color } (S.server.getID r))
              (S.server.welcomed platform env r spawnpoint) server) := by
  obtain ⟨fault, heq⟩ := S.serve_eq (Server.onClientValidated platform env depth r)
  refine ⟨_, fault, heq, ?_⟩
  cases hspawn : S.server.spawnpoints.getLast? with
  | none =>
      left
      rw [Server.run_onClientValidated_none platform hspawn]
      exact ⟨rfl, rfl⟩
  | some spawnpoint =>
      right
      rw [Server.run_onClientValidated platform hspawn]
      exact ⟨spawnpoint, rfl, Server.only_announce platform env depth r (S.server.getID r) _ _⟩

namespace Reporting

variable {platform : Platform} {depth : ℕ} {S S' : System}

theorem start (platform : Platform) : Reporting platform {} where
  approvals := .init
  knowIDs := .start
  reports r msg h := by cases h
  heard r msg h := by cases h
  readers r := ⟨Nat.zero_le _, rfl⟩

/-- A step of the server that reads nothing. -/
theorem ofServer (h : Reporting platform S) (server : Server) (happrovals : server.Approvals)
    (hvalidated : ∀ r, S.server.Validated r → server.Validated r)
    (hqueue : ∀ item ∈ server.m_qMessagesIn, item ∈ S.server.m_qMessagesIn)
    (fault : Option Fault) : Reporting platform { S with server, fault } where
  approvals := happrovals
  knowIDs := h.knowIDs
  reports := h.reports
  heard r msg hmem := (h.heard r msg (hqueue _ hmem)).imp_left (hvalidated r)
  readers := h.readers

theorem ofExtends (h : Reporting platform S) {server : Server} {said : Msg}
    (hextends : Server.Extends said S.server server) (fault : Option Fault) :
    Reporting platform { S with server, fault } :=
  h.ofServer server (h.approvals.extends_ hextends) (fun r hr ↦ (hextends.validated_iff r).mpr hr)
    (by rw [hextends.queue]; exact fun _ hmem ↦ hmem) fault

theorem setPeer (h : Reporting platform S) {r : ConnRef} {peer : Peer}
    (hknows : peer.KnowsID (idOf r)) (hreports : ∀ msg ∈ peer.sent, ClientSends platform (idOf r) msg)
    (hreader : (S.readers r).InStep peer.sent) : Reporting platform (S.setPeer r peer) where
  approvals := h.approvals
  knowIDs := h.knowIDs.setPeer hknows
  reports := @System.forall_setPeer S r peer
    (fun r peer ↦ ∀ msg ∈ peer.sent, ClientSends platform (idOf r) msg) hreports
      fun r' _ ↦ h.reports r'
  heard := h.heard
  readers := @System.forall_setPeer S r peer (fun r' peer ↦ (S.readers r').InStep peer.sent) hreader
    fun r' _ ↦ h.readers r'

/-- A client that has sent another message about itself. -/
theorem send (h : Reporting platform S) {r : ConnRef} {peer : Peer} (hknows : peer.KnowsID (idOf r))
    (hsent : peer.sent = (S.peers r).sent) {msg : Msg} (hmsg : ClientSends platform (idOf r) msg) :
    Reporting platform (S.setPeer r (peer.send msg)) := by
  have hreports := h.reports r
  have hreader := h.readers r
  rw [← hsent] at hreports hreader
  apply h.setPeer (hknows.send msg)
  · unfold Peer.send
    split
    · intro m hm
      rcases List.mem_append.mp hm with hm | hm
      · exact hreports m hm
      · rw [List.mem_singleton.mp hm]
        exact hmsg
    · exact hreports
  · unfold Peer.send
    split
    · exact hreader.append [msg]
    · exact hreader

theorem sendAny (h : Reporting platform S) {r : ConnRef} {peer : Peer}
    (hknows : peer.KnowsID (idOf r)) (hsent : peer.sent = (S.peers r).sent) {msg : Option Msg}
    (hmsg : ∀ m, msg = some m → ClientSends platform (idOf r) m) :
    Reporting platform (S.setPeer r (peer.sendAny msg)) := by
  cases msg with
  | none =>
      have hreports := h.reports r
      have hreader := h.readers r
      rw [← hsent] at hreports hreader
      exact h.setPeer hknows hreports hreader
  | some m => exact h.send hknows hsent (hmsg m rfl)

/-- What the server reads was sent by the client, with a stale body if it had none. -/
theorem read (h : Reporting platform S) {r : ConnRef} {msg : Msg} {reader : Reader MessageTypes}
    (hread : (S.readers r).read (S.upstream r) = some (msg, reader)) :
    ∃ next rest, (S.readers r).unread (S.peers r).sent = next :: rest ∧
      reader.unread (S.peers r).sent = rest ∧ reader.InStep (S.peers r).sent ∧
        msg = next.received (S.readers r).stale ∧ ClientSends platform (idOf r) next := by
  unfold System.upstream at hread
  cases hunread : (S.readers r).unread (S.peers r).sent with
  | nil =>
      rw [(h.readers r).read_nil hunread] at hread
      cases hread
  | cons next rest =>
      have hmem : next ∈ (S.peers r).sent := by
        have hnext : next ∈ (S.readers r).unread (S.peers r).sent := by simp [hunread]
        exact List.mem_of_mem_drop hnext
      have hsends := h.reports r next hmem
      obtain ⟨packet, hcarries, -⟩ := hsends.carries
      obtain ⟨reader', hread', hstep, hrest, -⟩ := (h.readers r).read_cons hunread hcarries.framed
      rw [hread', Option.some.injEq, Prod.mk.injEq] at hread
      obtain ⟨rfl, rfl⟩ := hread
      exact ⟨next, rest, rfl, hrest, hstep, rfl, hsends⟩

theorem validate (h : Reporting platform S) {r : ConnRef} (env : Env)
    (hopen : S.server.isConnected r = true) :
    Reporting platform (S.serve (Server.onClientValidated platform env depth r)) := by
  have happroved := h.approvals.connected r hopen
  obtain ⟨server, fault, heq, ⟨-, rfl⟩ | ⟨spawnpoint, -, hextends⟩⟩ :=
    S.serve_onClientValidated platform depth r env
  · rw [heq]
    exact h.ofServer _ (h.approvals.logged_validated happroved)
      (fun r' hr' ↦ List.mem_append_left _ hr') (fun _ hmem ↦ hmem) fault
  · rw [heq]
    have hwelcomed : Reporting platform { S with
        server := S.server.welcomed platform env r spawnpoint, fault := S.fault } :=
      h.ofServer _ (h.approvals.welcomed happroved) (fun r' hr' ↦ List.mem_append_left _ hr')
        (fun _ hmem ↦ hmem) S.fault
    exact hwelcomed.ofExtends hextends fault

theorem step (h : Reporting platform S) {e : Event} (htells : TellsIDs platform S e)
    (hsizes : BodiesFit platform S e) (hstep : S.step platform depth e = some S') :
    Reporting platform S' := by
  cases System.moves_of_step hstep with
  | accept =>
      refine h.ofServer _ h.approvals.onAccept (fun r hr ↦ ?_) (by simp) S.fault
      unfold Server.Validated
      rwa [S.server.log_onAccept]
  | validate _ hopen => exact h.validate _ hopen
  | close => exact h.ofServer _ (h.approvals.close _) (fun _ hr ↦ hr) (fun _ hmem ↦ hmem) S.fault
  | @read r msg reader _ _ hvalidated hread =>
      obtain ⟨next, rest, -, -, hinStep, hmsg, hsends⟩ := h.read hread
      refine ⟨⟨h.approvals.counter, h.approvals.getID, h.approvals.connected,
        h.approvals.validated⟩, h.knowIDs, h.reports, fun r' msg' hmem ↦ ?_, fun r' ↦ ?_⟩
      · rcases List.mem_append.mp hmem with hmem | hmem
        · exact h.heard r' msg' hmem
        · rw [List.mem_singleton, Prod.mk.injEq] at hmem
          obtain ⟨rfl, rfl⟩ := hmem
          exact ⟨hvalidated, hmsg ▸ hsends.received _⟩
      · by_cases heq : r' = r
        · subst heq
          simpa using hinStep
        · simpa [heq] using h.readers r'
  | @update env r msg rest _ hqueue =>
      have hpopped : Reporting platform { S with server.m_qMessagesIn := rest } :=
        h.ofServer { S.server with m_qMessagesIn := rest } ⟨h.approvals.counter,
          h.approvals.getID, h.approvals.connected, h.approvals.validated⟩ (fun _ hr ↦ hr)
          (fun item hmem ↦ by rw [hqueue]; exact List.mem_cons_of_mem _ hmem) S.fault
      obtain ⟨fault, heq⟩ := System.serve_eq { S with server.m_qMessagesIn := rest }
        (Server.onMessage platform env depth r msg)
      rw [heq]
      exact hpopped.ofExtends (Server.only_onMessage platform env depth r msg _) fault
  | hangUp r =>
      exact h.setPeer ⟨(h.knowIDs r).clientID, (h.knowIDs r).playing⟩ (h.reports r) (h.readers r)
  | @receive r =>
      exact h.setPeer ⟨(h.knowIDs r).clientID, (h.knowIDs r).playing⟩ (h.reports r) (h.readers r)
  | @handle r msg rest client hqueue _ hhandle =>
      obtain ⟨packet, hdecode, rfl⟩ := SnakeClient.handleMessage_cases hhandle
      exact h.setPeer ((h.knowIDs r).handle (htells.packet hqueue hdecode) rest _) (h.reports r)
        (h.readers r)
  | @enterGame r _ hid =>
      exact h.setPeer ⟨(h.knowIDs r).clientID, fun _ ↦ hid⟩ (h.reports r) (h.readers r)
  | @frame r client msg hphase hframe =>
      have hplaying : (S.peers r).phase ≠ .connecting := by simp [hphase]
      refine h.sendAny ((h.knowIDs r).plays (.frame hframe) .handling hplaying) (by rfl) fun m hm ↦ ?_
      rcases SnakeClient.frame_powerups hframe with ⟨-, hnone⟩ | ⟨_, eaten, _, -, -, -, heaten⟩
      · rw [hnone] at hm
        cases hm
      · rw [heaten] at hm
        cases hm
        exact .powerupEaten eaten.data
  | @updateServer r client msg hphase hupdate =>
      have hplaying : (S.peers r).phase ≠ .connecting := by simp [hphase]
      obtain ⟨-, direction, hmsg⟩ := SnakeClient.updateServer_cases hupdate
      have hsize : msg.body.length < 2 ^ 32 := by
        have hsize : ((S.peers r).client.updateServer platform).2.body.length < 2 ^ 32 := hsizes
        rwa [hupdate] at hsize
      refine h.send ((h.knowIDs r).plays (.updateServer hupdate) .polling hplaying) (by rfl) ?_
      rw [hmsg] at hsize ⊢
      exact .updatePlayer ((h.knowIDs r).clientID_eq hplaying) hsize
  | @key r key press client msg hphase hkey =>
      have hplaying : (S.peers r).phase ≠ .connecting := by simp [hphase]
      refine h.sendAny ((h.knowIDs r).plays (.keyCallback hkey) (S.peers r).phase hplaying) (by rfl)
        fun m hm ↦ ?_
      rcases (SnakeClient.keyCallback_cases hkey).2 with hnone | hstart
      · rw [hnone] at hm
        cases hm
      · rw [hstart] at hm
        cases hm
        exact .startGame

theorem of_reaches (h : Reaches (System.step platform depth)
    (fun S e ↦ TellsIDs platform S e ∧ BodiesFit platform S e) {} S) : Reporting platform S :=
  h.invariant (.start platform) fun _ _ _ hreporting hallowed hstep ↦
    hreporting.step hallowed.1 hallowed.2 hstep

end Reporting

end SnekCpp
