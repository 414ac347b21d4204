import SnekCpp.Lib.Transition
import SnekCpp.Networking.Reader
import SnekCpp.Snek.SnakeClient
import SnekCpp.SnekServer.Server

/-!
# Server and clients together

One server process and a client process for every connection that it has
approved.  Each handler is one step, and so is the arrival of one message; the
steps of different threads and processes interleave freely.
-/

namespace SnekCpp

open Lib Networking

/-- Where `main` of a client is: in the loop before the game, before the frame's
moves, or in `HandleMessages` of a frame. -/
inductive Phase
  | connecting
  | polling
  | handling
  deriving DecidableEq

/-- A client process. -/
structure Peer where
  client : SnakeClient := {}
  phase : Phase := .connecting
  isConnected : Bool := true
  m_qMessagesIn : List Msg := []
  reader : Reader MessageTypes := { m_msgTemporaryIn := default }
  /-- The messages passed to `Send` of the connection. -/
  sent : List Msg := []
  /-- The messages that `HandleMessages` has handled. -/
  handled : List Msg := []

/-- `ClientInterface::Send` -/
def Peer.send (peer : Peer) (msg : Msg) : Peer :=
  if peer.isConnected then { peer with sent := peer.sent ++ [msg] } else peer

def Peer.sendAny (peer : Peer) : Option Msg → Peer
  | none => peer
  | some msg => peer.send msg

structure System where
  server : Server := .init
  /-- What has ended the server process. -/
  fault : Option Fault := none
  /-- The read loops of the server's connections. -/
  readers : ConnRef → Reader MessageTypes := fun _ ↦ { m_msgTemporaryIn := default }
  peers : ConnRef → Peer := fun _ ↦ {}

inductive Event
  /-- A client connects. -/
  | accept
  /-- The server's read of the handshake completes. -/
  | validate (r : ConnRef) (env : Env)
  /-- The server's end of a connection closes. -/
  | close (r : ConnRef)
  /-- The server's read loop reads a message. -/
  | read (r : ConnRef)
  /-- The server handles a message. -/
  | update (env : Env)
  /-- The client's end of a connection closes. -/
  | hangUp (r : ConnRef)
  /-- The client's read loop reads a message. -/
  | receive (r : ConnRef)
  /-- One turn of the client's `HandleMessages`. -/
  | handle (r : ConnRef)
  /-- The client leaves the loop before the game. -/
  | enterGame (r : ConnRef)
  /-- The client's frame up to `HandleMessages`. -/
  | frame (r : ConnRef)
  | updateServer (r : ConnRef)
  | key (r : ConnRef) (key : SnakeClient.Key) (press : Bool)

/-- The process in which an event happens. -/
def Event.peer : Event → Option ConnRef
  | .hangUp r | .receive r | .handle r | .enterGame r | .frame r | .updateServer r
  | .key r _ _ => some r
  | _ => none

namespace System

variable (platform : Platform) (depth : ℕ)

/-- The server runs a handler. -/
def serve (S : System) (handler : ServerM Unit) : System :=
  match handler.run S.server with
  | .ok _ server => { S with server }
  | .error fault server => { S with server, fault := some fault }

def setPeer (S : System) (r : ConnRef) (peer : Peer) : System :=
  { S with peers := Function.update S.peers r peer }

/-- One client is replaced, and the others stay as they are. -/
theorem forall_setPeer {S : System} {r : ConnRef} {peer : Peer} {P : ConnRef → Peer → Prop}
    (hpeer : P r peer) (hother : ∀ other, other ≠ r → P other (S.peers other)) (other : ConnRef) :
    P other ((S.setPeer r peer).peers other) := by
  by_cases heq : other = r
  · subst heq
    simpa [setPeer] using hpeer
  · simpa [setPeer, heq] using hother other heq

/-- The bytes that the server has sent to a client, and the other way round. -/
def downstream (S : System) (r : ConnRef) : List UInt8 := stream (sentTo S.server.log r)
def upstream (S : System) (r : ConnRef) : List UInt8 := stream (S.peers r).sent

def stepServer (S : System) : Event → Option System
  | .accept => some { S with server := S.server.onAccept }
  | .validate r env =>
      if S.server.isConnected r ∧ ¬ S.server.Validated r then
        some (S.serve (Server.onClientValidated platform env depth r))
      else none
  | .read r =>
      if S.server.isConnected r ∧ S.server.Validated r then
        match (S.readers r).read (S.upstream r) with
        | none => none
        | some (msg, reader) =>
            some { S with
              server.m_qMessagesIn := S.server.m_qMessagesIn ++ [(r, msg)]
              readers := Function.update S.readers r reader }
      else none
  | .update env =>
      -- `Wait` sleeps until a message is there.
      if S.server.m_qMessagesIn = [] then none
      else some (S.serve (Server.update platform env depth))
  | _ => none

def stepPeer (peer : Peer) (bytes : List UInt8) : Event → Option Peer
  | .hangUp _ => some { peer with isConnected := false }
  | .receive _ =>
      if peer.isConnected then
        match peer.reader.read bytes with
        | none => none
        | some (msg, reader) =>
            some { peer with m_qMessagesIn := peer.m_qMessagesIn ++ [msg], reader }
      else none
  | .handle _ =>
      match peer.m_qMessagesIn with
      | [] => none
      | msg :: rest =>
          if peer.phase = .polling then none
          else
            match peer.client.handleMessage platform msg with
            | .error _ => none
            | .ok client =>
                some { peer with client, m_qMessagesIn := rest, handled := peer.handled ++ [msg] }
  | .enterGame _ =>
      if peer.phase = .connecting ∧ peer.m_qMessagesIn = [] ∧ 0 ≤ peer.client.clientID then
        some { peer with phase := .polling }
      else none
  | .frame _ =>
      if peer.phase = .polling then
        match peer.client.frame with
        | .error _ => none
        | .ok (client, msg) => some ({ peer with client, phase := .handling }.sendAny msg)
      else none
  | .updateServer _ =>
      if peer.phase = .handling ∧ peer.m_qMessagesIn = [] then
        let (client, msg) := peer.client.updateServer platform
        some ({ peer with client, phase := .polling }.send msg)
      else none
  | .key _ key press =>
      if peer.phase = .polling then
        let (client, msg) := peer.client.keyCallback key press
        some ({ peer with client }.sendAny msg)
      else none
  | _ => none

def step (S : System) (e : Event) : Option System :=
  match e with
  | .close r =>
      if r < S.server.approved then
        some { S with server.isConnected := Function.update S.server.isConnected r false }
      else none
  | e =>
      match e.peer with
      | some r => (stepPeer platform (S.peers r) (S.downstream r) e).map (S.setPeer r)
      | none => if S.fault = none then stepServer platform depth S e else none

/-! ## What a step can do -/

/-- Every step, with what it found in the state. -/
inductive Moves (S : System) : Event → System → Prop
  | accept (hup : S.fault = none) : Moves S .accept { S with server := S.server.onAccept }
  | validate {r : ConnRef} {env : Env} (hup : S.fault = none)
      (hopen : S.server.isConnected r = true) (hnew : ¬ S.server.Validated r) :
      Moves S (.validate r env) (S.serve (Server.onClientValidated platform env depth r))
  | close {r : ConnRef} (happroved : r < S.server.approved) :
      Moves S (.close r)
        { S with server.isConnected := Function.update S.server.isConnected r false }
  | read {r : ConnRef} {msg : Msg} {reader : Reader MessageTypes} (hup : S.fault = none)
      (hopen : S.server.isConnected r = true) (hvalidated : S.server.Validated r)
      (hread : (S.readers r).read (S.upstream r) = some (msg, reader)) :
      Moves S (.read r)
        { S with
          server.m_qMessagesIn := S.server.m_qMessagesIn ++ [(r, msg)]
          readers := Function.update S.readers r reader }
  | update {env : Env} {r : ConnRef} {msg : Msg} {rest : List (ConnRef × Msg)}
      (hup : S.fault = none) (hqueue : S.server.m_qMessagesIn = (r, msg) :: rest) :
      Moves S (.update env)
        ({ S with server.m_qMessagesIn := rest }.serve
          (Server.onMessage platform env depth r msg))
  | hangUp (r : ConnRef) :
      Moves S (.hangUp r) (S.setPeer r { S.peers r with isConnected := false })
  | receive {r : ConnRef} {msg : Msg} {reader : Reader MessageTypes}
      (hopen : (S.peers r).isConnected = true)
      (hread : (S.peers r).reader.read (S.downstream r) = some (msg, reader)) :
      Moves S (.receive r)
        (S.setPeer r { S.peers r with
          m_qMessagesIn := (S.peers r).m_qMessagesIn ++ [msg]
          reader })
  | handle {r : ConnRef} {msg : Msg} {rest : List Msg} {client : SnakeClient}
      (hqueue : (S.peers r).m_qMessagesIn = msg :: rest) (hphase : (S.peers r).phase ≠ .polling)
      (hhandle : (S.peers r).client.handleMessage platform msg = .ok client) :
      Moves S (.handle r)
        (S.setPeer r { S.peers r with
          client
          m_qMessagesIn := rest
          handled := (S.peers r).handled ++ [msg] })
  | enterGame {r : ConnRef} (hphase : (S.peers r).phase = .connecting)
      (hid : 0 ≤ (S.peers r).client.clientID) :
      Moves S (.enterGame r) (S.setPeer r { S.peers r with phase := .polling })
  | frame {r : ConnRef} {client : SnakeClient} {msg : Option Msg}
      (hphase : (S.peers r).phase = .polling)
      (hframe : (S.peers r).client.frame = .ok (client, msg)) :
      Moves S (.frame r)
        (S.setPeer r ({ S.peers r with client, phase := .handling }.sendAny msg))
  | updateServer {r : ConnRef} {client : SnakeClient} {msg : Msg}
      (hphase : (S.peers r).phase = .handling)
      (hupdate : (S.peers r).client.updateServer platform = (client, msg)) :
      Moves S (.updateServer r)
        (S.setPeer r ({ S.peers r with client, phase := .polling }.send msg))
  | key {r : ConnRef} {key : SnakeClient.Key} {press : Bool} {client : SnakeClient}
      {msg : Option Msg} (hphase : (S.peers r).phase = .polling)
      (hkey : (S.peers r).client.keyCallback key press = (client, msg)) :
      Moves S (.key r key press) (S.setPeer r ({ S.peers r with client }.sendAny msg))

variable {platform depth}

theorem serve_update {S : System} {env : Env} {r : ConnRef} {msg : Msg}
    {rest : List (ConnRef × Msg)} (hqueue : S.server.m_qMessagesIn = (r, msg) :: rest) :
    S.serve (Server.update platform env depth) =
      { S with server.m_qMessagesIn := rest }.serve
        (Server.onMessage platform env depth r msg) := by
  have hrun : (Server.update platform env depth).run S.server =
      (Server.onMessage platform env depth r msg).run
        { S.server with m_qMessagesIn := rest } := by
    simp only [Server.update, EStateM.run_bind, EStateM.run_get, hqueue, EStateM.run_set]
  simp only [serve, hrun]

theorem moves_of_stepServer {S S' : System} {e : Event} (hup : S.fault = none)
    (h : S.stepServer platform depth e = some S') : Moves platform depth S e S' := by
  cases e with
  | accept =>
      cases h
      exact .accept hup
  | validate r env =>
      simp only [stepServer] at h
      split at h
      · next hready =>
          cases h
          exact .validate hup hready.1 hready.2
      · cases h
  | read r =>
      simp only [stepServer] at h
      split at h
      · next hready =>
          split at h
          · cases h
          · next msg reader hread =>
              cases h
              exact .read hup hready.1 hready.2 hread
      · cases h
  | update env =>
      simp only [stepServer] at h
      split at h
      · cases h
      · next hne =>
          obtain ⟨⟨r, msg⟩, rest, hqueue⟩ := List.exists_cons_of_ne_nil hne
          cases h
          rw [serve_update hqueue]
          exact .update hup hqueue
  | _ => cases h

theorem moves_of_stepPeer {S : System} {e : Event} {r : ConnRef} {peer : Peer}
    (hpeer : e.peer = some r)
    (h : stepPeer platform (S.peers r) (S.downstream r) e = some peer) :
    Moves platform depth S e (S.setPeer r peer) := by
  cases e with
  | hangUp r' =>
      cases hpeer
      cases h
      exact .hangUp _
  | receive r' =>
      cases hpeer
      simp only [stepPeer] at h
      split at h
      · next hopen =>
          split at h
          · cases h
          · next msg reader hread =>
              cases h
              exact .receive hopen hread
      · cases h
  | handle r' =>
      cases hpeer
      simp only [stepPeer] at h
      split at h
      · cases h
      · next msg rest hqueue =>
          split at h
          · cases h
          · next hphase =>
              split at h
              · cases h
              · next client hhandle =>
                  cases h
                  exact .handle hqueue hphase hhandle
  | enterGame r' =>
      cases hpeer
      simp only [stepPeer] at h
      split at h
      · next hready =>
          cases h
          exact .enterGame hready.1 hready.2.2
      · cases h
  | frame r' =>
      cases hpeer
      simp only [stepPeer] at h
      split at h
      · next hphase =>
          split at h
          · cases h
          · next client msg hframe =>
              cases h
              exact .frame hphase hframe
      · cases h
  | updateServer r' =>
      cases hpeer
      simp only [stepPeer] at h
      split at h
      · next hready =>
          cases h
          exact .updateServer hready.1 rfl
      · cases h
  | key r' key press =>
      cases hpeer
      simp only [stepPeer] at h
      split at h
      · next hphase =>
          cases h
          exact .key hphase rfl
      · cases h
  | _ => cases hpeer

theorem moves_of_step {S S' : System} {e : Event} (h : S.step platform depth e = some S') :
    Moves platform depth S e S' := by
  unfold step at h
  split at h
  · next r =>
      split at h
      · next happroved =>
          cases h
          exact .close happroved
      · cases h
  · split at h
    · next r hpeer =>
        obtain ⟨peer, hstep, rfl⟩ := Option.map_eq_some_iff.mp h
        exact moves_of_stepPeer hpeer hstep
    · split at h
      · next hup => exact moves_of_stepServer hup h
      · cases h

end System

end SnekCpp
