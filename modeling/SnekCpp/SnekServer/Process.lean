import SnekCpp.Lib.Transition
import SnekCpp.Networking.Handshake
import SnekCpp.SnekServer.Outcomes

/-!
# The server process

The server with its end of every connection that it has approved.  Each lambda
that asio runs is one step, and so is one turn of `Update`; nothing is assumed
of the clients, which may send any bytes.
-/

namespace SnekCpp

open Lib Networking

/-- Calls of the functions that the server overrides, and what is approved. -/
inductive Call
  /-- A connection is approved, with its challenge. -/
  | approved (r : ConnRef) (m_handshakeOut : UInt64)
  /-- `OnClientValidated`, after the answer has been read. -/
  | onClientValidated (r : ConnRef) (m_handshakeIn : UInt64)
  | onMessage (r : ConnRef) (msg : Msg)
  deriving DecidableEq

structure Process where
  server : Server := .init
  /-- What has ended the process. -/
  fault : Option Fault := none
  connections : ConnRef → Endpoint MessageTypes := fun _ ↦ .create .server 0
  /-- How many of the lambdas that `Send` has posted have run. -/
  posted : ConnRef → ℕ := fun _ ↦ 0
  calls : List Call := []

namespace Process

inductive Event
  /-- A client connects at the time `now`. -/
  | accept (now : UInt64)
  /-- The handshake value has been written. -/
  | validationWritten (r : ConnRef) (ec : Bool)
  /-- Eight bytes have been read into the handshake value. -/
  | validationRead (r : ConnRef) (env : Env) (ec : Bool) (bytes : List UInt8)
  /-- The buffer of a header or of a body has been filled. -/
  | read (r : ConnRef) (ec : Bool) (bytes : List UInt8)
  /-- The next lambda that `Send` has posted runs. -/
  | send (r : ConnRef)
  /-- A header or a body has been written. -/
  | written (r : ConnRef) (ec : Bool)
  /-- The server handles a message. -/
  | update (env : Env)

variable (platform : Platform) (depth : ℕ)

/-- A connection after a step; the server sees whether its socket is open. -/
def setConnection (S : Process) (r : ConnRef) (c : Endpoint MessageTypes) : Process :=
  { S with
    connections := Function.update S.connections r c
    server.isConnected := Function.update S.server.isConnected r c.isOpen }

def call (S : Process) (c : Call) : Process := { S with calls := S.calls ++ [c] }

/-- The server runs a handler. -/
def serve (S : Process) (handler : ServerM Unit) : Process :=
  match handler.run S.server with
  | .ok _ server => { S with server }
  | .error fault server => { S with server, fault := some fault }

/-- The server with a connection that `OnClientConnect` has allowed. -/
def approve (S : Process) (now : UInt64) : Process :=
  { S with
    server := S.server.onAccept
    connections := Function.update S.connections S.server.approved
      (Endpoint.create .server now).connectToClient
    calls := S.calls ++ [.approved S.server.approved now] }

/-- The lambda of `WaitForClientConnection`. -/
def onAccept (S : Process) (now : UInt64) : Process :=
  if S.server.onClientConnect then S.approve now else S

/-- `OnClientValidated`, and `ReadHeader` after it. -/
def validate (S : Process) (r : ConnRef) (env : Env) (c : Endpoint MessageTypes) : Process :=
  let S := (S.call (.onClientValidated r c.m_handshakeIn)).serve
    (Server.onClientValidated platform env depth r)
  if S.fault = none then S.setConnection r c.readHeader else S

/-- The lambda of `ReadValidation`. -/
def onValidationRead (S : Process) (r : ConnRef) (env : Env) (ec : Bool) (bytes : List UInt8) :
    Process :=
  let (c, validated) := (S.connections r).onValidationRead ec bytes
  let S := S.setConnection r c
  if validated then S.validate platform depth r env c else S

/-- The lambda of `ReadHeader` or of `ReadBody`, which pushes whole messages
onto the server's queue. -/
def onRead (S : Process) (r : ConnRef) (op : ReadOp) (ec : Bool) (bytes : List UInt8) : Process :=
  let c := (S.connections r).onRead op ec bytes
  let received := c.m_qMessagesIn.drop (S.connections r).m_qMessagesIn.length
  let S := S.setConnection r c
  { S with
    server.m_qMessagesIn := S.server.m_qMessagesIn ++ received.map fun msg ↦ (r, msg) }

def stepRunning (S : Process) : Event → Option Process
  | .accept now => some (S.onAccept now)
  | .validationWritten r ec =>
      if (S.connections r).writingValidation then
        some (S.setConnection r ((S.connections r).onValidationWritten ec))
      else none
  | .validationRead r env ec bytes =>
      if (S.connections r).readingValidation ∧ (ec ∨ bytes.length = 8) then
        some (S.onValidationRead platform depth r env ec bytes)
      else none
  | .read r ec bytes =>
      match (S.connections r).reading with
      | none => none
      | some op =>
          if ec ∨ bytes.length = (S.connections r).readSize op then some (S.onRead r op ec bytes)
          else none
  | .send r =>
      match (sentTo S.server.log r)[S.posted r]? with
      | none => none
      | some msg =>
          ((S.connections r).send msg).map fun c ↦
            { S.setConnection r c with posted := Function.update S.posted r (S.posted r + 1) }
  | .written r ec => ((S.connections r).onWritten ec).map (S.setConnection r)
  | .update env =>
      match S.server.m_qMessagesIn with
      | [] => none
      | (r, msg) :: rest =>
          some (({ S with server.m_qMessagesIn := rest }.call (.onMessage r msg)).serve
            (Server.onMessage platform env depth r msg))

/-- A fault ends the process. -/
def step (S : Process) (e : Event) : Option Process :=
  if S.fault = none then S.stepRunning platform depth e else none

/-! ## What a step can do -/

/-- Every step, with what it found in the state. -/
inductive Moves (S : Process) : Event → Process → Prop
  | approved {now : UInt64} (hallowed : S.server.onClientConnect = true) :
      Moves S (.accept now) (S.approve now)
  | denied {now : UInt64} : Moves S (.accept now) S
  | validationWritten {r : ConnRef} {ec : Bool}
      (hwriting : (S.connections r).writingValidation = true) :
      Moves S (.validationWritten r ec)
        (S.setConnection r ((S.connections r).onValidationWritten ec))
  | rejected {r : ConnRef} {env : Env} {ec : Bool} {bytes : List UInt8}
      {c : Endpoint MessageTypes} (hreading : (S.connections r).readingValidation = true)
      (hread : (S.connections r).onValidationRead ec bytes = (c, false)) :
      Moves S (.validationRead r env ec bytes) (S.setConnection r c)
  | validated {r : ConnRef} {env : Env} {ec : Bool} {bytes : List UInt8}
      {c : Endpoint MessageTypes} (hreading : (S.connections r).readingValidation = true)
      (hread : (S.connections r).onValidationRead ec bytes = (c, true)) :
      Moves S (.validationRead r env ec bytes)
        ((S.setConnection r c).validate platform depth r env c)
  | read {r : ConnRef} {op : ReadOp} {ec : Bool} {bytes : List UInt8}
      (hreading : (S.connections r).reading = some op) :
      Moves S (.read r ec bytes) (S.onRead r op ec bytes)
  | send {r : ConnRef} {msg : Msg} {c : Endpoint MessageTypes}
      (hposted : (sentTo S.server.log r)[S.posted r]? = some msg)
      (hsend : (S.connections r).send msg = some c) :
      Moves S (.send r)
        { S.setConnection r c with posted := Function.update S.posted r (S.posted r + 1) }
  | written {r : ConnRef} {ec : Bool} {c : Endpoint MessageTypes}
      (hwritten : (S.connections r).onWritten ec = some c) :
      Moves S (.written r ec) (S.setConnection r c)
  | update {env : Env} {r : ConnRef} {msg : Msg} {rest : List (ConnRef × Msg)}
      (hqueue : S.server.m_qMessagesIn = (r, msg) :: rest) :
      Moves S (.update env)
        (({ S with server.m_qMessagesIn := rest }.call (.onMessage r msg)).serve
          (Server.onMessage platform env depth r msg))

variable {platform depth}

theorem moves_of_stepRunning {S S' : Process} {e : Event}
    (h : S.stepRunning platform depth e = some S') : Moves platform depth S e S' := by
  cases e with
  | accept now =>
      cases h
      unfold onAccept
      split
      · next hallowed => exact .approved hallowed
      · exact .denied
  | validationWritten r ec =>
      simp only [stepRunning] at h
      split at h
      · next hwriting =>
          cases h
          exact .validationWritten hwriting
      · cases h
  | validationRead r env ec bytes =>
      simp only [stepRunning] at h
      split at h
      · next hready =>
          cases h
          unfold onValidationRead
          cases hread : (S.connections r).onValidationRead ec bytes with
          | mk c validated =>
              cases validated with
              | false => exact .rejected hready.1 hread
              | true => exact .validated hready.1 hread
      · cases h
  | read r ec bytes =>
      simp only [stepRunning] at h
      split at h
      · cases h
      · next op hreading =>
          split at h
          · cases h
            exact .read hreading
          · cases h
  | send r =>
      simp only [stepRunning] at h
      split at h
      · cases h
      · next msg hposted =>
          obtain ⟨c, hsend, rfl⟩ := Option.map_eq_some_iff.mp h
          exact .send hposted hsend
  | written r ec =>
      obtain ⟨c, hwritten, rfl⟩ := Option.map_eq_some_iff.mp h
      exact .written hwritten
  | update env =>
      simp only [stepRunning] at h
      split at h
      · cases h
      · next r msg rest hqueue =>
          cases h
          exact .update hqueue

theorem moves_of_step {S S' : Process} {e : Event} (h : S.step platform depth e = some S') :
    S.fault = none ∧ Moves platform depth S e S' := by
  unfold step at h
  split at h
  · next hup => exact ⟨hup, moves_of_stepRunning h⟩
  · cases h

end Process

end SnekCpp
