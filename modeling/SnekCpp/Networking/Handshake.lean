import SnekCpp.Networking.Connection

/-!
# The handshake of a connection

Before the message loop starts, the server's end writes a number and compares
what it reads with the scrambled one.  Both ends share the functions: what a
completion does depends on the owner of the connection.
-/

namespace SnekCpp.Networking

open Lib

variable {T : Type}

/-- `Connection::owner` -/
inductive Owner
  | server
  | client
  deriving DecidableEq

/-- A connection with its handshake values and the operations on them that are outstanding. -/
structure Endpoint (T : Type) extends Connection T where
  m_ownerType : Owner
  m_handshakeOut : UInt64 := 0
  m_handshakeIn : UInt64 := 0
  m_handshakeCheck : UInt64 := 0
  writingValidation : Bool := false
  readingValidation : Bool := false
  deriving DecidableEq

namespace Endpoint

def scramble (input : UInt64) : UInt64 :=
  let out := input ^^^ 0xDEADBEEFC0DECAFE
  let out := (out &&& 0xF0F0F0F0F0F0F0) >>> 4 ||| (out &&& 0x0F0F0F0F0F0F0F) <<< 4
  out ^^^ 0xC0DEFACE12345678

/-- The constructor, on an open socket at the time `now`. -/
def create [Inhabited T] (parent : Owner) (now : UInt64) : Endpoint T :=
  let endpoint := { m_ownerType := parent, m_msgTemporaryIn := default }
  if parent ≠ .server then endpoint
  else { endpoint with m_handshakeOut := now, m_handshakeCheck := scramble now }

def close (endpoint : Endpoint T) : Endpoint T := { endpoint with isOpen := false }

/-- Starts to send `m_handshakeOut`. -/
def writeValidation (endpoint : Endpoint T) : Endpoint T := { endpoint with writingValidation := true }

/-- Starts to read into `m_handshakeIn`. -/
def readValidation (endpoint : Endpoint T) : Endpoint T := { endpoint with readingValidation := true }

def readHeader (endpoint : Endpoint T) : Endpoint T := { endpoint with toConnection := endpoint.toConnection.readHeader }

/-- `ConnectToClient`, but for the id. -/
def connectToClient (endpoint : Endpoint T) : Endpoint T :=
  if endpoint.m_ownerType ≠ .server ∨ !endpoint.isOpen then endpoint
  else endpoint.writeValidation.readValidation

/-- The lambda of `WriteValidation`. -/
def onValidationWritten (endpoint : Endpoint T) (ec : Bool) : Endpoint T :=
  let endpoint := { endpoint with writingValidation := false }
  if ec then endpoint.close
  else if endpoint.m_ownerType = .client then endpoint.readHeader
  else endpoint

/-- The lambda of `ReadValidation` up to the call of `OnClientValidated`, and
whether it is called: then `ReadHeader` comes after it. -/
def onValidationRead (endpoint : Endpoint T) (ec : Bool) (bytes : List UInt8) : Endpoint T × Bool :=
  let endpoint := { endpoint with readingValidation := false }
  if ec then (endpoint.close, false)
  else
    let endpoint := { endpoint with m_handshakeIn := StandardLayout.fromBytes bytes }
    if endpoint.m_ownerType = .server then
      if endpoint.m_handshakeIn ≠ endpoint.m_handshakeCheck then (endpoint.close, false)
      else (endpoint, true)
    else ({ endpoint with m_handshakeOut := scramble endpoint.m_handshakeIn }.writeValidation, false)

variable [StandardLayout T]

/-- The lambda of `ReadHeader` or of `ReadBody`. -/
def onRead (endpoint : Endpoint T) (op : ReadOp) (ec : Bool) (bytes : List UInt8) : Endpoint T :=
  { endpoint with toConnection := endpoint.toConnection.onRead op ec bytes }

/-- The lambda that `Send` posts. -/
def send (endpoint : Endpoint T) (msg : Message T) : Option (Endpoint T) :=
  (endpoint.toConnection.send msg).map fun result ↦ { endpoint with toConnection := result.1 }

/-- The lambda of `WriteHeader` or of `WriteBody`. -/
def onWritten (endpoint : Endpoint T) (ec : Bool) : Option (Endpoint T) :=
  (endpoint.toConnection.onWritten ec).map fun result ↦ { endpoint with toConnection := result.1 }

end Endpoint

end SnekCpp.Networking
