import SnekCpp.Game.System

/-!
# Delivery by value

The steps of the system, but a message arrives as the value that was passed to
`Send`, without a look at the bytes.
-/

namespace SnekCpp

open Lib Networking

namespace System

variable (platform : Platform) (depth : ℕ)

/-- The server's read loop has queued `msg`. -/
def readValue (S : System) (r : ConnRef) (msg : Msg) : System :=
  { S with
    server.m_qMessagesIn := S.server.m_qMessagesIn ++ [(r, msg)]
    readers := Function.update S.readers r
      { S.readers r with frames := (S.readers r).frames + 1 } }

/-- The client's read loop has queued `msg`. -/
def receiveValue (S : System) (r : ConnRef) (msg : Msg) : System :=
  S.setPeer r { S.peers r with
    m_qMessagesIn := (S.peers r).m_qMessagesIn ++ [msg]
    reader.frames := (S.peers r).reader.frames + 1 }

def stepByValue (S : System) (e : Event) : Option System :=
  match e with
  | .read r =>
      if S.fault = none ∧ S.server.isConnected r ∧ S.server.Validated r then
        ((S.peers r).sent[(S.readers r).frames]?).map (S.readValue r)
      else none
  | .receive r =>
      if (S.peers r).isConnected then
        ((sentTo S.server.log r)[(S.peers r).reader.frames]?).map (S.receiveValue r)
      else none
  | e => S.step platform depth e

/-- Every step, with what it found in the state. -/
inductive MovesByValue (S : System) : Event → System → Prop
  | read {r : ConnRef} {msg : Msg} (hup : S.fault = none)
      (hopen : S.server.isConnected r = true) (hvalidated : S.server.Validated r)
      (hsent : (S.peers r).sent[(S.readers r).frames]? = some msg) :
      MovesByValue S (.read r) (S.readValue r msg)
  | receive {r : ConnRef} {msg : Msg} (hopen : (S.peers r).isConnected = true)
      (hsent : (sentTo S.server.log r)[(S.peers r).reader.frames]? = some msg) :
      MovesByValue S (.receive r) (S.receiveValue r msg)
  | other {e : Event} {S' : System} (hread : ∀ r, e ≠ .read r) (hreceive : ∀ r, e ≠ .receive r)
      (hmoves : Moves platform depth S e S') : MovesByValue S e S'

variable {platform depth}

theorem moves_of_stepByValue {S S' : System} {e : Event}
    (h : S.stepByValue platform depth e = some S') : MovesByValue platform depth S e S' := by
  unfold stepByValue at h
  split at h
  · split at h
    · next hready =>
        obtain ⟨msg, hsent, rfl⟩ := Option.map_eq_some_iff.mp h
        exact .read hready.1 hready.2.1 hready.2.2 hsent
    · cases h
  · split at h
    · next hopen =>
        obtain ⟨msg, hsent, rfl⟩ := Option.map_eq_some_iff.mp h
        exact .receive hopen hsent
    · cases h
  · next hread hreceive => exact .other hread hreceive (moves_of_step h)

end System

end SnekCpp
