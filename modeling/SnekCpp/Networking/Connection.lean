import SnekCpp.Networking.Message

/-!
# One end of a connection

`ReadHeader`, `ReadBody`, `WriteHeader` and `WriteBody` start an asynchronous
operation and return; the lambda that each of them passes to asio runs when
the operation completes.  A function of the source that starts an operation
records it as outstanding, and its lambda is a function of its own, named after
the completion it handles.
-/

namespace SnekCpp.Networking

open Lib

variable {T : Type} [StandardLayout T]

/-- An outstanding `async_write` of the outgoing queue. -/
inductive WriteOp
  | header
  | body
  deriving DecidableEq

/-- An outstanding `async_read` of the message loop. -/
inductive ReadOp
  | header
  | body
  deriving DecidableEq

structure Connection (T : Type) where
  /-- `m_socket.is_open()` -/
  isOpen : Bool := true
  m_qMessagesOut : List (Message T) := []
  m_msgTemporaryIn : Message T
  /-- What this connection has pushed onto its owner's `m_qMessagesIn`. -/
  m_qMessagesIn : List (Message T) := []
  writing : Option WriteOp := none
  reading : Option ReadOp := none
  deriving DecidableEq

namespace Connection

/-! ## The outgoing queue

Each function returns the bytes it hands to `async_write`, and `none` when it
calls `front()` on an empty queue. -/

def writeHeader (c : Connection T) : Option (Connection T × List UInt8) :=
  match c.m_qMessagesOut with
  | [] => none
  | msg :: _ => some ({ c with writing := some .header }, StandardLayout.toBytes msg.header)

omit [StandardLayout T] in
def writeBody (c : Connection T) : Option (Connection T × List UInt8) :=
  match c.m_qMessagesOut with
  | [] => none
  | msg :: _ => some ({ c with writing := some .body }, msg.body)

/-- The lambda that `Send` posts. -/
def send (c : Connection T) (msg : Message T) : Option (Connection T × List UInt8) :=
  let writingMessage := !c.m_qMessagesOut.isEmpty
  let c := { c with m_qMessagesOut := c.m_qMessagesOut ++ [msg] }
  if !writingMessage then c.writeHeader else some (c, [])

omit [StandardLayout T] in
/-- Both write lambdas close the socket and return when the write fails. -/
def writeFailed (c : Connection T) : Connection T :=
  { c with isOpen := false, writing := none }

/-- Remove the message at the front, then go on with the remaining ones. -/
def popFrontAndWrite (c : Connection T) : Option (Connection T × List UInt8) :=
  let c := { c with m_qMessagesOut := c.m_qMessagesOut.tail, writing := none }
  if !c.m_qMessagesOut.isEmpty then c.writeHeader else some (c, [])

/-- The lambda of `WriteHeader`. -/
def onHeaderWritten (c : Connection T) (ec : Bool) : Option (Connection T × List UInt8) :=
  if ec then some (c.writeFailed, [])
  else
    match c.m_qMessagesOut with
    | [] => none
    | msg :: _ => if 0 < msg.body.length then c.writeBody else c.popFrontAndWrite

/-- The lambda of `WriteBody`. -/
def onBodyWritten (c : Connection T) (ec : Bool) : Option (Connection T × List UInt8) :=
  if ec then some (c.writeFailed, []) else c.popFrontAndWrite

def onWritten (c : Connection T) (ec : Bool) : Option (Connection T × List UInt8) :=
  match c.writing with
  | none => none
  | some .header => c.onHeaderWritten ec
  | some .body => c.onBodyWritten ec

theorem writing_of_onWritten {c c' : Connection T} {ec : Bool} {bytes : List UInt8}
    (h : c.onWritten ec = some (c', bytes)) :
    c.writing ≠ none := by
  intro hnone
  rw [onWritten, hnone] at h
  cases h

/-! ## The read loop -/

omit [StandardLayout T] in
def readHeader (c : Connection T) : Connection T :=
  { c with reading := some .header }

omit [StandardLayout T] in
def readBody (c : Connection T) : Connection T :=
  { c with reading := some .body }

omit [StandardLayout T] in
/-- Save a copy of the buffer in the queue and continue listening. -/
def addToIncomingMessageQueue (c : Connection T) : Connection T :=
  { c with m_qMessagesIn := c.m_qMessagesIn ++ [c.m_msgTemporaryIn] }.readHeader

omit [StandardLayout T] in
/-- Both read lambdas close the socket and return when the read fails. -/
def readFailed (c : Connection T) : Connection T :=
  { c with isOpen := false, reading := none }

/-- The lambda of `ReadHeader`, with the bytes of the header. -/
def onHeaderRead (c : Connection T) (ec : Bool) (bytes : List UInt8) : Connection T :=
  if ec then c.readFailed
  else
    let c := { c with m_msgTemporaryIn.header := StandardLayout.fromBytes bytes }
    let bodySize := c.m_msgTemporaryIn.header.bodySize.toNat
    if 0 < bodySize then
      { c with m_msgTemporaryIn.body := c.m_msgTemporaryIn.body.takeD bodySize 0 }.readBody
    else
      -- The buffer's body is not touched on this branch.
      c.addToIncomingMessageQueue

omit [StandardLayout T] in
/-- The lambda of `ReadBody`, with the bytes of the body. -/
def onBodyRead (c : Connection T) (ec : Bool) (bytes : List UInt8) : Connection T :=
  if ec then c.readFailed
  else { c with m_msgTemporaryIn.body := bytes }.addToIncomingMessageQueue

/-- The size of the buffer of an outstanding read. -/
def readSize (c : Connection T) : ReadOp → ℕ
  | .header => StandardLayout.size (MessageHeader T)
  | .body => c.m_msgTemporaryIn.body.length

def onRead (c : Connection T) (op : ReadOp) (ec : Bool) (bytes : List UInt8) : Connection T :=
  match op with
  | .header => c.onHeaderRead ec bytes
  | .body => c.onBodyRead ec bytes

/-! ## What the outgoing queue still owes the stream -/

/-- Something is being written exactly when the queue is not empty. -/
def WritesQueue (c : Connection T) : Prop :=
  c.writing = none ↔ c.m_qMessagesOut = []

/-- The bytes of the queue that have not been handed to `async_write`. -/
def unsent (c : Connection T) : List UInt8 :=
  match c.writing, c.m_qMessagesOut with
  | some .header, msg :: rest => msg.body ++ rest.flatMap Message.frame
  | some .body, _ :: rest => rest.flatMap Message.frame
  | _, _ => []

omit [StandardLayout T] in
/-- The write completions to come. -/
def writesLeft (c : Connection T) : ℕ :=
  match c.writing with
  | none => 0
  | some .header => 2 * c.m_qMessagesOut.length
  | some .body => 2 * c.m_qMessagesOut.length - 1

theorem send_spec {c : Connection T} (h : c.WritesQueue) (msg : Message T) :
    ∃ c' bytes, c.send msg = some (c', bytes) ∧ c'.WritesQueue ∧
      bytes ++ c'.unsent = c.unsent ++ msg.frame ∧ c'.writesLeft = c.writesLeft + 2 := by
  cases hqueue : c.m_qMessagesOut with
  | nil =>
      have hidle : c.writing = none := h.mpr hqueue
      refine ⟨{ c with m_qMessagesOut := [msg], writing := some .header }, _,
        by simp [send, hqueue, writeHeader]; rfl, by simp [WritesQueue], ?_, ?_⟩
      · simp [unsent, hidle, Message.frame]
      · simp [writesLeft, hidle]
  | cons front rest =>
      have hbusy : c.writing ≠ none := fun hidle ↦ by simp [h.mp hidle] at hqueue
      refine ⟨{ c with m_qMessagesOut := front :: rest ++ [msg] }, [],
        by simp [send, hqueue], by simp [WritesQueue, hbusy], ?_, ?_⟩
      · cases hop : c.writing with
        | none => exact absurd hop hbusy
        | some op => cases op <;> simp [unsent, hqueue, hop]
      · cases hop : c.writing with
        | none => exact absurd hop hbusy
        | some op => cases op <;> simp [writesLeft, hqueue, hop] <;> omega

theorem popFrontAndWrite_spec {c : Connection T} {front : Message T} {rest : List (Message T)}
    (hqueue : c.m_qMessagesOut = front :: rest) :
    ∃ c' bytes, c.popFrontAndWrite = some (c', bytes) ∧ c'.WritesQueue ∧
      bytes ++ c'.unsent = rest.flatMap Message.frame ∧ c'.writesLeft = 2 * rest.length := by
  cases rest with
  | nil =>
      exact ⟨{ c with m_qMessagesOut := [], writing := none }, [],
        by simp [popFrontAndWrite, hqueue], by simp [WritesQueue], by simp [unsent],
        by simp [writesLeft]⟩
  | cons next rest =>
      refine ⟨{ c with m_qMessagesOut := next :: rest, writing := some .header }, _,
        by simp [popFrontAndWrite, hqueue, writeHeader]; rfl, by simp [WritesQueue], ?_, ?_⟩
      · simp [unsent, Message.frame]
      · simp [writesLeft]

/-- A completed write hands on the next bytes, and only those. -/
theorem onWritten_spec {c : Connection T} (h : c.WritesQueue) (hbusy : c.writing ≠ none) :
    ∃ c' bytes, c.onWritten false = some (c', bytes) ∧ c'.WritesQueue ∧
      bytes ++ c'.unsent = c.unsent ∧ c'.writesLeft < c.writesLeft := by
  have hne : c.m_qMessagesOut ≠ [] := fun hempty ↦ hbusy (h.mpr hempty)
  obtain ⟨front, rest, hqueue⟩ := List.exists_cons_of_ne_nil hne
  obtain ⟨c', bytes, hpop, hok, hbytes, hleft⟩ := popFrontAndWrite_spec hqueue
  obtain ⟨op, hop⟩ := Option.ne_none_iff_exists'.mp hbusy
  cases op with
  | header =>
      by_cases hbody : 0 < front.body.length
      · refine ⟨{ c with writing := some .body }, front.body,
          by simp [onWritten, onHeaderWritten, hop, hqueue, hbody, writeBody],
          by simp [WritesQueue, hqueue], ?_, ?_⟩
        · simp [unsent, hqueue, hop]
        · simp [writesLeft, hqueue, hop]
      · have hempty : front.body = [] := by simpa using hbody
        refine ⟨c', bytes, by simp [onWritten, onHeaderWritten, hop, hqueue, hbody, hpop],
          hok, ?_, ?_⟩
        · rw [hbytes]
          simp [unsent, hqueue, hop, hempty]
        · rw [hleft]
          simp [writesLeft, hqueue, hop]
  | body =>
      refine ⟨c', bytes, by simp [onWritten, onBodyWritten, hop, hpop], hok, ?_, ?_⟩
      · rw [hbytes]
        simp [unsent, hqueue, hop]
      · rw [hleft]
        simp only [writesLeft, hqueue, hop, List.length_cons]
        omega

end Connection

end SnekCpp.Networking
