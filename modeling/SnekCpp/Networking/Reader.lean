import SnekCpp.Networking.Framing

/-!
# Reading a stream frame by frame

A stream carries the frames of the messages that one end has passed to `Send`.
The reader of the other end takes a header and, if the header announces one, a
body; both go through the buffer that the frame before has left behind.
-/

namespace SnekCpp.Networking

open Lib

variable {T : Type} [StandardLayout T]

/-- The bytes of a stream on which `sent` has been sent. -/
def stream (sent : List (Message T)) : List UInt8 := sent.flatMap Message.frame

structure Reader (T : Type) where
  /-- The bytes that have been read. -/
  consumed : ℕ := 0
  /-- The messages that have been read. -/
  frames : ℕ := 0
  m_msgTemporaryIn : Message T
  deriving Inhabited

namespace Reader

/-- The connection of a reader that waits for a header. -/
def connection (reader : Reader T) : Connection T :=
  Connection.readHeader { m_msgTemporaryIn := reader.m_msgTemporaryIn }

/-- One message, from its header to `AddToIncomingMessageQueue`, if all its
bytes are there. -/
def read (reader : Reader T) (bytes : List UInt8) : Option (Message T × Reader T) :=
  let size := reader.connection.readSize .header
  let rest := bytes.drop reader.consumed
  if size ≤ rest.length then
    let c := reader.connection.onHeaderRead false (rest.take size)
    match c.reading with
    | some .body =>
        let bodySize := c.readSize .body
        if bodySize ≤ (rest.drop size).length then
          let c := c.onBodyRead false ((rest.drop size).take bodySize)
          some (c.m_msgTemporaryIn, {
            consumed := reader.consumed + size + bodySize
            frames := reader.frames + 1
            m_msgTemporaryIn := c.m_msgTemporaryIn })
        else none
    | _ =>
        some (c.m_msgTemporaryIn, {
          consumed := reader.consumed + size
          frames := reader.frames + 1
          m_msgTemporaryIn := c.m_msgTemporaryIn })
  else none

/-- A message that is read takes at least a header, and none of the bytes that
come after it. -/
theorem read_spec {reader next : Reader T} {bytes : List UInt8} {msg : Message T}
    (h : reader.read bytes = some (msg, next)) :
    next.frames = reader.frames + 1 ∧ reader.consumed < next.consumed ∧
      next.consumed ≤ bytes.length ∧ ∀ more, reader.read (bytes ++ more) = some (msg, next) := by
  have hpos : 0 < reader.connection.readSize .header := MessageHeader.size_pos
  have hrest := @List.length_drop _ reader.consumed bytes
  unfold read at h
  simp only at h
  split at h
  · next hheader =>
      have hle : reader.consumed ≤ bytes.length := by omega
      have hheader' : reader.connection.readSize .header ≤
          (bytes.drop reader.consumed).length := hheader
      split at h
      · next hreading =>
          split at h
          · next hbody =>
              cases h
              have hlen := hbody
              rw [List.length_drop, hrest] at hlen
              refine ⟨rfl, ?_, ?_, fun more ↦ ?_⟩
              · change reader.consumed < reader.consumed + _ + _
                omega
              · change reader.consumed + _ + _ ≤ bytes.length
                omega
              · simp only [read, List.drop_append_of_le_length hle,
                  List.take_append_of_le_length hheader', List.drop_append_of_le_length hheader',
                  hreading, List.take_append_of_le_length hbody]
                rw [if_pos (by simp only [List.length_append]; omega), if_pos (by
                  simp only [List.length_append]; omega)]
          · cases h
      · cases h
        refine ⟨rfl, ?_, ?_, fun more ↦ ?_⟩
        · change reader.consumed < reader.consumed + _
          omega
        · change reader.consumed + _ ≤ bytes.length
          omega
        · simp only [read, List.drop_append_of_le_length hle,
            List.take_append_of_le_length hheader']
          rw [if_pos (by simp only [List.length_append]; omega)]
  · cases h

/-- The body that the frame before has left in the buffer. -/
def stale (reader : Reader T) : List UInt8 := reader.m_msgTemporaryIn.body

/-- The messages that have not been read. -/
def unread (reader : Reader T) (sent : List (Message T)) : List (Message T) :=
  sent.drop reader.frames

/-- The reader stands between two frames. -/
structure InStep (reader : Reader T) (sent : List (Message T)) : Prop where
  frames_le : reader.frames ≤ sent.length
  consumed : reader.consumed = (stream (sent.take reader.frames)).length

omit [StandardLayout T] in
theorem unread_append {reader : Reader T} {sent : List (Message T)}
    (h : reader.frames ≤ sent.length) (more : List (Message T)) :
    reader.unread (sent ++ more) = reader.unread sent ++ more :=
  List.drop_append_of_le_length h

theorem stream_append (xs ys : List (Message T)) : stream (xs ++ ys) = stream xs ++ stream ys :=
  List.flatMap_append

namespace InStep

variable {reader : Reader T} {sent : List (Message T)}

theorem append (h : reader.InStep sent) (more : List (Message T)) :
    reader.InStep (sent ++ more) where
  frames_le := h.frames_le.trans (by simp)
  consumed := by rw [h.consumed, List.take_append_of_le_length h.frames_le]

/-- What is left on the stream are the frames that have not been read. -/
theorem drop_consumed (h : reader.InStep sent) :
    (stream sent).drop reader.consumed = stream (reader.unread sent) := by
  have hsplit : stream sent = stream (sent.take reader.frames) ++ stream (reader.unread sent) := by
    rw [← stream_append, unread, List.take_append_drop]
  rw [hsplit, h.consumed, List.drop_left]

theorem stream_ne_nil {msg : Message T} {msgs : List (Message T)} : stream (msg :: msgs) ≠ [] := by
  intro hnil
  have hpos : 0 < StandardLayout.size (MessageHeader T) := MessageHeader.size_pos
  have hlen := congrArg List.length hnil
  simp only [stream, List.flatMap_cons, Message.frame, List.length_append,
    StandardLayout.length_toBytes, List.length_nil] at hlen
  omega

theorem unread_eq_nil (h : reader.InStep sent) (hend : reader.consumed = (stream sent).length) :
    reader.unread sent = [] := by
  have hrest := h.drop_consumed
  rw [hend, List.drop_length] at hrest
  cases hunread : reader.unread sent with
  | nil => rfl
  | cons msg msgs =>
      rw [hunread] at hrest
      exact absurd hrest.symm stream_ne_nil

theorem read_nil (h : reader.InStep sent) (hunread : reader.unread sent = []) :
    reader.read (stream sent) = none := by
  have hpos : 0 < reader.connection.readSize .header := MessageHeader.size_pos
  have hsize : ¬ reader.connection.readSize .header ≤ 0 := by omega
  have hrest : (stream sent).drop reader.consumed = [] := by
    rw [h.drop_consumed, hunread]
    rfl
  simp only [read, hrest, List.length_nil, if_neg hsize]

omit [StandardLayout T] in
theorem unread_next (next : Reader T) (hframes : next.frames = reader.frames + 1)
    {msg : Message T} {rest : List (Message T)} (hunread : reader.unread sent = msg :: rest) :
    next.unread sent = rest := by
  rw [unread, hframes, ← List.drop_drop]
  change (reader.unread sent).drop 1 = rest
  rw [hunread]
  rfl

/-- The next message is read whole, into the buffer that the last one has left. -/
theorem read_cons (h : reader.InStep sent) {msg : Message T} {rest : List (Message T)}
    (hunread : reader.unread sent = msg :: rest) (hframed : msg.WellFramed) :
    ∃ next, reader.read (stream sent) = some (msg.received reader.stale, next) ∧
      next.InStep sent ∧ next.unread sent = rest ∧ next.stale = (msg.received reader.stale).body := by
  have hheader : (StandardLayout.toBytes msg.header).length = reader.connection.readSize .header :=
    StandardLayout.length_toBytes _
  have hbytes : (stream sent).drop reader.consumed =
      StandardLayout.toBytes msg.header ++ (msg.body ++ stream rest) := by
    rw [h.drop_consumed, hunread]
    simp [stream, Message.frame]
  have hlt : reader.frames < sent.length := by
    by_contra hge
    rw [unread, List.drop_of_length_le (by omega)] at hunread
    cases hunread
  have hget : sent[reader.frames] = msg := by
    have hhead := congrArg List.head? hunread
    simpa [unread, List.head?_drop, List.getElem?_eq_getElem hlt] using hhead
  have hconsumed : (stream (sent.take (reader.frames + 1))).length =
      reader.consumed + (reader.connection.readSize .header + msg.body.length) := by
    rw [List.take_add_one, List.getElem?_eq_getElem hlt, stream_append, List.length_append,
      ← h.consumed, hget]
    simp [stream, Message.frame, Connection.readSize]
  have hsize : reader.connection.readSize .header ≤
      (StandardLayout.toBytes msg.header ++ (msg.body ++ stream rest)).length := by
    rw [List.length_append, hheader]
    omega
  by_cases hempty : msg.body = []
  · have hzero := hframed.bodySize_eq_zero_iff.mpr hempty
    refine ⟨⟨reader.consumed + reader.connection.readSize .header, reader.frames + 1,
      msg.received reader.stale⟩, ?_, ⟨hlt, ?_⟩, unread_next _ rfl hunread, rfl⟩
    · simp only [read, hbytes, ← hheader, List.take_left]
      simp [connection, Connection.onHeaderRead, hzero, Connection.addToIncomingMessageQueue,
        Connection.readHeader, Message.received, hempty, stale]
    · rw [hconsumed, hempty]
      simp
  · have hbody : msg.header.bodySize.toNat = msg.body.length := hframed
    refine ⟨⟨reader.consumed + reader.connection.readSize .header + msg.body.length,
      reader.frames + 1, msg.received reader.stale⟩, ?_, ⟨hlt, ?_⟩, unread_next _ rfl hunread, rfl⟩
    · have hpos' : 0 < msg.body.length := List.length_pos_iff.mpr hempty
      simp only [read, hbytes, ← hheader, List.take_left, List.drop_left]
      simp [connection, Connection.onHeaderRead, hpos', Connection.readBody,
        Connection.onBodyRead, Connection.addToIncomingMessageQueue, Connection.readHeader,
        Message.received, hempty, hbody, Connection.readSize, List.takeD_length]
    · rw [hconsumed]
      simp [Nat.add_assoc]

end InStep

end Reader

end SnekCpp.Networking
