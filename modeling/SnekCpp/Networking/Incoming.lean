import SnekCpp.Lib.Chunks
import SnekCpp.Networking.Reader

/-!
# The read loop and the bytes that arrive

Bytes arrive in pieces of any size, and the outstanding read of the loop
completes at some time after enough of them are there.  Neither the pieces nor
the times show in what is queued, and what is queued says what has arrived.
-/

namespace SnekCpp.Networking

open Lib

variable {T : Type} [StandardLayout T]

/-- A connection whose handshake is done, and the bytes on their way to it. -/
structure Incoming (T : Type) where
  connection : Connection T
  /-- The bytes that have arrived and that no read has taken. -/
  wire : List UInt8 := []
  arrived : List UInt8 := []

inductive IncomingEvent
  | arrive (bytes : List UInt8)
  /-- The outstanding read completes. -/
  | read
  /-- The outstanding read fails. -/
  | fail

/-- The read loop of a connection. -/
def Connection.loop : ExactReader (Connection T) UInt8 where
  need c :=
    match c.reading with
    | none => 0
    | some op => c.readSize op
  take c bytes :=
    match c.reading with
    | none => c
    | some op => c.onRead op false bytes

namespace Incoming

omit [StandardLayout T] in
def fresh [Inhabited T] : Incoming T where
  connection := Connection.readHeader { m_msgTemporaryIn := default }

def step (I : Incoming T) : IncomingEvent → Option (Incoming T)
  | .arrive bytes => some { I with wire := I.wire ++ bytes, arrived := I.arrived ++ bytes }
  | .read =>
      if Connection.loop.Ready I.connection I.wire then
        let size := Connection.loop.need I.connection
        some { I with
          connection := Connection.loop.take I.connection (I.wire.take size)
          wire := I.wire.drop size }
      else none
  | .fail =>
      match I.connection.reading with
      | none => none
      | some op => some { I with connection := I.connection.onRead op true [] }

/-- The outstanding read waits for more bytes. -/
def Waits (I : Incoming T) : Prop := ¬ Connection.loop.Ready I.connection I.wire

instance (I : Incoming T) : Decidable I.Waits := inferInstanceAs (Decidable (¬ _))

/-- Every step, with what it found in the state. -/
inductive Moves (I : Incoming T) : IncomingEvent → Incoming T → Prop
  | arrive (bytes : List UInt8) :
      Moves I (.arrive bytes) { I with wire := I.wire ++ bytes, arrived := I.arrived ++ bytes }
  | header {bytes rest : List UInt8} (hreading : I.connection.reading = some .header)
      (hlen : bytes.length = StandardLayout.size (MessageHeader T)) (hwire : I.wire = bytes ++ rest) :
      Moves I .read { I with connection := I.connection.onHeaderRead false bytes, wire := rest }
  | body {bytes rest : List UInt8} (hreading : I.connection.reading = some .body)
      (hlen : bytes.length = I.connection.m_msgTemporaryIn.body.length)
      (hwire : I.wire = bytes ++ rest) :
      Moves I .read { I with connection := I.connection.onBodyRead false bytes, wire := rest }
  | fail {op : ReadOp} (hreading : I.connection.reading = some op) :
      Moves I .fail { I with connection := I.connection.onRead op true [] }

theorem moves_of_step {I I' : Incoming T} {e : IncomingEvent} (h : I.step e = some I') :
    I.Moves e I' := by
  cases e with
  | arrive bytes =>
      cases h
      exact .arrive bytes
  | read =>
      obtain ⟨⟨hpos, hle⟩, h⟩ := Option.ite_none_right_eq_some.mp h
      cases h
      have hsplit := (List.take_append_drop (Connection.loop.need I.connection) I.wire).symm
      have hlen : (I.wire.take (Connection.loop.need I.connection)).length =
          Connection.loop.need I.connection := by
        rw [List.length_take]
        omega
      cases hreading : I.connection.reading with
      | none => simp [Connection.loop, hreading] at hpos
      | some op =>
          cases op with
          | header =>
              simp only [Connection.loop, hreading] at hlen hsplit ⊢
              exact .header hreading hlen hsplit
          | body =>
              simp only [Connection.loop, hreading] at hlen hsplit ⊢
              exact .body hreading hlen hsplit
  | fail =>
      simp only [step] at h
      split at h
      · cases h
      · next hreading =>
          cases h
          exact .fail hreading

/-! ## The pieces do not show -/

theorem isOpen_onHeaderRead (c : Connection T) (bytes : List UInt8) :
    (c.onHeaderRead false bytes).isOpen = c.isOpen := by
  simp only [Connection.onHeaderRead, Bool.false_eq_true, ↓reduceIte]
  split <;> rfl

theorem isOpen_take (c : Connection T) (bytes : List UInt8) :
    (Connection.loop.take c bytes).isOpen = c.isOpen := by
  cases hreading : c.reading with
  | none => simp only [Connection.loop, hreading]
  | some op =>
      cases op with
      | body =>
          simp only [Connection.loop, hreading]
          rfl
      | header =>
          simp only [Connection.loop, hreading]
          exact isOpen_onHeaderRead c bytes

theorem isOpen_onRead_failed (c : Connection T) (op : ReadOp) (bytes : List UInt8) :
    (c.onRead op true bytes).isOpen = false := by
  cases op <;> rfl

/-- As long as no read has failed, the reads to come lead where all of them
together would have led. -/
def Undisturbed [Inhabited T] (I : Incoming T) : Prop :=
  I.connection.isOpen = true →
    Connection.loop.drain (fresh : Incoming T).connection I.arrived =
      Connection.loop.drain I.connection I.wire

theorem undisturbed_of_reaches [Inhabited T] {I : Incoming T}
    (h : Reaches step (fun _ _ ↦ True) fresh I) : I.Undisturbed := by
  refine h.invariant (I := Undisturbed) (fun _ ↦ rfl) ?_
  intro I e I' ih _ hstep hopen
  cases e with
  | arrive bytes =>
      cases hstep
      have hdrain := ih hopen
      change Connection.loop.drain _ (I.arrived ++ bytes) =
        Connection.loop.drain I.connection (I.wire ++ bytes)
      rw [ExactReader.drain_append, hdrain, ← ExactReader.drain_append]
  | read =>
      obtain ⟨hready, hstep⟩ := Option.ite_none_right_eq_some.mp hstep
      cases hstep
      have hdrain := ih (by rw [← hopen, isOpen_take])
      rw [hdrain, ExactReader.drain_of_ready hready]
  | fail =>
      simp only [step] at hstep
      split at hstep
      · cases hstep
      · cases hstep
        rw [isOpen_onRead_failed] at hopen
        cases hopen

/-- Two connections to which the same bytes have come agree when both wait for more,
however the bytes were cut and whenever the reads completed. -/
theorem determined [Inhabited T] {I J : Incoming T} (hI : Reaches step (fun _ _ ↦ True) fresh I)
    (hJ : Reaches step (fun _ _ ↦ True) fresh J) (hsame : I.arrived = J.arrived)
    (hopenI : I.connection.isOpen = true) (hopenJ : J.connection.isOpen = true)
    (hwaitsI : I.Waits) (hwaitsJ : J.Waits) : I.connection = J.connection ∧ I.wire = J.wire := by
  have hdrainI := undisturbed_of_reaches hI hopenI
  have hdrainJ := undisturbed_of_reaches hJ hopenJ
  rw [ExactReader.drain_of_not_ready hwaitsI] at hdrainI
  rw [ExactReader.drain_of_not_ready hwaitsJ, ← hsame, hdrainI] at hdrainJ
  exact Prod.mk.inj hdrainJ

/-- A message of two bytes at once, and cut in the middle of its header. -/
theorem determined_cut : ∃ I J : Incoming UInt32, I.connection.m_qMessagesIn = [⟨⟨4, 2⟩, [7, 9]⟩] ∧
    I.connection = J.connection ∧ I.wire = J.wire := by
  obtain ⟨I, hI, hcheckI⟩ := @exists_reaches_of_run _ _ (@step UInt32 _) fresh
    [.arrive [4, 0, 0, 0, 2, 0, 0, 0, 7, 9], .read, .read]
    (fun I ↦ decide (I.connection.m_qMessagesIn = [⟨⟨4, 2⟩, [7, 9]⟩] ∧
      I.arrived = [4, 0, 0, 0, 2, 0, 0, 0, 7, 9] ∧ I.connection.isOpen = true ∧ I.Waits))
    (by decide +kernel)
  obtain ⟨J, hJ, hcheckJ⟩ := @exists_reaches_of_run _ _ (@step UInt32 _) fresh
    [.arrive [4, 0, 0, 0, 2], .arrive [0, 0, 0, 7], .read, .arrive [9], .read]
    (fun J ↦ decide (J.arrived = [4, 0, 0, 0, 2, 0, 0, 0, 7, 9] ∧
      J.connection.isOpen = true ∧ J.Waits))
    (by decide +kernel)
  obtain ⟨hqueue, harrivedI, hopenI, hwaitsI⟩ := of_decide_eq_true hcheckI
  obtain ⟨harrivedJ, hopenJ, hwaitsJ⟩ := of_decide_eq_true hcheckJ
  exact ⟨I, J, hqueue, determined hI hJ (harrivedI.trans harrivedJ.symm) hopenI hopenJ hwaitsI
    hwaitsJ⟩

/-! ## What is queued -/

end Incoming

/-- A message as it was on the stream: where the header announces no body, the body
in the buffer is the one of an earlier message. -/
def Message.onStream (msg : Message T) : Message T :=
  if msg.header.bodySize = 0 then { msg with body := [] } else msg

namespace Incoming

/-- The bytes that reads have taken for a message that is not queued yet. -/
def TakenFor (c : Connection T) (taken : List UInt8) : Prop :=
  match c.reading with
  | some .header => taken = []
  | some .body => taken = StandardLayout.toBytes c.m_msgTemporaryIn.header ∧
      0 < c.m_msgTemporaryIn.body.length ∧
      c.m_msgTemporaryIn.body.length = c.m_msgTemporaryIn.header.bodySize.toNat
  | none => True

/-- The bytes that have arrived are those of the queued messages, of one that is not
complete, and those that no read has taken. -/
structure Reencodes (I : Incoming T) : Prop where
  arrived : ∃ taken, TakenFor I.connection taken ∧
    I.arrived = stream (I.connection.m_qMessagesIn.map Message.onStream) ++ taken ++ I.wire
  wellFramed : ∀ msg ∈ I.connection.m_qMessagesIn, msg.onStream.WellFramed

namespace Reencodes

variable {I I' : Incoming T}

theorem start [Inhabited T] : (fresh : Incoming T).Reencodes where
  arrived := ⟨[], rfl, rfl⟩
  wellFramed msg hmsg := by cases hmsg

theorem stream_concat (msgs : List (Message T)) (msg : Message T) :
    stream (msgs ++ [msg]) = stream msgs ++ msg.frame := by
  simp [stream]

/-- The header is complete, and so is the message if it has no body. -/
theorem of_header [ExactLayout T] (h : I.Reencodes) (hreading : I.connection.reading = some .header)
    {bytes rest : List UInt8} (hlen : bytes.length = StandardLayout.size (MessageHeader T))
    (hwire : I.wire = bytes ++ rest) :
    Reencodes { I with connection := I.connection.onHeaderRead false bytes, wire := rest } := by
  obtain ⟨taken, htaken, harrived⟩ := h.arrived
  have hnil : taken = [] := by
    simpa only [TakenFor, hreading] using htaken
  subst hnil
  have hbytes : StandardLayout.toBytes (StandardLayout.fromBytes bytes : MessageHeader T) = bytes :=
    ExactLayout.toBytes_fromBytes bytes hlen
  simp only [Connection.onHeaderRead, Bool.false_eq_true, ↓reduceIte]
  generalize (StandardLayout.fromBytes bytes : MessageHeader T) = header at hbytes ⊢
  by_cases hpos : 0 < header.bodySize.toNat
  · simp only [hpos, ↓reduceIte]
    refine ⟨⟨bytes, ⟨hbytes.symm, ?_, ?_⟩, ?_⟩, h.wellFramed⟩
    · simpa [Connection.readBody] using hpos
    · simp [Connection.readBody]
    · rw [harrived, hwire]
      simp [Connection.readBody]
  · have hzero : header.bodySize = 0 := by
      apply UInt32.toNat_inj.mp
      exact Nat.eq_zero_of_not_pos hpos
    simp only [hpos, ↓reduceIte]
    have hframe : (Message.onStream ⟨header, I.connection.m_msgTemporaryIn.body⟩).frame = bytes := by
      simp [Message.onStream, hzero, Message.frame, hbytes]
    refine ⟨⟨[], rfl, ?_⟩, ?_⟩
    · simp only [Connection.addToIncomingMessageQueue, Connection.readHeader, List.map_append,
        List.map_cons, List.map_nil, stream_concat, hframe, harrived, hwire]
      simp
    · intro msg hmsg
      rcases List.mem_append.mp hmsg with hold | hnew
      · exact h.wellFramed msg hold
      · rw [List.mem_singleton.mp hnew]
        simp [Message.onStream, hzero, Message.WellFramed]

/-- The body is complete, and its message with it. -/
theorem of_body (h : I.Reencodes) (hreading : I.connection.reading = some .body)
    {bytes rest : List UInt8} (hlen : bytes.length = I.connection.m_msgTemporaryIn.body.length)
    (hwire : I.wire = bytes ++ rest) :
    Reencodes { I with connection := I.connection.onBodyRead false bytes, wire := rest } := by
  obtain ⟨taken, htaken, harrived⟩ := h.arrived
  simp only [TakenFor, hreading] at htaken
  obtain ⟨rfl, hpos, hsize⟩ := htaken
  have hne : I.connection.m_msgTemporaryIn.header.bodySize ≠ 0 := fun hzero ↦ by
    rw [hzero] at hsize
    rw [hsize] at hpos
    cases hpos
  have hself : Message.onStream ⟨I.connection.m_msgTemporaryIn.header, bytes⟩ =
      ⟨I.connection.m_msgTemporaryIn.header, bytes⟩ := if_neg hne
  refine ⟨⟨[], rfl, ?_⟩, ?_⟩
  · simp only [Connection.onBodyRead, Bool.false_eq_true, ↓reduceIte,
      Connection.addToIncomingMessageQueue, Connection.readHeader, List.map_append, List.map_cons,
      List.map_nil, stream_concat, hself, harrived, hwire, Message.frame]
    simp
  · intro msg hmsg
    rcases List.mem_append.mp hmsg with hold | hnew
    · exact h.wellFramed msg hold
    · rw [List.mem_singleton.mp hnew]
      change Message.WellFramed (Message.onStream ⟨I.connection.m_msgTemporaryIn.header, bytes⟩)
      rw [hself]
      exact hsize.symm.trans hlen.symm

theorem step [ExactLayout T] (h : I.Reencodes) {e : IncomingEvent} (hstep : I.step e = some I') :
    I'.Reencodes := by
  cases moves_of_step hstep with
  | arrive bytes =>
      obtain ⟨taken, htaken, harrived⟩ := h.arrived
      exact ⟨⟨taken, htaken, by simp [harrived]⟩, h.wellFramed⟩
  | header hreading hlen hwire => exact h.of_header hreading hlen hwire
  | body hreading hlen hwire => exact h.of_body hreading hlen hwire
  | @fail op hreading =>
      obtain ⟨taken, -, harrived⟩ := h.arrived
      cases op with
      | header => exact ⟨⟨taken, trivial, harrived⟩, h.wellFramed⟩
      | body => exact ⟨⟨taken, trivial, harrived⟩, h.wellFramed⟩

end Reencodes

/-! ## No other messages fit the bytes -/

/-- Two frames at the front of the same bytes are the same. -/
theorem eq_of_frame_prefix {first second : Message T} {bytes : List UInt8}
    (hfirst : first.WellFramed) (hsecond : second.WellFramed) (hfront : first.frame <+: bytes)
    (hfront' : second.frame <+: bytes) : first = second := by
  obtain ⟨header, body⟩ := first
  obtain ⟨header', body'⟩ := second
  obtain ⟨rest, hrest⟩ := hfront
  obtain ⟨rest', hrest'⟩ := hfront'
  simp only [Message.frame, List.append_assoc] at hrest hrest'
  have hsame := hrest.trans hrest'.symm
  have hlen : (StandardLayout.toBytes header).length = (StandardLayout.toBytes header').length := by
    rw [StandardLayout.length_toBytes, StandardLayout.length_toBytes]
  obtain ⟨hheader, hbody⟩ := List.append_inj hsame hlen
  have heq : header = header' := by
    rw [← StandardLayout.fromBytes_toBytes header, hheader, StandardLayout.fromBytes_toBytes]
  subst heq
  have hsize : body.length = body'.length := hfirst.symm.trans hsecond
  rw [(List.append_inj hbody hsize).1]

/-- Frames can be told apart as they come: what begins like a sequence of frames is one. -/
theorem prefix_of_stream_prefix {xs ys : List (Message T)} {rest : List UInt8}
    (hxs : ∀ msg ∈ xs, msg.WellFramed) (hys : ∀ msg ∈ ys, msg.WellFramed)
    (hrest : ∀ msg : Message T, msg.WellFramed → ¬ msg.frame <+: rest)
    (h : stream xs <+: stream ys ++ rest) : xs <+: ys := by
  induction xs generalizing ys with
  | nil => exact List.nil_prefix
  | cons x xs ih =>
      have hx := hxs x (List.mem_cons_self ..)
      have hframe : x.frame <+: stream ys ++ rest := by
        refine List.IsPrefix.trans ?_ h
        exact List.prefix_append _ _
      cases ys with
      | nil => exact absurd hframe (hrest x hx)
      | cons y ys =>
          have hy := hys y (List.mem_cons_self ..)
          have hframe' : y.frame <+: stream (y :: ys) ++ rest := by
            rw [stream, List.flatMap_cons, List.append_assoc]
            exact List.prefix_append _ _
          obtain rfl := eq_of_frame_prefix hx hy hframe hframe'
          simp only [stream, List.flatMap_cons, List.append_assoc] at h
          have htail := ih (fun msg hmsg ↦ hxs msg (List.mem_cons_of_mem _ hmsg))
            (fun msg hmsg ↦ hys msg (List.mem_cons_of_mem _ hmsg))
            ((List.prefix_append_right_inj _).mp h)
          exact (List.prefix_cons_inj x).mpr htail

/-- A connection that is open is reading. -/
theorem reading_of_reaches [Inhabited T] {I : Incoming T}
    (h : Reaches step (fun _ _ ↦ True) fresh I) :
    I.connection.isOpen = true → I.connection.reading ≠ none := by
  apply h.invariant (I := fun I ↦ I.connection.isOpen = true → I.connection.reading ≠ none)
  · exact fun _ hnone ↦ by cases hnone
  · intro I e I' ih _ hstep hopen
    cases moves_of_step hstep with
    | arrive bytes => exact ih hopen
    | @header bytes =>
        simp only [Connection.onHeaderRead, Bool.false_eq_true, ↓reduceIte]
        split <;> simp [Connection.readBody, Connection.addToIncomingMessageQueue,
          Connection.readHeader]
    | body => simp [Connection.onBodyRead, Connection.addToIncomingMessageQueue,
        Connection.readHeader]
    | fail =>
        rw [isOpen_onRead_failed] at hopen
        cases hopen

/-- Where the outstanding read waits, no message is complete among the bytes that
have not been queued. -/
theorem no_frame_of_waits {I : Incoming T} {taken : List UInt8}
    (htaken : TakenFor I.connection taken) (hreading : I.connection.reading ≠ none)
    (hwaits : I.Waits) {msg : Message T} (hframed : msg.WellFramed) :
    ¬ msg.frame <+: taken ++ I.wire := by
  intro hfront
  have hlength := hfront.length_le
  rw [Message.length_frame, List.length_append] at hlength
  cases hop : I.connection.reading with
  | none => exact hreading hop
  | some op =>
      cases op with
      | header =>
          simp only [TakenFor, hop] at htaken
          subst htaken
          refine hwaits ⟨?_, ?_⟩
          · simp only [Connection.loop, hop]
            exact MessageHeader.size_pos
          · simp only [Connection.loop, hop, Connection.readSize]
            simp only [List.length_nil] at hlength
            omega
      | body =>
          simp only [TakenFor, hop] at htaken
          obtain ⟨rfl, hpos, hsize⟩ := htaken
          obtain ⟨rest, hrest⟩ := hfront
          simp only [Message.frame, List.append_assoc] at hrest
          have hheader := (List.append_inj hrest (by
            rw [StandardLayout.length_toBytes, StandardLayout.length_toBytes])).1
          have heq : msg.header = I.connection.m_msgTemporaryIn.header := by
            rw [← StandardLayout.fromBytes_toBytes msg.header, hheader,
              StandardLayout.fromBytes_toBytes]
          have hbody : msg.body.length = I.connection.m_msgTemporaryIn.body.length := by
            rw [hsize, ← heq]
            exact hframed.symm
          refine hwaits ⟨?_, ?_⟩
          · simpa only [Connection.loop, hop, Connection.readSize] using hpos
          · simp only [Connection.loop, hop, Connection.readSize]
            rw [StandardLayout.length_toBytes] at hlength
            omega

/-- Where the loop waits, no well-framed messages fit the bytes but those that are queued. -/
theorem Reencodes.queued {I : Incoming T} (h : I.Reencodes) (hreading : I.connection.reading ≠ none)
    (hwaits : I.Waits) {msgs : List (Message T)} (hframed : ∀ msg ∈ msgs, msg.WellFramed)
    (hstream : stream msgs <+: I.arrived) :
    msgs <+: I.connection.m_qMessagesIn.map Message.onStream := by
  obtain ⟨taken, htaken, harrived⟩ := h.arrived
  rw [harrived, List.append_assoc] at hstream
  apply prefix_of_stream_prefix hframed (by simpa using h.wellFramed) ?_ hstream
  exact fun msg hmsg ↦ no_frame_of_waits htaken hreading hwaits hmsg

/-- Whatever has arrived, from whoever and in whatever pieces: when the read loop waits
for more, the queue holds exactly the messages whose frames have arrived. -/
theorem stream_prefix_arrived_iff [Inhabited T] [ExactLayout T] {I : Incoming T}
    (h : Reaches step (fun _ _ ↦ True) fresh I) (hopen : I.connection.isOpen = true)
    (hwaits : I.Waits) (msgs : List (Message T)) (hframed : ∀ msg ∈ msgs, msg.WellFramed) :
    stream msgs <+: I.arrived ↔ msgs <+: I.connection.m_qMessagesIn.map Message.onStream := by
  have hreencodes : I.Reencodes :=
    h.invariant .start fun _ _ _ hreencodes _ hstep ↦ hreencodes.step hstep
  constructor
  · exact hreencodes.queued (reading_of_reaches h hopen) hwaits hframed
  · rintro ⟨rest, hrest⟩
    obtain ⟨taken, -, harrived⟩ := hreencodes.arrived
    rw [harrived, ← hrest, Reader.stream_append, List.append_assoc, List.append_assoc]
    exact List.prefix_append _ _

theorem stream_prefix_arrived_iff_cut : ∃ I : Incoming UInt32,
    I.arrived = [3, 0, 0, 0, 0, 0, 0, 0, 4, 0] ∧
      (stream [(⟨⟨3, 0⟩, []⟩ : Message UInt32)] <+: I.arrived ↔
        [⟨⟨3, 0⟩, []⟩] <+: I.connection.m_qMessagesIn.map Message.onStream) := by
  obtain ⟨I, hI, hcheck⟩ := @exists_reaches_of_run _ _ (@step UInt32 _) fresh
    [.arrive [3, 0, 0, 0, 0, 0], .arrive [0, 0, 4, 0], .read]
    (fun I ↦ decide (I.arrived = [3, 0, 0, 0, 0, 0, 0, 0, 4, 0] ∧ I.connection.isOpen = true ∧
      I.Waits)) (by decide +kernel)
  obtain ⟨harrived, hopen, hwaits⟩ := of_decide_eq_true hcheck
  exact ⟨I, harrived, stream_prefix_arrived_iff hI hopen hwaits _ (by decide)⟩

end Incoming

/-! ## The loop and the reader of whole messages -/

namespace Reader

variable {reader reader' : Reader T} {bytes header body rest : List UInt8}

/-- The messages that a reader takes from the bytes, one after the other. -/
inductive Reads (bytes : List UInt8) (reader : Reader T) : List (Message T) → Reader T → Prop
  | nil : Reads bytes reader [] reader
  | concat {msgs : List (Message T)} {msg : Message T} {next next' : Reader T}
      (h : Reads bytes reader msgs next) (hread : next.read bytes = some (msg, next')) :
      Reads bytes reader (msgs ++ [msg]) next'

theorem Reads.append {msgs : List (Message T)} (h : Reads bytes reader msgs reader')
    (more : List UInt8) : Reads (bytes ++ more) reader msgs reader' := by
  induction h with
  | nil => exact .nil
  | concat _ hread ih => exact ih.concat ((read_spec hread).2.2.2 more)

theorem read_of_short
    (h : (bytes.drop reader.consumed).length < StandardLayout.size (MessageHeader T)) :
    reader.read bytes = none := by
  unfold read
  exact if_neg (Nat.not_le.mpr h)

/-- The connection of a reader with the bytes of a header. -/
theorem read_of_header (hlen : header.length = StandardLayout.size (MessageHeader T))
    (hdrop : bytes.drop reader.consumed = header ++ rest)
    (hzero : ¬ 0 < (StandardLayout.fromBytes header : MessageHeader T).bodySize.toNat) :
    reader.read bytes = some (⟨StandardLayout.fromBytes header, reader.m_msgTemporaryIn.body⟩, {
      consumed := reader.consumed + header.length
      frames := reader.frames + 1
      m_msgTemporaryIn := ⟨StandardLayout.fromBytes header, reader.m_msgTemporaryIn.body⟩ }) := by
  have hle : reader.connection.readSize .header ≤ (header ++ rest).length := by
    rw [List.length_append, hlen]
    exact Nat.le_add_right _ _
  have htake : (header ++ rest).take (reader.connection.readSize .header) = header := by
    rw [show reader.connection.readSize .header = header.length from hlen.symm, List.take_left]
  unfold read
  simp only [hdrop, if_pos hle, htake]
  simp [Connection.onHeaderRead, hzero, Connection.addToIncomingMessageQueue,
    Connection.readHeader, connection, Connection.readSize, hlen]

theorem read_of_body (hlen : header.length = StandardLayout.size (MessageHeader T))
    (hdrop : bytes.drop reader.consumed = header ++ (body ++ rest))
    (hpos : 0 < (StandardLayout.fromBytes header : MessageHeader T).bodySize.toNat)
    (hbody : body.length = (StandardLayout.fromBytes header : MessageHeader T).bodySize.toNat) :
    reader.read bytes = some (⟨StandardLayout.fromBytes header, body⟩, {
      consumed := reader.consumed + header.length + body.length
      frames := reader.frames + 1
      m_msgTemporaryIn := ⟨StandardLayout.fromBytes header, body⟩ }) := by
  have hle : reader.connection.readSize .header ≤ (header ++ (body ++ rest)).length := by
    rw [List.length_append, hlen]
    exact Nat.le_add_right _ _
  have hsize : reader.connection.readSize .header = header.length := hlen.symm
  unfold read
  simp only [hdrop, if_pos hle]
  rw [← hbody] at hpos
  simp only [hsize, List.take_left, List.drop_left]
  simp only [Connection.onHeaderRead, Bool.false_eq_true, ↓reduceIte, ← hbody, hpos,
    Connection.readBody, Connection.readSize, List.takeD_length, List.take_left]
  simp [Connection.onBodyRead, Connection.addToIncomingMessageQueue, Connection.readHeader]

theorem read_of_incomplete (hlen : header.length = StandardLayout.size (MessageHeader T))
    (hdrop : bytes.drop reader.consumed = header ++ rest)
    (hshort : rest.length < (StandardLayout.fromBytes header : MessageHeader T).bodySize.toNat) :
    reader.read bytes = none := by
  have hle : reader.connection.readSize .header ≤ (header ++ rest).length := by
    rw [List.length_append, hlen]
    exact Nat.le_add_right _ _
  have hsize : reader.connection.readSize .header = header.length := hlen.symm
  have hpos := Nat.zero_lt_of_lt hshort
  unfold read
  simp only [hdrop, if_pos hle]
  simp only [hsize, List.take_left, List.drop_left]
  simp only [Connection.onHeaderRead, Bool.false_eq_true, ↓reduceIte, hpos, Connection.readBody,
    Connection.readSize, List.takeD_length, if_neg (Nat.not_le.mpr hshort)]

end Reader

namespace Incoming

/-- Where the loop stands in the message after those that the reader has taken. -/
def Behind (c : Connection T) (wire arrived : List UInt8) (reader : Reader T) : Prop :=
  match c.reading with
  | some .header => c.m_msgTemporaryIn = reader.m_msgTemporaryIn ∧
      arrived.drop reader.consumed = wire
  | some .body => ∃ header : List UInt8,
      header.length = StandardLayout.size (MessageHeader T) ∧
      arrived.drop reader.consumed = header ++ wire ∧
      0 < (StandardLayout.fromBytes header : MessageHeader T).bodySize.toNat ∧
      c.m_msgTemporaryIn.header = StandardLayout.fromBytes header ∧
      c.m_msgTemporaryIn.body.length =
        (StandardLayout.fromBytes header : MessageHeader T).bodySize.toNat
  | none => False

structure Follows [Inhabited T] (I : Incoming T) (reader : Reader T) : Prop where
  reads : Reader.Reads I.arrived default I.connection.m_qMessagesIn reader
  consumed : reader.consumed ≤ I.arrived.length
  behind : Behind I.connection I.wire I.arrived reader

/-- The loop goes on in the message that it reads, or queues it as the reader takes it. -/
inductive Proceeds [Inhabited T] (I : Incoming T) (reader : Reader T) (I' : Incoming T) : Prop
  | within (hqueue : I'.connection.m_qMessagesIn = I.connection.m_qMessagesIn)
      (h : I'.Follows reader) : Proceeds I reader I'
  | queues {msg : Message T} {reader' : Reader T}
      (hread : reader.read I.arrived = some (msg, reader'))
      (hqueue : I'.connection.m_qMessagesIn = I.connection.m_qMessagesIn ++ [msg])
      (h : I'.Follows reader') : Proceeds I reader I'

theorem Proceeds.exists_follows [Inhabited T] {I I' : Incoming T} {reader : Reader T}
    (h : I.Proceeds reader I') : ∃ reader', I'.Follows reader' := by
  cases h with
  | within _ h => exact ⟨_, h⟩
  | queues _ _ h => exact ⟨_, h⟩

namespace Follows

variable [Inhabited T] {I : Incoming T} {reader : Reader T}

theorem arrive (h : I.Follows reader) (bytes : List UInt8) :
    Follows { I with wire := I.wire ++ bytes, arrived := I.arrived ++ bytes } reader where
  reads := h.reads.append bytes
  consumed := h.consumed.trans (by simp)
  behind := by
    have hbehind := h.behind
    cases hreading : I.connection.reading with
    | none => simp only [Behind, hreading] at hbehind
    | some op =>
        cases op with
        | header =>
            simp only [Behind, hreading] at hbehind ⊢
            exact ⟨hbehind.1, by rw [List.drop_append_of_le_length h.consumed, hbehind.2]⟩
        | body =>
            simp only [Behind, hreading] at hbehind ⊢
            obtain ⟨header, hlen, hdrop, hrest⟩ := hbehind
            refine ⟨header, hlen, ?_, hrest⟩
            rw [List.drop_append_of_le_length h.consumed, hdrop, List.append_assoc]

theorem header (h : I.Follows reader) (hreading : I.connection.reading = some .header)
    {bytes rest : List UInt8} (hlen : bytes.length = StandardLayout.size (MessageHeader T))
    (hwire : I.wire = bytes ++ rest) :
    I.Proceeds reader { I with
      connection := I.connection.onHeaderRead false bytes, wire := rest } := by
  have hbehind := h.behind
  simp only [Behind, hreading] at hbehind
  obtain ⟨hbuffer, hdrop⟩ := hbehind
  rw [hwire] at hdrop
  by_cases hpos : 0 < (StandardLayout.fromBytes bytes : MessageHeader T).bodySize.toNat
  · have hqueue : (I.connection.onHeaderRead false bytes).m_qMessagesIn =
        I.connection.m_qMessagesIn := by
      simp [Connection.onHeaderRead, hpos, Connection.readBody]
    refine .within hqueue ⟨?_, h.consumed, ?_⟩
    · simpa only [hqueue] using h.reads
    · simp only [Connection.onHeaderRead, Bool.false_eq_true, ↓reduceIte, hpos]
      exact ⟨bytes, hlen, hdrop, hpos, rfl, List.takeD_length _ _ _⟩
  · have hread := Reader.read_of_header hlen hdrop hpos
    have hnext := Reader.read_spec hread
    have hqueue : (I.connection.onHeaderRead false bytes).m_qMessagesIn =
        I.connection.m_qMessagesIn ++
          [⟨StandardLayout.fromBytes bytes, reader.m_msgTemporaryIn.body⟩] := by
      simp only [Connection.onHeaderRead, Bool.false_eq_true, ↓reduceIte, hpos,
        Connection.addToIncomingMessageQueue, Connection.readHeader, hbuffer]
    refine .queues hread hqueue ⟨?_, hnext.2.2.1, ?_⟩
    · simpa only [hqueue] using h.reads.concat hread
    · simp only [Connection.onHeaderRead, Bool.false_eq_true, ↓reduceIte, hpos,
        Connection.addToIncomingMessageQueue, Connection.readHeader, hbuffer]
      refine ⟨rfl, ?_⟩
      rw [← List.drop_drop, hdrop, List.drop_left]

theorem body (h : I.Follows reader) (hreading : I.connection.reading = some .body)
    {bytes rest : List UInt8} (hlen : bytes.length = I.connection.m_msgTemporaryIn.body.length)
    (hwire : I.wire = bytes ++ rest) :
    I.Proceeds reader { I with
      connection := I.connection.onBodyRead false bytes, wire := rest } := by
  have hbehind := h.behind
  simp only [Behind, hreading] at hbehind
  obtain ⟨header, hheader, hdrop, hpos, hbuffer, hsize⟩ := hbehind
  rw [hwire] at hdrop
  have hread := Reader.read_of_body hheader hdrop hpos (hlen.trans hsize)
  have hnext := Reader.read_spec hread
  have hqueue : (I.connection.onBodyRead false bytes).m_qMessagesIn =
      I.connection.m_qMessagesIn ++ [⟨StandardLayout.fromBytes header, bytes⟩] := by
    simp only [Connection.onBodyRead, Bool.false_eq_true, ↓reduceIte,
      Connection.addToIncomingMessageQueue, Connection.readHeader, hbuffer]
  refine .queues hread hqueue ⟨?_, hnext.2.2.1, ?_⟩
  · simpa only [hqueue] using h.reads.concat hread
  · simp only [Connection.onBodyRead, Bool.false_eq_true, ↓reduceIte,
      Connection.addToIncomingMessageQueue, Connection.readHeader, hbuffer]
    refine ⟨rfl, ?_⟩
    rw [Nat.add_assoc, ← List.drop_drop, hdrop, ← List.append_assoc, ← List.length_append,
      List.drop_left]

/-- A completed read. -/
theorem read (h : I.Follows reader) {I' : Incoming T} (hstep : I.step .read = some I') :
    I.Proceeds reader I' := by
  cases moves_of_step hstep with
  | header hreading hlen hwire => exact h.header hreading hlen hwire
  | body hreading hlen hwire => exact h.body hreading hlen hwire

theorem read_eq_none (h : I.Follows reader) (hwaits : I.Waits) : reader.read I.arrived = none := by
  have hbehind := h.behind
  cases hreading : I.connection.reading with
  | none => simp only [Behind, hreading] at hbehind
  | some op =>
      cases op with
      | header =>
          simp only [Behind, hreading] at hbehind
          apply Reader.read_of_short
          rw [hbehind.2]
          by_contra hle
          refine hwaits ⟨?_, ?_⟩
          · simp only [Connection.loop, hreading]
            exact MessageHeader.size_pos
          · simpa only [Connection.loop, hreading, Connection.readSize, not_lt] using hle
      | body =>
          simp only [Behind, hreading] at hbehind
          obtain ⟨header, hheader, hdrop, hpos, -, hsize⟩ := hbehind
          apply Reader.read_of_incomplete hheader hdrop
          rw [← hsize] at hpos ⊢
          by_contra hle
          refine hwaits ⟨?_, ?_⟩
          · simpa only [Connection.loop, hreading, Connection.readSize] using hpos
          · simpa only [Connection.loop, hreading, Connection.readSize, not_lt] using hle

end Follows

theorem exists_follows_of_reaches [Inhabited T] {I : Incoming T}
    (h : Reaches step (fun _ _ ↦ True) fresh I) :
    I.connection.isOpen = true → ∃ reader, I.Follows reader := by
  apply h.invariant (I := fun I ↦ I.connection.isOpen = true → ∃ reader, I.Follows reader)
  · exact fun _ ↦ ⟨default, .nil, Nat.zero_le _, rfl, rfl⟩
  · intro I e I' ih _ hstep hopen
    cases moves_of_step hstep with
    | arrive bytes =>
        obtain ⟨reader, hfollows⟩ := ih hopen
        exact ⟨reader, hfollows.arrive bytes⟩
    | @header bytes _ hreading hlen hwire =>
        have hopen' : I.connection.isOpen = true := by
          rw [← hopen, isOpen_onHeaderRead]
        obtain ⟨reader, hfollows⟩ := ih hopen'
        exact (hfollows.header hreading hlen hwire).exists_follows
    | body hreading hlen hwire =>
        obtain ⟨reader, hfollows⟩ := ih hopen
        exact (hfollows.body hreading hlen hwire).exists_follows
    | fail =>
        rw [isOpen_onRead_failed] at hopen
        cases hopen

/-- The loop queues what the reader of whole messages takes, in the same order, and
where the loop waits the reader has nothing more to take. -/
theorem reads_of_reaches [Inhabited T] {I : Incoming T}
    (h : Reaches step (fun _ _ ↦ True) fresh I) (hopen : I.connection.isOpen = true) :
    ∃ reader, Reader.Reads I.arrived default I.connection.m_qMessagesIn reader ∧
      (I.Waits → reader.read I.arrived = none) := by
  obtain ⟨reader, hfollows⟩ := exists_follows_of_reaches h hopen
  exact ⟨reader, hfollows.reads, hfollows.read_eq_none⟩

theorem reads_of_reaches_cut : ∃ I : Incoming UInt32,
    I.connection.m_qMessagesIn = [⟨⟨4, 2⟩, [7, 9]⟩] ∧
      ∃ reader, Reader.Reads I.arrived default I.connection.m_qMessagesIn reader ∧
        (I.Waits → reader.read I.arrived = none) := by
  obtain ⟨I, hI, hcheck⟩ := @exists_reaches_of_run _ _ (@step UInt32 _) fresh
    [.arrive [4, 0, 0, 0, 2], .arrive [0, 0, 0, 7], .read, .arrive [9], .read]
    (fun I ↦ decide (I.connection.m_qMessagesIn = [⟨⟨4, 2⟩, [7, 9]⟩] ∧
      I.connection.isOpen = true)) (by decide +kernel)
  obtain ⟨hqueue, hopen⟩ := of_decide_eq_true hcheck
  exact ⟨I, hqueue, reads_of_reaches hI hopen⟩

end Incoming

end SnekCpp.Networking
