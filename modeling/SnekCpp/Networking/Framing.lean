import SnekCpp.Lib.Transition
import SnekCpp.Networking.Connection

/-!
# Framing

One direction of a connection: the lambdas that `Send` has posted, the sending
end, the bytes on the stream and the receiving end.  The receiving end reads
every message into the same buffer, and a header without a body leaves the
buffer's body as the frame before it left it.
-/

namespace SnekCpp.Networking

open Lib

variable {T : Type}

/-! ## What the message loop pushes -/

/-- The message that is queued for `msg` when the buffer holds `stale`. -/
def Message.received (stale : List UInt8) (msg : Message T) : Message T :=
  if msg.body = [] then { msg with body := stale } else msg

/-- The messages queued for the frames of `msgs`, in order. -/
def received (stale : List UInt8) : List (Message T) → List (Message T)
  | [] => []
  | msg :: rest => msg.received stale :: received (msg.received stale).body rest

/-- The buffer's body after the frames of `msgs`. -/
def staleAfter (stale : List UInt8) (msgs : List (Message T)) : List UInt8 :=
  msgs.foldl (fun stale msg ↦ (msg.received stale).body) stale

@[simp] theorem received_nil (stale : List UInt8) : received (T := T) stale [] = [] := rfl

theorem received_append (stale : List UInt8) (xs ys : List (Message T)) :
    received stale (xs ++ ys) = received stale xs ++ received (staleAfter stale xs) ys := by
  induction xs generalizing stale with
  | nil => rfl
  | cons msg xs ih => simp [received, ih, staleAfter]

theorem staleAfter_concat (stale : List UInt8) (msgs : List (Message T)) (msg : Message T) :
    staleAfter stale (msgs ++ [msg]) = (msg.received (staleAfter stale msgs)).body := by
  simp [staleAfter]

@[simp] theorem length_received (stale : List UInt8) (msgs : List (Message T)) :
    (received stale msgs).length = msgs.length := by
  induction msgs generalizing stale with
  | nil => rfl
  | cons msg msgs ih => simp [received, ih]

/-- No message without a body comes after one that has a body. -/
def EmptyBodiesFirst (msgs : List (Message T)) : Prop :=
  msgs.Pairwise fun earlier later ↦ later.body = [] → earlier.body = []

instance (msgs : List (Message T)) : Decidable (EmptyBodiesFirst msgs) :=
  inferInstanceAs (Decidable (List.Pairwise _ _))

theorem Message.received_eq_self_iff (stale : List UInt8) (msg : Message T) :
    msg.received stale = msg ↔ (msg.body = [] → stale = []) := by
  obtain ⟨header, body⟩ := msg
  by_cases hbody : body = [] <;> simp [Message.received, hbody]

/-- The loop is lossless exactly on the lists whose empty bodies come first and,
if the buffer is not empty at the start, have no empty body at all. -/
theorem received_eq_self_iff (stale : List UInt8) (msgs : List (Message T)) :
    received stale msgs = msgs ↔
      (∀ msg ∈ msgs, msg.body = [] → stale = []) ∧ EmptyBodiesFirst msgs := by
  induction msgs generalizing stale with
  | nil => simp [EmptyBodiesFirst]
  | cons msg msgs ih =>
      simp only [received, List.cons.injEq, EmptyBodiesFirst, List.pairwise_cons,
        List.forall_mem_cons, Message.received_eq_self_iff]
      constructor
      · rintro ⟨hmsg, hrest⟩
        have hself : msg.received stale = msg := (Message.received_eq_self_iff ..).mpr hmsg
        rw [hself, ih] at hrest
        refine ⟨⟨hmsg, fun later hlater hempty ↦ ?_⟩, hrest⟩
        exact hmsg (hrest.1 later hlater hempty)
      · rintro ⟨⟨hmsg, hstale⟩, hfirst, hrest⟩
        have hself : msg.received stale = msg := (Message.received_eq_self_iff ..).mpr hmsg
        exact ⟨hmsg, by rw [hself, ih]; exact ⟨hfirst, hrest⟩⟩

/-! ## One direction of a connection -/

variable [StandardLayout T]

structure Link (T : Type) where
  /-- The lambdas posted by `Send` that have not run yet. -/
  posted : List (Message T)
  sender : Connection T
  /-- Bytes handed to `async_write` that no `async_read` has consumed. -/
  wire : List UInt8
  receiver : Connection T

inductive LinkEvent
  /-- The next posted lambda runs. -/
  | posted
  /-- The outstanding write completes. -/
  | written
  /-- The outstanding read completes. -/
  | read

namespace Link

omit [StandardLayout T] in
private def handOver (L : Link T) (r : Connection T × List UInt8) : Link T :=
  { L with sender := r.1, wire := L.wire ++ r.2 }

def step (L : Link T) : LinkEvent → Option (Link T)
  | .posted =>
      match L.posted with
      | [] => none
      | msg :: rest => (L.sender.send msg).map { L with posted := rest }.handOver
  | .written => (L.sender.onWritten false).map L.handOver
  | .read =>
      match L.receiver.reading with
      | none => none
      | some op =>
          let size := L.receiver.readSize op
          if size ≤ L.wire.length then
            some { L with
              receiver := L.receiver.onRead op false (L.wire.take size)
              wire := L.wire.drop size }
          else none

/-- Both ends as validation leaves them, with all of `msgs` passed to `Send`. -/
def fresh [Inhabited T] (msgs : List (Message T)) : Link T where
  posted := msgs
  sender := { m_msgTemporaryIn := default }
  wire := []
  receiver := Connection.readHeader { m_msgTemporaryIn := default }

/-- Everything the receiver has yet to read. -/
def toCome (L : Link T) : List UInt8 :=
  L.wire ++ L.sender.unsent ++ L.posted.flatMap Message.frame

/-- Where the receiver stands: all of `done` is queued, and what is to come are
the frames of `todo`, the first of which may already have lost its header. -/
def Reading (L : Link T) (done todo : List (Message T)) : Prop :=
  L.receiver.m_qMessagesIn = received [] done ∧
    match L.receiver.reading, todo with
    | some .header, todo =>
        L.receiver.m_msgTemporaryIn.body = staleAfter [] done ∧
          L.toCome = todo.flatMap Message.frame
    | some .body, msg :: rest =>
        L.receiver.m_msgTemporaryIn.header = msg.header ∧ msg.body ≠ [] ∧
          L.receiver.m_msgTemporaryIn.body.length = msg.body.length ∧
            L.toCome = msg.body ++ rest.flatMap Message.frame
    | _, _ => False

structure Inv (msgs : List (Message T)) (L : Link T) : Prop where
  writes : L.sender.WritesQueue
  reads : ∃ done todo, msgs = done ++ todo ∧ L.Reading done todo

/-- Steps to come: each posted lambda, each write completion, and one read for
every byte at most. -/
def work (L : Link T) : ℕ :=
  3 * L.posted.length + L.sender.writesLeft + L.toCome.length

theorem inv_fresh [Inhabited T] (msgs : List (Message T)) : Inv msgs (fresh msgs) where
  writes := by simp [fresh, Connection.WritesQueue]
  reads := ⟨[], msgs, rfl, by
    simp [Reading, fresh, Connection.readHeader, toCome, Connection.unsent, staleAfter]; rfl⟩

/-- Moving bytes from the sender to the wire leaves the receiver's view alone. -/
theorem Reading.of_toCome {L L' : Link T} {done todo : List (Message T)}
    (h : L.Reading done todo) (hreceiver : L'.receiver = L.receiver)
    (htoCome : L'.toCome = L.toCome) : L'.Reading done todo := by
  unfold Reading at h ⊢
  rw [hreceiver, htoCome]
  exact h

theorem step_posted {msgs : List (Message T)} {L L' : Link T} (h : Inv msgs L)
    (hstep : L.step .posted = some L') : Inv msgs L' ∧ L'.work < L.work := by
  cases hposted : L.posted with
  | nil => simp [step, hposted] at hstep
  | cons msg rest =>
      obtain ⟨c, bytes, hsend, hok, hbytes, hleft⟩ := Connection.send_spec h.writes msg
      have hL' : L' = { L with posted := rest, sender := c, wire := L.wire ++ bytes } := by
        simpa [step, hposted, hsend, handOver] using hstep.symm
      have htoCome : L'.toCome = L.toCome := by
        simp only [toCome, hL', hposted, List.flatMap_cons, List.append_assoc]
        rw [← List.append_assoc bytes, hbytes, List.append_assoc]
      obtain ⟨done, todo, hmsgs, hreading⟩ := h.reads
      refine ⟨⟨by rw [hL']; exact hok, done, todo, hmsgs,
        hreading.of_toCome (by rw [hL']) htoCome⟩, ?_⟩
      have hlen : L.posted.length = rest.length + 1 := by rw [hposted, List.length_cons]
      have hlen' : L'.posted.length = rest.length := by rw [hL']
      have hleft' : L'.sender.writesLeft = L.sender.writesLeft + 2 := by rw [hL']; exact hleft
      simp only [work, htoCome, hlen, hlen', hleft']
      omega

theorem step_written {msgs : List (Message T)} {L L' : Link T} (h : Inv msgs L)
    (hstep : L.step .written = some L') : Inv msgs L' ∧ L'.work < L.work := by
  have hbusy : L.sender.writing ≠ none := fun hidle ↦ by
    simp [step, Connection.onWritten, hidle] at hstep
  obtain ⟨c, bytes, hwritten, hok, hbytes, hleft⟩ := Connection.onWritten_spec h.writes hbusy
  have hL' : L' = { L with sender := c, wire := L.wire ++ bytes } := by
    simpa [step, hwritten, handOver] using hstep.symm
  have htoCome : L'.toCome = L.toCome := by
    simp only [toCome, hL', List.append_assoc]
    rw [← List.append_assoc bytes, hbytes]
  obtain ⟨done, todo, hmsgs, hreading⟩ := h.reads
  refine ⟨⟨by rw [hL']; exact hok, done, todo, hmsgs,
    hreading.of_toCome (by rw [hL']) htoCome⟩, ?_⟩
  have hposted : L'.posted = L.posted := by rw [hL']
  have hleft' : L'.sender.writesLeft < L.sender.writesLeft := by rw [hL']; exact hleft
  simp only [work, htoCome, hposted]
  omega

/-- A read takes the next bytes of what is to come. -/
theorem step_read {L L' : Link T} (hstep : L.step .read = some L') :
    ∃ op, L.receiver.reading = some op ∧ L.receiver.readSize op ≤ L.wire.length ∧
      L'.receiver = L.receiver.onRead op false (L.toCome.take (L.receiver.readSize op)) ∧
      L'.toCome = L.toCome.drop (L.receiver.readSize op) ∧
      L'.sender = L.sender ∧ L'.posted = L.posted := by
  cases hreading : L.receiver.reading with
  | none => simp [step, hreading] at hstep
  | some op =>
      by_cases hsize : L.receiver.readSize op ≤ L.wire.length
      · have hL' : L' = { L with
            receiver := L.receiver.onRead op false (L.wire.take (L.receiver.readSize op))
            wire := L.wire.drop (L.receiver.readSize op) } := by
          simpa [step, hreading, hsize] using hstep.symm
        refine ⟨op, rfl, hsize, ?_, ?_, by rw [hL'], by rw [hL']⟩
        · simp only [hL', toCome, List.append_assoc, List.take_append_of_le_length hsize]
        · simp only [hL', toCome, List.append_assoc, List.drop_append_of_le_length hsize]
      · simp [step, hreading, hsize] at hstep

theorem reading_of_header {L L' : Link T} {done todo : List (Message T)}
    (hframed : ∀ msg ∈ todo, msg.WellFramed) (h : L.Reading done todo)
    (hop : L.receiver.reading = some .header)
    (hsize : L.receiver.readSize .header ≤ L.wire.length)
    (hreceiver : L'.receiver =
      L.receiver.onHeaderRead false (L.toCome.take (L.receiver.readSize .header)))
    (htoCome : L'.toCome = L.toCome.drop (L.receiver.readSize .header)) :
    ∃ done' todo', done ++ todo = done' ++ todo' ∧ L'.Reading done' todo' := by
  obtain ⟨hqueue, hrest⟩ := h
  simp only [hop] at hrest
  obtain ⟨hstale, hbytes⟩ := hrest
  have hlen : L.receiver.readSize .header ≤ L.toCome.length := by
    simp only [toCome, List.length_append]
    omega
  cases todo with
  | nil =>
      have hpos : 0 < L.receiver.readSize .header := MessageHeader.size_pos
      simp only [hbytes, List.flatMap_nil, List.length_nil] at hlen
      omega
  | cons msg rest =>
      have hheader : (StandardLayout.toBytes msg.header).length =
          L.receiver.readSize .header := StandardLayout.length_toBytes _
      have hsplit : L.toCome = StandardLayout.toBytes msg.header ++
          (msg.body ++ rest.flatMap Message.frame) := by
        simp [hbytes, Message.frame]
      rw [hsplit, ← hheader, List.take_left] at hreceiver
      rw [hsplit, ← hheader, List.drop_left] at htoCome
      have hmsg := hframed msg (by simp)
      by_cases hempty : msg.body = []
      · have hzero := hmsg.bodySize_eq_zero_iff.mpr hempty
        refine ⟨done ++ [msg], rest, by simp, ?_⟩
        simp only [Connection.onHeaderRead, StandardLayout.fromBytes_toBytes, hzero,
          Connection.addToIncomingMessageQueue, Connection.readHeader] at hreceiver
        refine ⟨?_, ?_⟩
        · rw [received_append, hreceiver]
          simp [hqueue, hstale, received, Message.received, hempty]
        · rw [staleAfter_concat, hreceiver]
          simp [hstale, Message.received, hempty, htoCome]
      · have hpos : 0 < msg.header.bodySize.toNat :=
          Nat.pos_of_ne_zero fun hzero ↦ hempty (hmsg.bodySize_eq_zero_iff.mp hzero)
        refine ⟨done, msg :: rest, rfl, ?_⟩
        simp only [Connection.onHeaderRead, StandardLayout.fromBytes_toBytes, hpos,
          Connection.readBody, Bool.false_eq_true, ↓reduceIte] at hreceiver
        refine ⟨by rw [hreceiver]; exact hqueue, ?_⟩
        rw [hreceiver]
        refine ⟨rfl, hempty, ?_, htoCome⟩
        rw [List.takeD_length]
        exact hmsg

theorem reading_of_body {L L' : Link T} {done todo : List (Message T)} (h : L.Reading done todo)
    (hop : L.receiver.reading = some .body)
    (hreceiver : L'.receiver =
      L.receiver.onBodyRead false (L.toCome.take (L.receiver.readSize .body)))
    (htoCome : L'.toCome = L.toCome.drop (L.receiver.readSize .body)) :
    ∃ done' todo', done ++ todo = done' ++ todo' ∧ L'.Reading done' todo' := by
  obtain ⟨hqueue, hrest⟩ := h
  cases todo with
  | nil => simp [hop] at hrest
  | cons msg rest =>
      simp only [hop] at hrest
      obtain ⟨hheader, hempty, hlen, hbytes⟩ := hrest
      have hsize : L.receiver.readSize .body = msg.body.length := hlen
      rw [hbytes, hsize, List.take_left] at hreceiver
      rw [hbytes, hsize, List.drop_left] at htoCome
      simp only [Connection.onBodyRead, Connection.addToIncomingMessageQueue,
        Connection.readHeader] at hreceiver
      refine ⟨done ++ [msg], rest, by simp, ?_, ?_⟩
      · rw [received_append, hreceiver]
        simp [hqueue, hheader, received, Message.received, hempty]
      · rw [staleAfter_concat, hreceiver]
        simp [Message.received, hempty, htoCome]

theorem step_inv {msgs : List (Message T)} (hframed : ∀ msg ∈ msgs, msg.WellFramed)
    {L L' : Link T} (e : LinkEvent) (h : Inv msgs L) (hstep : L.step e = some L') :
    Inv msgs L' ∧ L'.work < L.work := by
  cases e with
  | posted => exact step_posted h hstep
  | written => exact step_written h hstep
  | read =>
      obtain ⟨op, hop, hsize, hreceiver, htoCome, hsender, hposted⟩ := step_read hstep
      obtain ⟨done, todo, hmsgs, hreading⟩ := h.reads
      have htodo : ∀ msg ∈ todo, msg.WellFramed := fun msg hmem ↦
        hframed msg (by rw [hmsgs]; exact List.mem_append_right _ hmem)
      have hpos : 0 < L.receiver.readSize op := by
        cases op with
        | header => exact MessageHeader.size_pos
        | body =>
            obtain ⟨-, hrest⟩ := hreading
            cases todo with
            | nil => simp [hop] at hrest
            | cons msg rest =>
                simp only [hop] at hrest
                have hlen : L.receiver.readSize .body = msg.body.length := hrest.2.2.1
                rw [hlen]
                exact List.length_pos_iff.mpr hrest.2.1
      refine ⟨⟨by rw [hsender]; exact h.writes, ?_⟩, ?_⟩
      · rw [hmsgs]
        cases op with
        | header => exact reading_of_header htodo hreading hop hsize hreceiver htoCome
        | body => exact reading_of_body hreading hop hreceiver htoCome
      · have hlen : L.wire.length ≤ L.toCome.length := by
          simp only [toCome, List.length_append]
          omega
        simp only [work, htoCome, hsender, hposted, List.length_drop]
        omega

/-- Where nothing can happen any more, every frame has been read. -/
theorem queued_of_halted {msgs : List (Message T)} {L : Link T} (h : Inv msgs L)
    (halt : ∀ e, L.step e = none) : L.receiver.m_qMessagesIn = received [] msgs := by
  have hposted : L.posted = [] := by
    cases hposted : L.posted with
    | nil => rfl
    | cons msg rest =>
        obtain ⟨c, bytes, hsend, -⟩ := Connection.send_spec h.writes msg
        simpa [step, hposted, hsend] using halt .posted
  have hidle : L.sender.writing = none := by
    by_contra hbusy
    obtain ⟨c, bytes, hwritten, -⟩ := Connection.onWritten_spec h.writes hbusy
    simpa [step, hwritten] using halt .written
  have hwire : L.toCome = L.wire := by
    simp [toCome, hposted, Connection.unsent, hidle]
  have hshort : ∀ op, L.receiver.reading = some op →
      L.wire.length < L.receiver.readSize op := by
    intro op hop
    by_contra hle
    simpa [step, hop, Nat.le_of_not_lt hle] using halt .read
  obtain ⟨done, todo, hmsgs, hqueue, hrest⟩ := h.reads
  cases hop : L.receiver.reading with
  | none => simp [hop] at hrest
  | some op =>
      have hlt := hshort op hop
      cases todo with
      | nil => rw [hqueue, hmsgs, List.append_nil]
      | cons msg rest =>
          exfalso
          cases op with
          | header =>
              simp only [hop] at hrest
              rw [← hwire, hrest.2, List.flatMap_cons, List.length_append,
                Message.length_frame] at hlt
              simp only [Connection.readSize] at hlt
              omega
          | body =>
              simp only [hop] at hrest
              rw [← hwire, hrest.2.2.2, List.length_append] at hlt
              simp only [Connection.readSize] at hlt
              omega

/-- Every run of the two loops ends with one queued message for each frame. -/
theorem inevitably_received [Inhabited T] {msgs : List (Message T)}
    (hframed : ∀ msg ∈ msgs, msg.WellFramed) :
    Inevitably step (fun L ↦ L.receiver.m_qMessagesIn = received [] msgs) (fresh msgs) :=
  .of_measure (Inv msgs) work (fun _ e _ h hstep ↦ step_inv hframed e h hstep)
    (fun _ h halt ↦ queued_of_halted h halt) (inv_fresh msgs)

end Link

/-- Whatever the order of posted lambdas and completions, the receiving end
queues exactly the messages that were passed to `Send`. -/
def Lossless [Inhabited T] (msgs : List (Message T)) : Prop :=
  Inevitably Link.step (fun L ↦ L.receiver.m_qMessagesIn = msgs) (Link.fresh msgs)

theorem received_eq_self_of_lossless [Inhabited T] {msgs : List (Message T)}
    (hframed : ∀ msg ∈ msgs, msg.WellFramed) (h : Lossless msgs) : received [] msgs = msgs := by
  obtain ⟨L, hqueue, hmsgs⟩ := (Link.inevitably_received hframed).exists_and h
  exact hqueue.symm.trans hmsgs

/-- Framing is lossless exactly when no message without a body follows one that
has a body. -/
theorem lossless_iff_emptyBodiesFirst [Inhabited T] (msgs : List (Message T))
    (hframed : ∀ msg ∈ msgs, msg.WellFramed) : Lossless msgs ↔ EmptyBodiesFirst msgs := by
  have hself : received [] msgs = msgs ↔ EmptyBodiesFirst msgs := by
    simp [received_eq_self_iff]
  constructor
  · intro hlossless
    exact hself.mp (received_eq_self_of_lossless hframed hlossless)
  · intro hfirst
    exact (Link.inevitably_received hframed).mono
      fun L hqueue ↦ hqueue.trans (hself.mpr hfirst)

/-- An empty message and then one with a body of two bytes. -/
theorem lossless_iff_emptyBodiesFirst_start_update :
    Lossless [⟨⟨3, 0⟩, []⟩, (⟨⟨4, 2⟩, [7, 9]⟩ : Message UInt32)] ↔
      EmptyBodiesFirst [⟨⟨3, 0⟩, []⟩, (⟨⟨4, 2⟩, [7, 9]⟩ : Message UInt32)] :=
  lossless_iff_emptyBodiesFirst _ (by decide)

/-- The same two messages the other way round: the empty one is queued with the
body of the other. -/
theorem not_lossless_update_start :
    (∀ msg ∈ [⟨⟨4, 2⟩, [7, 9]⟩, (⟨⟨3, 0⟩, []⟩ : Message UInt32)], msg.WellFramed) ∧
      ¬ Lossless [⟨⟨4, 2⟩, [7, 9]⟩, (⟨⟨3, 0⟩, []⟩ : Message UInt32)] := by
  have hframed : ∀ msg ∈ [⟨⟨4, 2⟩, [7, 9]⟩, (⟨⟨3, 0⟩, []⟩ : Message UInt32)],
      msg.WellFramed := by decide
  refine ⟨hframed, fun h ↦ ?_⟩
  have hself := received_eq_self_of_lossless hframed h
  revert hself
  decide

end SnekCpp.Networking
