import SnekCpp.Networking.Handshake
import SnekCpp.Networking.Incoming
import SnekCpp.Networking.Outgoing

/-!
# The two ends of a connection

Each end runs its outgoing queue and its read loop on one and the same socket.
The bytes that one end hands over arrive at the other in order, in pieces of any
size.  Together the two ends are a channel in either direction.
-/

namespace SnekCpp.Networking

open Lib

variable {T : Type} [StandardLayout T]

/-- One end of a connection whose handshake is done, and the bytes that have come to it. -/
structure Station (T : Type) extends Outgoing T where
  /-- The bytes that have arrived and that no read has taken. -/
  wire : List UInt8 := []
  arrived : List UInt8 := []

inductive StationEvent (T : Type)
  | outgoing (e : OutgoingEvent T)
  /-- The next `n` bytes of the other end arrive. -/
  | arrive (n : ℕ)
  /-- The outstanding read completes. -/
  | read
  /-- The outstanding read fails. -/
  | fail

namespace Station

omit [StandardLayout T] in
def fresh [Inhabited T] : Station T where
  connection := Connection.readHeader { m_msgTemporaryIn := default }

def incoming (s : Station T) : Incoming T :=
  { connection := s.connection, wire := s.wire, arrived := s.arrived }

def setIncoming (s : Station T) (I : Incoming T) : Station T :=
  { s with connection := I.connection, wire := I.wire, arrived := I.arrived }

/-- A step of one end while the bytes `coming` are on their way to it. -/
def step (s : Station T) (coming : List UInt8) : StationEvent T → Option (Station T)
  | .outgoing e => (s.toOutgoing.step e).map fun O ↦ { s with toOutgoing := O }
  | .arrive n =>
      if 0 < n ∧ n ≤ coming.length then
        (s.incoming.step (.arrive (coming.take n))).map s.setIncoming
      else none
  | .read => (s.incoming.step .read).map s.setIncoming
  | .fail => (s.incoming.step .fail).map s.setIncoming

end Station

def Owner.other : Owner → Owner
  | .server => .client
  | .client => .server

/-- Both ends. -/
abbrev Duplex (T : Type) := Owner → Station T

namespace Duplex

def fresh [Inhabited T] : Duplex T := fun _ ↦ Station.fresh

/-- What has been handed over for one end and has not arrived there. -/
def coming (D : Duplex T) (side : Owner) : List UInt8 :=
  (D side.other).handed.drop (D side).arrived.length

def step (D : Duplex T) (e : Owner × StationEvent T) : Option (Duplex T) :=
  ((D e.1).step (D.coming e.1) e.2).map (Function.update D e.1)

end Duplex

/-! ## The two loops of a connection leave each other alone -/

namespace Connection

/-- The read loop is where it was. -/
structure SameIn (c c' : Connection T) : Prop where
  buffer : c'.m_msgTemporaryIn = c.m_msgTemporaryIn
  queue : c'.m_qMessagesIn = c.m_qMessagesIn
  reading : c'.reading = c.reading

/-- The outgoing queue is where it was. -/
structure SameOut (c c' : Connection T) : Prop where
  queue : c'.m_qMessagesOut = c.m_qMessagesOut
  writing : c'.writing = c.writing

variable {c c' : Connection T} {bytes : List UInt8}

theorem sameIn_writeHeader (h : c.writeHeader = some (c', bytes)) :
    c.SameIn c' ∧ c'.isOpen = c.isOpen := by
  unfold writeHeader at h
  split at h
  · cases h
  · cases h
    exact ⟨⟨rfl, rfl, rfl⟩, rfl⟩

theorem sameIn_send {msg : Message T} (h : c.send msg = some (c', bytes)) :
    c.SameIn c' ∧ c'.isOpen = c.isOpen := by
  simp only [send] at h
  split at h
  · obtain ⟨hsame, hopen⟩ := sameIn_writeHeader h
    exact ⟨⟨hsame.buffer, hsame.queue, hsame.reading⟩, hopen⟩
  · cases h
    exact ⟨⟨rfl, rfl, rfl⟩, rfl⟩

theorem sameIn_popFrontAndWrite (h : c.popFrontAndWrite = some (c', bytes)) :
    c.SameIn c' ∧ c'.isOpen = c.isOpen := by
  simp only [popFrontAndWrite] at h
  split at h
  · obtain ⟨hsame, hopen⟩ := sameIn_writeHeader h
    exact ⟨⟨hsame.buffer, hsame.queue, hsame.reading⟩, hopen⟩
  · cases h
    exact ⟨⟨rfl, rfl, rfl⟩, rfl⟩

theorem sameIn_onCompleted {ec : Bool} {op : WriteOp} (h : c.onCompleted ec op = some (c', bytes)) :
    c.SameIn c' ∧ c'.isOpen = (c.isOpen && !ec) := by
  cases ec with
  | true =>
      cases op <;> cases h <;> exact ⟨⟨rfl, rfl, rfl⟩, by simp [writeFailed]⟩
  | false =>
      rw [Bool.not_false, Bool.and_true]
      cases op with
      | body => exact sameIn_popFrontAndWrite h
      | header =>
          simp only [onCompleted, onHeaderWritten, Bool.false_eq_true, ↓reduceIte] at h
          split at h
          · cases h
          · next hqueue =>
              split at h
              · simp only [writeBody, hqueue] at h
                cases h
                exact ⟨⟨rfl, rfl, rfl⟩, rfl⟩
              · exact sameIn_popFrontAndWrite h

theorem sameOut_onRead (c : Connection T) (op : ReadOp) (ec : Bool) (bytes : List UInt8) :
    c.SameOut (c.onRead op ec bytes) := by
  cases ec with
  | true => cases op <;> exact ⟨rfl, rfl⟩
  | false =>
      cases op with
      | body => exact ⟨rfl, rfl⟩
      | header =>
          simp only [onRead, onHeaderRead, Bool.false_eq_true, ↓reduceIte]
          split
          · exact ⟨rfl, rfl⟩
          · exact ⟨rfl, rfl⟩

end Connection

/-! ## What a step of the outgoing queue does -/

/-- The messages that an event passes to `Send`. -/
def OutgoingEvent.passed : OutgoingEvent T → List (Message T)
  | .send msg => [msg]
  | _ => []

namespace Outgoing

variable {O O' : Outgoing T} {e : OutgoingEvent T}

/-- The queue has gone on from `O` to `O'`. -/
structure Advances (O : Outgoing T) (e : OutgoingEvent T) (O' : Outgoing T) : Prop where
  handed : O.handed <+: O'.handed
  sent : O'.sent = O.sent ++ e.passed
  keeps : O.connection.SameIn O'.connection
  /-- The socket is closed by any failure. -/
  isOpen : O'.connection.isOpen = true → O.connection.isOpen = true ∧ O'.failed = O.failed

omit [StandardLayout T] in
theorem runLambda_cases {lambda : Connection T → Option (Connection T × List UInt8)}
    (h : O.runLambda lambda = some O') :
    ∃ c bytes, lambda { O.connection with writing := none } = some (c, bytes) ∧
      O' = { O with
        connection := c
        outstanding := O.outstanding ++ c.writing.toList
        handed := O.handed ++ bytes } := by
  obtain ⟨⟨c, bytes⟩, hlambda, rfl⟩ := Option.map_eq_some_iff.mp h
  exact ⟨c, bytes, hlambda, rfl⟩

theorem advances_of_step (h : O.step e = some O') : O.Advances e O' := by
  cases e with
  | send msg =>
      cases h
      exact ⟨List.prefix_rfl, rfl, ⟨rfl, rfl, rfl⟩, fun hopen ↦ ⟨hopen, rfl⟩⟩
  | posted =>
      simp only [step] at h
      split at h
      · cases h
      · obtain ⟨c, bytes, hlambda, rfl⟩ := runLambda_cases h
        obtain ⟨hsame, hopen⟩ := Connection.sameIn_send hlambda
        exact ⟨List.prefix_append _ _, (List.append_nil _).symm,
          ⟨hsame.buffer, hsame.queue, hsame.reading⟩, fun hup ↦ ⟨hopen ▸ hup, rfl⟩⟩
  | written i ec =>
      simp only [step] at h
      split at h
      · cases h
      · obtain ⟨c, bytes, hlambda, rfl⟩ := runLambda_cases h
        obtain ⟨hsame, hopen⟩ := Connection.sameIn_onCompleted hlambda
        refine ⟨List.prefix_append _ _, (List.append_nil _).symm,
          ⟨hsame.buffer, hsame.queue, hsame.reading⟩, fun hup ↦ ?_⟩
        rw [show c.isOpen = true from hup] at hopen
        obtain ⟨hbefore, hec⟩ := Bool.and_eq_true_iff.mp hopen.symm
        cases ec with
        | true => cases hec
        | false => exact ⟨hbefore, Bool.or_false _⟩
  | close =>
      cases h
      exact ⟨List.prefix_rfl, (List.append_nil _).symm, ⟨rfl, rfl, rfl⟩, fun hopen ↦ by cases hopen⟩

theorem Orderly.congr (h : O.Orderly) (hsame : O.connection.SameOut O'.connection)
    (hposted : O'.posted = O.posted) (houtstanding : O'.outstanding = O.outstanding)
    (hhanded : O'.handed = O.handed) (hsent : O'.sent = O.sent) (hfailed : O'.failed = O.failed) :
    O'.Orderly := by
  have hunsent : O'.current.unsent = O.current.unsent := by
    simp only [current, Connection.unsent, houtstanding, hsame.queue]
  have hwrites : O'.current.WritesQueue ↔ O.current.WritesQueue := by
    simp only [current, Connection.WritesQueue, houtstanding, hsame.queue]
  refine ⟨houtstanding ▸ h.one, ?_, fun hup ↦ ?_, fun hdown ↦ ?_⟩
  · rw [hhanded, hsent]
    exact h.inOrder
  · rw [hunsent, hhanded, hposted, hsent, hwrites]
    exact h.up (hfailed ▸ hup)
  · rw [hsame.queue, houtstanding]
    exact h.down (hfailed ▸ hdown)

/-- In a queue that has not failed, nothing is left when no lambda and no write is. -/
theorem Orderly.handed_eq (h : O.Orderly) (hup : O.failed = false) (hposted : O.posted = [])
    (hidle : O.outstanding = []) : O.handed = stream O.sent := by
  obtain ⟨hqueue, hbytes⟩ := h.up hup
  have hnone : O.current.unsent = [] := by
    simp only [current, hidle, List.head?_nil, Connection.unsent]
  rw [hnone, hposted, List.append_nil, List.flatMap_nil, List.append_nil] at hbytes
  exact hbytes

theorem Orderly.handed_prefix (h : O.Orderly) : O.handed <+: stream O.sent := h.inOrder

end Outgoing

namespace Incoming

variable {I I' : Incoming T}

theorem Reencodes.congr (h : I.Reencodes) (hsame : I.connection.SameIn I'.connection)
    (hwire : I'.wire = I.wire) (harrived : I'.arrived = I.arrived) : I'.Reencodes := by
  obtain ⟨taken, htaken, hbytes⟩ := h.arrived
  refine ⟨⟨taken, ?_, ?_⟩, ?_⟩
  · unfold TakenFor at htaken ⊢
    rw [hsame.reading, hsame.buffer]
    exact htaken
  · rw [harrived, hsame.queue, hwire, hbytes]
  · rw [hsame.queue]
    exact h.wellFramed

/-- What is queued is among any well-framed messages whose frames the arrived bytes begin. -/
theorem Reencodes.prefix_of_arrived (h : I.Reencodes) {msgs : List (Message T)}
    (hframed : ∀ msg ∈ msgs, msg.WellFramed) (harrived : I.arrived <+: stream msgs) :
    I.connection.m_qMessagesIn.map Message.onStream <+: msgs := by
  obtain ⟨taken, -, hbytes⟩ := h.arrived
  have hfront : stream (I.connection.m_qMessagesIn.map Message.onStream) <+: stream msgs ++ [] := by
    rw [List.append_nil]
    apply List.IsPrefix.trans ?_ harrived
    rw [hbytes, List.append_assoc]
    exact List.prefix_append _ _
  apply prefix_of_stream_prefix (by simpa using h.wellFramed) hframed ?_ hfront
  intro msg _ hnil
  have hlength := hnil.length_le
  rw [Message.length_frame, List.length_nil] at hlength
  have hpos : 0 < StandardLayout.size (MessageHeader T) := MessageHeader.size_pos
  omega

end Incoming

/-! ## One end -/

/-- The messages that an event passes to `Send`. -/
def StationEvent.passed : StationEvent T → List (Message T)
  | .outgoing e => e.passed
  | _ => []

namespace Station

variable {s s' : Station T} {coming : List UInt8} {e : StationEvent T}

/-- Both loops are in order.  An open socket has not failed, and is read. -/
structure Sound (s : Station T) : Prop where
  orderly : s.toOutgoing.Orderly
  reencodes : s.incoming.Reencodes
  up : s.connection.isOpen = true → s.failed = false ∧ s.connection.reading ≠ none

theorem sound_fresh [Inhabited T] : (fresh : Station T).Sound where
  orderly := by
    refine ⟨Nat.zero_le 1, List.nil_prefix, fun _ ↦ ⟨?_, rfl⟩, fun h ↦ by cases h⟩
    exact ⟨fun _ ↦ rfl, fun _ ↦ rfl⟩
  reencodes := ⟨⟨[], rfl, rfl⟩, fun msg hmsg ↦ by cases hmsg⟩
  up _ := ⟨rfl, fun hnone ↦ by cases hnone⟩

namespace Sound

theorem outgoing (h : s.Sound) {e : OutgoingEvent T} {O : Outgoing T}
    (hstep : s.toOutgoing.step e = some O) : Sound { s with toOutgoing := O } := by
  have hadvances := Outgoing.advances_of_step hstep
  refine ⟨(h.orderly.step hstep).1, h.reencodes.congr hadvances.keeps rfl rfl, fun hopen ↦ ?_⟩
  obtain ⟨hbefore, hfailed⟩ := hadvances.isOpen hopen
  obtain ⟨hup, hreading⟩ := h.up hbefore
  exact ⟨hfailed.trans hup, fun hnone ↦ hreading (hadvances.keeps.reading.symm.trans hnone)⟩

theorem setIncoming [ExactLayout T] (h : s.Sound) {e : IncomingEvent} {I : Incoming T}
    (hstep : s.incoming.step e = some I) : (s.setIncoming I).Sound := by
  have hsame : s.connection.SameOut I.connection ∧ (I.connection.isOpen = true →
      s.connection.isOpen = true ∧ I.connection.reading ≠ none) := by
    cases Incoming.moves_of_step hstep with
    | arrive bytes => exact ⟨⟨rfl, rfl⟩, fun hopen ↦ ⟨hopen, (h.up hopen).2⟩⟩
    | @header bytes rest =>
        refine ⟨Connection.sameOut_onRead _ .header false bytes, fun hopen ↦ ⟨?_, ?_⟩⟩
        · rw [Incoming.isOpen_onHeaderRead] at hopen
          exact hopen
        · simp only [Connection.onHeaderRead, Bool.false_eq_true, ↓reduceIte]
          split
          · simp [Connection.readBody]
          · simp [Connection.addToIncomingMessageQueue, Connection.readHeader]
    | @body bytes rest =>
        refine ⟨Connection.sameOut_onRead _ .body false bytes, fun hopen ↦ ⟨hopen, ?_⟩⟩
        simp [Connection.onBodyRead, Connection.addToIncomingMessageQueue, Connection.readHeader]
    | @fail op =>
        refine ⟨Connection.sameOut_onRead _ op true [], fun hopen ↦ ?_⟩
        rw [Incoming.isOpen_onRead_failed] at hopen
        cases hopen
  refine ⟨h.orderly.congr hsame.1 rfl rfl rfl rfl rfl, h.reencodes.step hstep, fun hopen ↦ ?_⟩
  obtain ⟨hbefore, hreading⟩ := hsame.2 hopen
  exact ⟨(h.up hbefore).1, hreading⟩

theorem step [ExactLayout T] (h : s.Sound) (hstep : s.step coming e = some s') : s'.Sound := by
  cases e with
  | outgoing e =>
      obtain ⟨O, hO, rfl⟩ := Option.map_eq_some_iff.mp hstep
      exact h.outgoing hO
  | arrive n =>
      obtain ⟨-, hstep⟩ := Option.ite_none_right_eq_some.mp hstep
      obtain ⟨I, hI, rfl⟩ := Option.map_eq_some_iff.mp hstep
      exact h.setIncoming hI
  | read =>
      obtain ⟨I, hI, rfl⟩ := Option.map_eq_some_iff.mp hstep
      exact h.setIncoming hI
  | fail =>
      obtain ⟨I, hI, rfl⟩ := Option.map_eq_some_iff.mp hstep
      exact h.setIncoming hI

end Sound

/-- What a step does to the bytes and messages on the two streams. -/
structure Advances (s : Station T) (coming : List UInt8) (e : StationEvent T) (s' : Station T) :
    Prop where
  handed : s.handed <+: s'.handed
  sent : s'.sent = s.sent ++ e.passed
  arrived : ∃ bytes, bytes <+: coming ∧ s'.arrived = s.arrived ++ bytes

theorem advances_of_step (h : s.step coming e = some s') : s.Advances coming e s' := by
  cases e with
  | outgoing e =>
      obtain ⟨O, hO, rfl⟩ := Option.map_eq_some_iff.mp h
      have hadvances := Outgoing.advances_of_step hO
      exact ⟨hadvances.handed, hadvances.sent, [], List.nil_prefix, (List.append_nil _).symm⟩
  | arrive n =>
      obtain ⟨-, h⟩ := Option.ite_none_right_eq_some.mp h
      cases h
      exact ⟨List.prefix_rfl, (List.append_nil _).symm, coming.take n, List.take_prefix _ _, rfl⟩
  | read =>
      obtain ⟨I, hI, rfl⟩ := Option.map_eq_some_iff.mp h
      obtain ⟨-, hI⟩ := Option.ite_none_right_eq_some.mp hI
      cases hI
      exact ⟨List.prefix_rfl, (List.append_nil _).symm, [], List.nil_prefix,
        (List.append_nil _).symm⟩
  | fail =>
      obtain ⟨I, hI, rfl⟩ := Option.map_eq_some_iff.mp h
      simp only [Incoming.step] at hI
      split at hI
      · cases hI
      · cases hI
        exact ⟨List.prefix_rfl, (List.append_nil _).symm, [], List.nil_prefix,
          (List.append_nil _).symm⟩

end Station

/-! ## Both ends -/

namespace Duplex

variable {D D' : Duplex T} {e : Owner × StationEvent T}

theorem other_other (side : Owner) : side.other.other = side := by
  cases side with
  | server => rfl
  | client => rfl

theorem other_ne (side : Owner) : side.other ≠ side := by
  cases side with
  | server => decide
  | client => decide

/-- What arrives at an end has been handed over at the other one. -/
structure Linked (D : Duplex T) : Prop where
  ends : ∀ side, (D side).Sound
  arrived : ∀ side, (D side).arrived <+: (D side.other).handed

theorem linked_fresh [Inhabited T] : (fresh : Duplex T).Linked :=
  ⟨fun _ ↦ Station.sound_fresh, fun _ ↦ List.prefix_rfl⟩

theorem Linked.step [ExactLayout T] (h : D.Linked) (hstep : D.step e = some D') : D'.Linked := by
  obtain ⟨side, event⟩ := e
  obtain ⟨s, hs, rfl⟩ := Option.map_eq_some_iff.mp hstep
  have hadvances := Station.advances_of_step hs
  refine ⟨fun other ↦ ?_, fun other ↦ ?_⟩
  · by_cases heq : other = side
    · subst heq
      rw [Function.update_self]
      exact (h.ends other).step hs
    · rw [Function.update_of_ne heq]
      exact h.ends other
  · by_cases heq : other = side
    · subst heq
      rw [Function.update_self, Function.update_of_ne (other_ne other)]
      obtain ⟨bytes, hbytes, harrived⟩ := hadvances.arrived
      obtain ⟨rest, hrest⟩ := h.arrived other
      rw [coming, ← hrest, List.drop_left] at hbytes
      rw [harrived, ← hrest]
      exact (List.prefix_append_right_inj _).mpr hbytes
    · rw [Function.update_of_ne heq]
      by_cases hother : other.other = side
      · subst hother
        rw [Function.update_self]
        exact (h.arrived other).trans hadvances.handed
      · rw [Function.update_of_ne hother]
        exact h.arrived other

/-- All that has arrived is the beginning of the frames that were sent. -/
theorem Linked.arrived_begins (h : D.Linked) (side : Owner) :
    (D side).arrived <+: stream (D side.other).sent :=
  (h.arrived side).trans (h.ends side.other).orderly.handed_prefix

structure Sound (D : Duplex T) : Prop extends Linked D where
  framed : ∀ side, ∀ msg ∈ (D side).sent, msg.WellFramed

/-- Only well-framed messages are passed to `Send`. -/
def Passes (_D : Duplex T) (e : Owner × StationEvent T) : Prop :=
  ∀ msg ∈ e.2.passed, msg.WellFramed

instance (D : Duplex T) (e : Owner × StationEvent T) : Decidable (D.Passes e) :=
  inferInstanceAs (Decidable (∀ msg ∈ e.2.passed, msg.WellFramed))

namespace Sound

theorem start [Inhabited T] : (fresh : Duplex T).Sound :=
  ⟨linked_fresh, fun _ msg hmsg ↦ by cases hmsg⟩

theorem step [ExactLayout T] (h : D.Sound) (hpasses : D.Passes e) (hstep : D.step e = some D') :
    D'.Sound := by
  refine ⟨h.toLinked.step hstep, fun other msg hmsg ↦ ?_⟩
  obtain ⟨side, event⟩ := e
  obtain ⟨s, hs, rfl⟩ := Option.map_eq_some_iff.mp hstep
  by_cases heq : other = side
  · subst heq
    rw [Function.update_self, (Station.advances_of_step hs).sent] at hmsg
    rcases List.mem_append.mp hmsg with hold | hnew
    · exact h.framed other msg hold
    · exact hpasses msg hnew
  · rw [Function.update_of_ne heq] at hmsg
    exact h.framed other msg hmsg

theorem of_reaches [Inhabited T] [ExactLayout T] (h : Reaches Duplex.step Passes fresh D) :
    D.Sound :=
  h.invariant start fun _ _ _ hsound hpasses hstep ↦ hsound.step hpasses hstep

end Sound

/-- In either direction, what has been queued is what was sent, up to some message:
at every time, with sends and failures at any time, and for any pieces. -/
theorem received_prefix_sent [Inhabited T] [ExactLayout T] (h : Reaches step Passes fresh D)
    (side : Owner) :
    (D side).connection.m_qMessagesIn.map Message.onStream <+: (D side.other).sent := by
  have hsound := Sound.of_reaches h
  apply (hsound.ends side).reencodes.prefix_of_arrived (hsound.framed side.other)
  exact hsound.arrived_begins side

/-- Both ends send at once, and the message for the client comes in three pieces. -/
def crossing : List (Owner × StationEvent UInt32) :=
  [(.server, .outgoing (.send ⟨⟨4, 2⟩, [7, 9]⟩)), (.client, .outgoing (.send ⟨⟨3, 0⟩, []⟩)),
    (.server, .outgoing .posted), (.client, .outgoing .posted), (.client, .arrive 5),
    (.server, .outgoing (.written 0 false)), (.client, .arrive 4), (.client, .read),
    (.client, .arrive 1), (.client, .read)]

theorem received_prefix_sent_crossing : ∃ D, run (guarded step Passes) fresh crossing = some D ∧
    (D .client).connection.m_qMessagesIn = [⟨⟨4, 2⟩, [7, 9]⟩] ∧
      (D .client).connection.m_qMessagesIn.map Message.onStream <+: (D .server).sent := by
  obtain ⟨D, hrun, hqueue⟩ := exists_run_of_any
    (P := fun D : Duplex UInt32 ↦
      decide ((D .client).connection.m_qMessagesIn = [⟨⟨4, 2⟩, [7, 9]⟩]))
    (show (run (guarded step Passes) fresh crossing).any _ = true by decide +kernel)
  exact ⟨D, hrun, of_decide_eq_true hqueue,
    received_prefix_sent (reaches_of_guarded hrun) .client⟩

end Duplex

end SnekCpp.Networking
