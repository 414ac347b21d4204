import SnekCpp.Lib.Transition
import SnekCpp.Networking.Connection

/-!
# The outgoing queue

Nothing in the types keeps a connection from starting a second write before
the first one has completed.  Here every write that has been started is listed
until its lambda runs, and any of them may complete next.
-/

namespace SnekCpp.Networking

open Lib

variable {T : Type} [StandardLayout T]

structure Outgoing (T : Type) where
  connection : Connection T
  /-- The lambdas posted by `Send` that have not run yet. -/
  posted : List (Message T) := []
  /-- The writes that have been started and whose lambdas have not run yet. -/
  outstanding : List WriteOp := []
  /-- The bytes handed to `async_write`. -/
  handed : List UInt8 := []
  /-- The messages passed to `Send`. -/
  sent : List (Message T) := []
  /-- A write has completed with an error. -/
  failed : Bool := false

inductive OutgoingEvent (T : Type)
  /-- `Send` is called and posts a lambda. -/
  | send (msg : Message T)
  /-- The next posted lambda runs. -/
  | posted
  /-- One of the outstanding writes completes. -/
  | written (i : ℕ) (ec : Bool)
  /-- Something else closes the socket. -/
  | close

/-- The lambda that waits for a write. -/
def Connection.onCompleted (c : Connection T) (ec : Bool) :
    WriteOp → Option (Connection T × List UInt8)
  | .header => c.onHeaderWritten ec
  | .body => c.onBodyWritten ec

namespace Outgoing

/-- A connection that has been validated. -/
def fresh [Inhabited T] : Outgoing T := { connection := { m_msgTemporaryIn := default } }

omit [StandardLayout T] in
/-- Runs a lambda.  The connection records in `writing` what the lambda starts. -/
def runLambda (O : Outgoing T) (lambda : Connection T → Option (Connection T × List UInt8)) :
    Option (Outgoing T) :=
  (lambda { O.connection with writing := none }).map fun result ↦
    { O with
      connection := result.1
      outstanding := O.outstanding ++ result.1.writing.toList
      handed := O.handed ++ result.2 }

def step (O : Outgoing T) : OutgoingEvent T → Option (Outgoing T)
  | .send msg => some { O with posted := O.posted ++ [msg], sent := O.sent ++ [msg] }
  | .posted =>
      match O.posted with
      | [] => none
      | msg :: rest => { O with posted := rest }.runLambda (Connection.send · msg)
  | .written i ec =>
      match O.outstanding[i]? with
      | none => none
      | some op =>
          { O with outstanding := O.outstanding.eraseIdx i, failed := O.failed || ec }.runLambda
            (Connection.onCompleted · ec op)
  | .close => some { O with connection.isOpen := false }

omit [StandardLayout T] in
/-- The connection as a sequence of single writes. -/
def current (O : Outgoing T) : Connection T := { O.connection with writing := O.outstanding.head? }

/-- What holds in every state: the writes are single and in the order of the
messages, and all that is missing is still in the queue or posted. -/
structure Orderly (O : Outgoing T) : Prop where
  one : O.outstanding.length ≤ 1
  inOrder : O.handed <+: O.sent.flatMap Message.frame
  up : O.failed = false → O.current.WritesQueue ∧
    O.handed ++ O.current.unsent ++ O.posted.flatMap Message.frame = O.sent.flatMap Message.frame
  down : O.failed = true → O.connection.m_qMessagesOut ≠ [] ∧ O.outstanding = []

theorem orderly_fresh [Inhabited T] : (fresh : Outgoing T).Orderly where
  one := Nat.zero_le 1
  inOrder := List.nil_prefix
  up _ := ⟨⟨fun _ ↦ rfl, fun _ ↦ rfl⟩, rfl⟩
  down h := by cases h

/-! ## A lambda of single writes -/

/-- A lambda has led from `O` to `O'`: as single writes, to `c`, with `bytes` handed over. -/
structure Ran (O : Outgoing T) (c : Connection T) (bytes : List UInt8) (O' : Outgoing T) : Prop where
  current : O'.current = c
  one : O'.outstanding.length ≤ 1
  handed : O'.handed = O.handed ++ bytes
  posted : O'.posted = O.posted
  sent : O'.sent = O.sent
  failed : O'.failed = O.failed

omit [StandardLayout T] in
theorem outstanding_eq {O : Outgoing T} (hone : O.outstanding.length ≤ 1) :
    O.outstanding = O.current.writing.toList := by
  unfold current
  match h : O.outstanding with
  | [] => rfl
  | [op] => rfl
  | _ :: _ :: _ =>
      rw [h] at hone
      simp at hone

omit [StandardLayout T] in
theorem ran_of_idle {O : Outgoing T} (hidle : O.outstanding = []) (c : Connection T)
    (bytes : List UInt8) :
    O.Ran c bytes { O with
      connection := c
      outstanding := O.outstanding ++ c.writing.toList
      handed := O.handed ++ bytes } := by
  refine ⟨?_, ?_, rfl, rfl, rfl, rfl⟩
  · have hhead : c.writing.toList.head? = c.writing := by cases c.writing <;> rfl
    simp only [current, hidle, List.nil_append, hhead]
  · rw [hidle, List.nil_append]
    cases c.writing <;> simp

theorem send_of_busy {c : Connection T} (h : c.m_qMessagesOut ≠ []) (msg : Message T) :
    c.send msg = some ({ c with m_qMessagesOut := c.m_qMessagesOut ++ [msg] }, []) := by
  simp [Connection.send, h]

theorem run_send {O : Outgoing T} (hone : O.outstanding.length ≤ 1) (h : O.current.WritesQueue)
    {msg : Message T} {c : Connection T} {bytes : List UInt8}
    (hsend : O.current.send msg = some (c, bytes)) :
    ∃ O', O.runLambda (Connection.send · msg) = some O' ∧ O.Ran c bytes O' := by
  by_cases hqueue : O.connection.m_qMessagesOut = []
  · have hidle : O.outstanding = [] := by
      rw [outstanding_eq hone, h.mpr hqueue]
      rfl
    have hsame : { O.connection with writing := none } = O.current := by
      unfold current
      rw [hidle]
      rfl
    refine ⟨_, ?_, ran_of_idle hidle c bytes⟩
    rw [runLambda, hsame, hsend]
    rfl
  · have hcurrent : O.current.m_qMessagesOut ≠ [] := hqueue
    rw [send_of_busy hcurrent] at hsend
    obtain ⟨rfl, rfl⟩ := Prod.mk.inj (Option.some.inj hsend)
    refine ⟨{ O with
        connection := { O.connection with
          m_qMessagesOut := O.connection.m_qMessagesOut ++ [msg]
          writing := none } },
      ?_, rfl, hone, (List.append_nil _).symm, rfl, rfl, rfl⟩
    rw [runLambda, send_of_busy (by exact hqueue)]
    simp

theorem onCompleted_writing (c : Connection T) (writing : Option WriteOp) (ec : Bool) (op : WriteOp) :
    { c with writing }.onCompleted ec op = c.onCompleted ec op := by
  have hpop : { c with writing }.popFrontAndWrite = c.popFrontAndWrite := rfl
  cases ec with
  | true => cases op <;> rfl
  | false =>
      cases op with
      | body => exact hpop
      | header =>
          simp only [Connection.onCompleted, Connection.onHeaderWritten, hpop]
          cases hqueue : c.m_qMessagesOut with
          | nil => rfl
          | cons msg rest =>
              by_cases hbody : 0 < msg.body.length
              · simp [hbody, Connection.writeBody, hqueue]
              · simp [hbody]

theorem run_completed {O : Outgoing T} {op : WriteOp} {ec : Bool} {c : Connection T}
    {bytes : List UInt8} (hidle : O.outstanding = [])
    (hwritten : O.connection.onCompleted ec op = some (c, bytes)) :
    ∃ O', O.runLambda (Connection.onCompleted · ec op) = some O' ∧ O.Ran c bytes O' := by
  refine ⟨_, ?_, ran_of_idle hidle c bytes⟩
  rw [runLambda, onCompleted_writing, hwritten]
  rfl

/-! ## What a step keeps -/

namespace Orderly

variable {O O' : Outgoing T}

theorem send (h : O.Orderly) (msg : Message T) :
    Orderly { O with posted := O.posted ++ [msg], sent := O.sent ++ [msg] } where
  one := h.one
  inOrder := by
    rw [List.flatMap_append]
    exact h.inOrder.trans (List.prefix_append _ _)
  up hup := by
    obtain ⟨hqueue, hbytes⟩ := h.up hup
    refine ⟨hqueue, ?_⟩
    rw [List.flatMap_append, List.flatMap_append, ← hbytes, List.append_assoc]
    simp only [List.append_assoc]
    rfl
  down := h.down

theorem close (h : O.Orderly) : Orderly { O with connection.isOpen := false } where
  one := h.one
  inOrder := h.inOrder
  up := h.up
  down := h.down

/-- The bytes that are owed determine the order. -/
theorem of_up (hone : O.outstanding.length ≤ 1) (hup : O.failed = false)
    (hqueue : O.current.WritesQueue)
    (hbytes : O.handed ++ O.current.unsent ++ O.posted.flatMap Message.frame =
      O.sent.flatMap Message.frame) : O.Orderly where
  one := hone
  inOrder := by
    rw [← hbytes, List.append_assoc]
    exact List.prefix_append _ _
  up _ := ⟨hqueue, hbytes⟩
  down hdown := by rw [hup] at hdown; cases hdown

theorem posted (h : O.Orderly) {msg : Message T} {rest : List (Message T)}
    (hposted : O.posted = msg :: rest) :
    ∃ O', O.step .posted = some O' ∧ O'.Orderly ∧
      (O.failed = true → O'.handed = O.handed ∧ O'.failed = true) := by
  simp only [step, hposted]
  by_cases hfailed : O.failed = true
  · obtain ⟨hqueue, hidle⟩ := h.down hfailed
    have hrun : { O with posted := rest }.runLambda (Connection.send · msg) = some { O with
        posted := rest
        connection := { O.connection with
          m_qMessagesOut := O.connection.m_qMessagesOut ++ [msg]
          writing := none } } := by
      rw [runLambda, send_of_busy (by exact hqueue)]
      simp
    refine ⟨_, hrun, ⟨h.one, h.inOrder, fun hup ↦ ?_, fun _ ↦ ⟨by simp, hidle⟩⟩,
      fun _ ↦ ⟨rfl, hfailed⟩⟩
    rw [show O.failed = false from hup] at hfailed
    cases hfailed
  · have hup : O.failed = false := by simpa using hfailed
    obtain ⟨hqueue, hbytes⟩ := h.up hup
    obtain ⟨c, bytes, hsend, hc, hunsent, -⟩ := Connection.send_spec hqueue msg
    obtain ⟨O', hrun, hran⟩ := run_send (O := { O with posted := rest }) h.one hqueue hsend
    refine ⟨O', hrun, of_up hran.one (hran.failed.trans hup) (hran.current ▸ hc) ?_,
      fun hdown ↦ absurd hdown hfailed⟩
    rw [hran.handed, hran.current, hran.posted, hran.sent, ← hbytes, hposted,
      List.append_assoc O.handed, hunsent]
    simp

theorem written (h : O.Orderly) {i : ℕ} {op : WriteOp} (hop : O.outstanding[i]? = some op)
    (ec : Bool) :
    ∃ O', O.step (.written i ec) = some O' ∧ O'.Orderly ∧ O.failed = false := by
  have hlt : i < O.outstanding.length := (List.getElem?_eq_some_iff.mp hop).1
  have hzero : i = 0 := by
    have hone := h.one
    omega
  subst hzero
  have hup : O.failed = false := by
    by_contra hfailed
    obtain ⟨-, hidle⟩ := h.down (by simpa using hfailed)
    simp [hidle] at hlt
  obtain ⟨hqueue, hbytes⟩ := h.up hup
  have hwriting : O.current.writing = some op := by
    rw [← hop, ← List.head?_eq_getElem?]
    rfl
  have hidle : O.outstanding.eraseIdx 0 = [] := by
    rw [outstanding_eq h.one, hwriting]
    rfl
  simp only [step, hop]
  have hcompleted : O.current.onWritten ec = O.connection.onCompleted ec op := by
    rw [← onCompleted_writing O.connection O.outstanding.head? ec op]
    unfold Connection.onWritten
    rw [hwriting]
    cases op <;> rfl
  cases ec with
  | false =>
      obtain ⟨c, bytes, hwritten, hc, hunsent, -⟩ :=
        Connection.onWritten_spec hqueue (by rw [hwriting]; simp)
      rw [hcompleted] at hwritten
      obtain ⟨O', hrun, hran⟩ := run_completed
        (O := { O with outstanding := O.outstanding.eraseIdx 0, failed := O.failed || false })
        hidle hwritten
      refine ⟨O', hrun, of_up hran.one ?_ (hran.current ▸ hc) ?_, hup⟩
      · rw [hran.failed, Bool.or_false, hup]
      · rw [hran.handed, hran.current, hran.posted, hran.sent, ← hbytes,
          List.append_assoc O.handed, hunsent]
  | true =>
      have hwritten : O.connection.onCompleted true op = some (O.connection.writeFailed, []) := by
        cases op <;> rfl
      obtain ⟨O', hrun, hran⟩ := run_completed
        (O := { O with outstanding := O.outstanding.eraseIdx 0, failed := O.failed || true })
        hidle hwritten
      have hhanded : O'.handed = O.handed := by rw [hran.handed, List.append_nil]
      have hqueue' : O'.current.m_qMessagesOut = O.connection.m_qMessagesOut := by
        rw [hran.current]
        rfl
      have hnone : O'.outstanding = [] := by
        rw [outstanding_eq hran.one, hran.current]
        rfl
      refine ⟨O', hrun, ⟨hran.one, ?_, ?_, fun _ ↦ ⟨?_, hnone⟩⟩, hup⟩
      · rw [hhanded, hran.sent]
        exact h.inOrder
      · intro hup'
        rw [hran.failed, Bool.or_true] at hup'
        cases hup'
      · intro hempty
        have hnone := hqueue.mpr (hqueue'.symm.trans hempty)
        rw [hwriting] at hnone
        cases hnone

/-- After a write error nothing is handed over any more. -/
theorem step (h : O.Orderly) {e : OutgoingEvent T} (hstep : O.step e = some O') :
    O'.Orderly ∧ (O.failed = true → O'.handed = O.handed ∧ O'.failed = true) := by
  cases e with
  | send msg =>
      cases hstep
      exact ⟨h.send msg, fun hfailed ↦ ⟨rfl, hfailed⟩⟩
  | posted =>
      cases hposted : O.posted with
      | nil => simp [Outgoing.step, hposted] at hstep
      | cons msg rest =>
          obtain ⟨next, hnext, horderly, hquiet⟩ := h.posted hposted
          rw [hnext] at hstep
          cases hstep
          exact ⟨horderly, hquiet⟩
  | written i ec =>
      cases hop : O.outstanding[i]? with
      | none => simp [Outgoing.step, hop] at hstep
      | some op =>
          obtain ⟨next, hnext, horderly, hup⟩ := h.written hop ec
          rw [hnext] at hstep
          cases hstep
          refine ⟨horderly, fun hfailed ↦ ?_⟩
          rw [hup] at hfailed
          cases hfailed
  | close =>
      cases hstep
      exact ⟨h.close, fun hfailed ↦ ⟨rfl, hfailed⟩⟩

theorem of_reaches [Inhabited T] (h : Reaches Outgoing.step (fun _ _ ↦ True) fresh O) :
    O.Orderly :=
  h.invariant orderly_fresh fun _ _ _ horderly _ hstep ↦ (horderly.step hstep).1

theorem quiet (h : O.Orderly) (hfailed : O.failed = true)
    (hreaches : Reaches Outgoing.step (fun _ _ ↦ True) O O') : O'.handed = O.handed := by
  refine (hreaches.invariant (I := fun O' ↦ O'.Orderly ∧ O'.failed = true ∧ O'.handed = O.handed)
    ⟨h, hfailed, rfl⟩ ?_).2.2
  rintro O' e O'' ⟨horderly, hfailed', hhanded⟩ - hstep
  obtain ⟨hnext, hquiet⟩ := horderly.step hstep
  obtain ⟨hsame, hfailed''⟩ := hquiet hfailed'
  exact ⟨hnext, hfailed'', hsame.trans hhanded⟩

end Orderly

/-- The queue writes like one writer: the writes do not overlap, one is in
progress as long as there is something to write, and what is handed over are
the frames in order. -/
structure SingleWriter (O : Outgoing T) : Prop where
  one : O.outstanding.length ≤ 1
  writing : O.failed = false → (O.outstanding ≠ [] ↔ O.connection.m_qMessagesOut ≠ [])
  inOrder : O.handed <+: O.sent.flatMap Message.frame
  /-- What is missing of the front message and of those behind it is still to come. -/
  complete : O.failed = false →
    O.handed ++ O.current.unsent ++ O.posted.flatMap Message.frame = O.sent.flatMap Message.frame
  quiet : O.failed = true →
    ∀ O', Reaches step (fun _ _ ↦ True) O O' → O'.handed = O.handed
  /-- No lambda asks an empty queue for its front. -/
  defined : (O.posted ≠ [] → (O.step .posted).isSome) ∧
    ∀ i ec, i < O.outstanding.length → (O.step (.written i ec)).isSome

theorem singleWriter_of_reaches [Inhabited T] {O : Outgoing T}
    (h : Reaches step (fun _ _ ↦ True) fresh O) : O.SingleWriter := by
  have horderly := Orderly.of_reaches h
  refine ⟨horderly.one, fun hup ↦ ?_, horderly.inOrder, fun hup ↦ (horderly.up hup).2,
    fun hfailed O' ↦ horderly.quiet hfailed, fun hposted ↦ ?_, fun i ec hlt ↦ ?_⟩
  · have hqueue : O.current.writing = none ↔ O.connection.m_qMessagesOut = [] := (horderly.up hup).1
    rw [ne_eq, ne_eq, ← hqueue, outstanding_eq horderly.one]
    cases O.current.writing <;> simp
  · obtain ⟨msg, rest, hposted⟩ := List.exists_cons_of_ne_nil hposted
    obtain ⟨O', hstep, -⟩ := horderly.posted hposted
    rw [hstep]
    rfl
  · obtain ⟨O', hstep, -⟩ := horderly.written (List.getElem?_eq_getElem hlt) ec
    rw [hstep]
    rfl

/-- Two messages are sent, and the body of the first one cannot be written. -/
theorem singleWriter_of_reaches_failed :
    ∃ O : Outgoing UInt32, run step fresh [.send (Message.new 4 <<< (7 : UInt32)),
      .send (.new 3), .posted, .posted, .written 0 false, .written 0 true] = some O ∧
        O.SingleWriter := by
  obtain ⟨O, hrun⟩ : ∃ O : Outgoing UInt32, run step fresh [
      .send (Message.new 4 <<< (7 : UInt32)), .send (.new 3), .posted, .posted, .written 0 false,
      .written 0 true] = some O := ⟨_, rfl⟩
  exact ⟨O, hrun, singleWriter_of_reaches (reaches_of_run hrun)⟩

end Outgoing

end SnekCpp.Networking
