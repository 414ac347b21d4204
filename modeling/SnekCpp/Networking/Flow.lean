import SnekCpp.Networking.Duplex

/-!
# The traffic on a connection ends

Lambdas, completions and arrivals each leave less to do, as long as nothing is
sent and nothing fails.  What is left at the end has been delivered.
-/

namespace SnekCpp.Networking

open Lib

variable {T : Type} [StandardLayout T]

/-- An event that passes nothing to `Send` and is no failure. -/
def StationEvent.Traffic : StationEvent T → Prop
  | .outgoing .posted => True
  | .outgoing (.written _ ec) => ec = false
  | .arrive _ => True
  | .read => True
  | _ => False

instance (e : StationEvent T) : Decidable e.Traffic := by
  rcases e with e | _ | _ | _
  · rcases e <;> unfold StationEvent.Traffic <;> infer_instance
  · exact .isTrue trivial
  · exact .isTrue trivial
  · exact .isFalse id

omit [StandardLayout T] in
theorem StationEvent.Traffic.passed_eq_nil {e : StationEvent T} (h : e.Traffic) : e.passed = [] := by
  rcases e with e | _ | _ | _
  · cases e with
    | send => exact h.elim
    | _ => rfl
  · rfl
  · rfl
  · rfl

namespace Outgoing.Orderly

variable {O O' : Outgoing T}

/-- A posted lambda leaves at most two writes. -/
theorem load_posted (h : O.Orderly) (hup : O.failed = false) (hstep : O.step .posted = some O') :
    O.posted.length = O'.posted.length + 1 ∧
      O'.current.writesLeft = O.current.writesLeft + 2 := by
  cases hposted : O.posted with
  | nil => simp [Outgoing.step, hposted] at hstep
  | cons msg rest =>
      obtain ⟨hqueue, -⟩ := h.up hup
      obtain ⟨c, bytes, hsend, -, -, hleft⟩ := Connection.send_spec hqueue msg
      obtain ⟨next, hrun, hran⟩ := run_send (O := { O with posted := rest }) h.one hqueue hsend
      simp only [Outgoing.step, hposted] at hstep
      rw [hrun] at hstep
      cases hstep
      rw [hran.posted, hran.current, hleft]
      exact ⟨rfl, rfl⟩

theorem load_written (h : O.Orderly) (hup : O.failed = false) {i : ℕ}
    (hstep : O.step (.written i false) = some O') :
    O'.posted = O.posted ∧ O'.current.writesLeft < O.current.writesLeft := by
  cases hop : O.outstanding[i]? with
  | none => simp [Outgoing.step, hop] at hstep
  | some op =>
      obtain ⟨hqueue, -⟩ := h.up hup
      have hlt : i < O.outstanding.length := (List.getElem?_eq_some_iff.mp hop).1
      have hzero : i = 0 := by
        have hone := h.one
        omega
      subst hzero
      have hwriting : O.current.writing = some op := by
        rw [← hop, ← List.head?_eq_getElem?]
        rfl
      have hidle : O.outstanding.eraseIdx 0 = [] := by
        rw [outstanding_eq h.one, hwriting]
        rfl
      have hcompleted : O.current.onWritten false = O.connection.onCompleted false op := by
        rw [← onCompleted_writing O.connection O.outstanding.head? false op]
        unfold Connection.onWritten
        rw [hwriting]
        cases op <;> rfl
      obtain ⟨c, bytes, hwritten, -, -, hless⟩ :=
        Connection.onWritten_spec hqueue (by rw [hwriting]; simp)
      rw [hcompleted] at hwritten
      obtain ⟨next, hrun, hran⟩ := run_completed
        (O := { O with outstanding := O.outstanding.eraseIdx 0, failed := O.failed || false })
        hidle hwritten
      simp only [Outgoing.step, hop] at hstep
      rw [hrun] at hstep
      cases hstep
      rw [hran.posted, hran.current]
      exact ⟨rfl, hless⟩

end Outgoing.Orderly

namespace Station

variable {s s' : Station T} {coming : List UInt8} {e : StationEvent T}

theorem isOpen_of_traffic (htraffic : e.Traffic) (h : s.step coming e = some s') :
    s'.connection.isOpen = s.connection.isOpen := by
  cases e with
  | outgoing e =>
      obtain ⟨O, hO, rfl⟩ := Option.map_eq_some_iff.mp h
      cases e with
      | send => exact htraffic.elim
      | close => exact htraffic.elim
      | posted =>
          simp only [Outgoing.step] at hO
          split at hO
          · cases hO
          · obtain ⟨c, bytes, hlambda, rfl⟩ := Outgoing.runLambda_cases hO
            exact (Connection.sameIn_send hlambda).2
      | written i ec =>
          obtain rfl : ec = false := htraffic
          simp only [Outgoing.step] at hO
          split at hO
          · cases hO
          · obtain ⟨c, bytes, hlambda, rfl⟩ := Outgoing.runLambda_cases hO
            exact (Connection.sameIn_onCompleted hlambda).2.trans (Bool.and_true _)
  | arrive n =>
      obtain ⟨-, h⟩ := Option.ite_none_right_eq_some.mp h
      cases h
      rfl
  | read =>
      obtain ⟨I, hI, rfl⟩ := Option.map_eq_some_iff.mp h
      obtain ⟨-, hI⟩ := Option.ite_none_right_eq_some.mp hI
      cases hI
      exact Incoming.isOpen_take _ _
  | fail => exact htraffic.elim

/-- What the outgoing queue has to do. -/
def outLoad (s : Station T) : ℕ := 3 * s.posted.length + s.current.writesLeft

/-- What the read loop has to do when `total` bytes are to arrive. -/
def inLoad (total : ℕ) (s : Station T) : ℕ :=
  3 * (total - s.arrived.length) + 2 * s.wire.length

/-- One end has gone on from `s` to `s'` and has less to do, even if a queued message counts. -/
structure Lighter (total : ℕ) (s s' : Station T) : Prop where
  out : s'.outLoad ≤ s.outLoad
  inn : s'.inLoad total + s'.connection.m_qMessagesIn.length ≤
    s.inLoad total + s.connection.m_qMessagesIn.length
  less : s'.outLoad + (s'.inLoad total + s'.connection.m_qMessagesIn.length) <
    s.outLoad + (s.inLoad total + s.connection.m_qMessagesIn.length)
  queue : s.connection.m_qMessagesIn.length ≤ s'.connection.m_qMessagesIn.length

theorem length_queue_take (c : Connection T) (bytes : List UInt8) :
    c.m_qMessagesIn.length ≤ (Connection.loop.take c bytes).m_qMessagesIn.length ∧
      (Connection.loop.take c bytes).m_qMessagesIn.length ≤ c.m_qMessagesIn.length + 1 := by
  cases hreading : c.reading with
  | none => simp [Connection.loop, hreading]
  | some op =>
      cases op with
      | body =>
          simp [Connection.loop, hreading, Connection.onRead, Connection.onBodyRead,
            Connection.addToIncomingMessageQueue, Connection.readHeader]
      | header =>
          simp only [Connection.loop, hreading, Connection.onRead, Connection.onHeaderRead,
            Bool.false_eq_true, ↓reduceIte]
          split
          · simp [Connection.readBody]
          · simp [Connection.addToIncomingMessageQueue, Connection.readHeader]

omit [StandardLayout T] in
theorem lighter_of_outgoing {O : Outgoing T} {total : ℕ}
    (hkeeps : s.connection.SameIn O.connection)
    (hless : 3 * O.posted.length + O.current.writesLeft < s.outLoad) :
    s.Lighter total { s with toOutgoing := O } := by
  have hout : outLoad { s with toOutgoing := O } < s.outLoad := hless
  have hin : inLoad total { s with toOutgoing := O } = s.inLoad total := rfl
  refine ⟨hout.le, ?_, ?_, ?_⟩
  · rw [hin, hkeeps.queue]
  · rw [hin, hkeeps.queue]
    exact Nat.add_lt_add_right hout _
  · rw [hkeeps.queue]

theorem lighter_of_read {total : ℕ} {I : Incoming T} (hstep : s.incoming.step .read = some I) :
    s.Lighter total (s.setIncoming I) := by
  obtain ⟨⟨hpos, hle⟩, hI⟩ := Option.ite_none_right_eq_some.mp hstep
  cases hI
  simp only [incoming] at hpos hle
  have hqueueOut : (Connection.loop.take s.connection
      (s.wire.take (Connection.loop.need s.connection))).m_qMessagesOut =
        s.connection.m_qMessagesOut := by
    simp only [Connection.loop]
    split
    · rfl
    · exact (Connection.sameOut_onRead ..).queue
  obtain ⟨hgrows, hone⟩ := length_queue_take s.connection
    (s.wire.take (Connection.loop.need s.connection))
  have hshort : (s.wire.drop (Connection.loop.need s.connection)).length < s.wire.length := by
    rw [List.length_drop]
    omega
  refine ⟨?_, ?_, ?_, hgrows⟩
  · simp only [outLoad, setIncoming, incoming, Outgoing.current, Connection.writesLeft, hqueueOut]
    exact Nat.le_refl _
  · simp only [inLoad, setIncoming, incoming]
    omega
  · simp only [outLoad, inLoad, setIncoming, incoming, Outgoing.current, Connection.writesLeft,
      hqueueOut]
    omega

theorem lighter_of_traffic (h : s.Sound) (hup : s.failed = false) {total : ℕ}
    (htotal : s.arrived.length + coming.length ≤ total) (htraffic : e.Traffic)
    (hstep : s.step coming e = some s') : s.Lighter total s' := by
  cases e with
  | outgoing e =>
      obtain ⟨O, hO, rfl⟩ := Option.map_eq_some_iff.mp hstep
      have hkeeps := (Outgoing.advances_of_step hO).keeps
      cases e with
      | send => exact htraffic.elim
      | close => exact htraffic.elim
      | posted =>
          obtain ⟨hposted, hleft⟩ := h.orderly.load_posted hup hO
          refine lighter_of_outgoing hkeeps ?_
          simp only [outLoad]
          omega
      | written i ec =>
          obtain rfl : ec = false := htraffic
          obtain ⟨hposted, hleft⟩ := h.orderly.load_written hup hO
          refine lighter_of_outgoing hkeeps ?_
          simp only [outLoad, hposted]
          omega
  | arrive n =>
      obtain ⟨⟨hpos, hle⟩, hstep⟩ := Option.ite_none_right_eq_some.mp hstep
      cases hstep
      have hless : inLoad total (s.setIncoming { s.incoming with
          wire := s.wire ++ coming.take n
          arrived := s.arrived ++ coming.take n }) < s.inLoad total := by
        simp only [inLoad, setIncoming, incoming, List.length_append, List.length_take,
          Nat.min_eq_left hle]
        omega
      refine ⟨Nat.le_refl _, Nat.add_le_add_right hless.le _, ?_, Nat.le_refl _⟩
      exact Nat.add_lt_add_left (Nat.add_lt_add_right hless _) _
  | read =>
      obtain ⟨I, hI, rfl⟩ := Option.map_eq_some_iff.mp hstep
      exact lighter_of_read hI
  | fail => exact htraffic.elim

theorem waits_of_step_eq_none (h : s.step coming .read = none) : s.incoming.Waits := by
  intro hready
  simp only [step, Incoming.step] at h
  rw [if_pos hready] at h
  cases h

end Station

namespace Duplex

variable {D D' : Duplex T}

/-- No more sends and no failures. -/
def Traffic (_D : Duplex T) (e : Owner × StationEvent T) : Prop := e.2.Traffic

instance (D : Duplex T) (e : Owner × StationEvent T) : Decidable (D.Traffic e) :=
  inferInstanceAs (Decidable e.2.Traffic)

namespace Linked

theorem length_coming (h : D.Linked) (side : Owner) :
    (D side).arrived.length + (D.coming side).length ≤ (stream (D side.other).sent).length := by
  have harrived := (h.arrived side).length_le
  have hhanded := (h.ends side.other).orderly.handed_prefix.length_le
  rw [coming, List.length_drop]
  omega

/-- Where no lambda, no write and no byte is on its way, all that was sent has arrived. -/
theorem arrived_of_halted (h : D.Linked) (hup : ∀ side, (D side).failed = false)
    (hhalted : ∀ side event, StationEvent.Traffic event → event ≠ .read →
      (D side).step (D.coming side) event = none) (side : Owner) :
    (D side).arrived = stream (D side.other).sent := by
  have hposted : (D side.other).posted = [] := by
    by_contra hne
    obtain ⟨msg, rest, hposted⟩ := List.exists_cons_of_ne_nil hne
    obtain ⟨O, hO, -⟩ := (h.ends side.other).orderly.posted hposted
    have hnone := hhalted side.other (.outgoing .posted) trivial (by simp)
    simp [Station.step, hO] at hnone
  have hidle : (D side.other).outstanding = [] := by
    by_contra hne
    obtain ⟨op, rest, hop⟩ := List.exists_cons_of_ne_nil hne
    have hfirst : (D side.other).outstanding[0]? = some op := by rw [hop]; rfl
    obtain ⟨O, hO, -⟩ := (h.ends side.other).orderly.written hfirst false
    have hnone := hhalted side.other (.outgoing (.written 0 false)) rfl (by simp)
    simp [Station.step, hO] at hnone
  have hcoming : D.coming side = [] := by
    by_contra hne
    have hpos := List.length_pos_iff.mpr hne
    have hnone := hhalted side (.arrive 1) trivial (by simp)
    simp only [Station.step] at hnone
    rw [if_pos ⟨Nat.one_pos, hpos⟩] at hnone
    simp [Incoming.step] at hnone
  have hhanded : (D side.other).handed = stream (D side.other).sent :=
    (h.ends side.other).orderly.handed_eq (hup side.other) hposted hidle
  obtain ⟨rest, hrest⟩ := h.arrived side
  rw [coming, ← hrest, List.drop_left] at hcoming
  rw [← hhanded, ← hrest, hcoming, List.append_nil]

end Linked

/-- What an end has to do. -/
def load (D : Duplex T) (side : Owner) : ℕ :=
  (D side).outLoad + (D side).inLoad (stream (D side.other).sent).length

/-- A connection on which nothing has failed, with `sent` passed to `Send` at each end. -/
structure Running (sent : Owner → List (Message T)) (D : Duplex T) : Prop extends Sound D where
  isOpen : ∀ side, (D side).connection.isOpen = true
  sent_eq : ∀ side, (D side).sent = sent side

namespace Running

variable {sent : Owner → List (Message T)} {e : Owner × StationEvent T}

theorem step [ExactLayout T] (h : D.Running sent) (htraffic : D.Traffic e)
    (hstep : D.step e = some D') :
    D'.Running sent ∧ D'.load .server + D'.load .client < D.load .server + D.load .client := by
  have hpassed := StationEvent.Traffic.passed_eq_nil htraffic
  have hsound := h.toSound.step (by simp [Passes, hpassed]) hstep
  obtain ⟨side, event⟩ := e
  obtain ⟨s, hs, rfl⟩ := Option.map_eq_some_iff.mp hstep
  have hsent : s.sent = (D side).sent := by
    rw [(Station.advances_of_step hs).sent, hpassed, List.append_nil]
  have hlighter := Station.lighter_of_traffic (h.ends side)
    ((h.ends side).up (h.isOpen side)).1 (h.length_coming side) htraffic hs
  refine ⟨⟨hsound, fun other ↦ ?_, fun other ↦ ?_⟩, ?_⟩
  · by_cases heq : other = side
    · subst heq
      rw [Function.update_self, Station.isOpen_of_traffic htraffic hs]
      exact h.isOpen other
    · rw [Function.update_of_ne heq]
      exact h.isOpen other
  · by_cases heq : other = side
    · subst heq
      rw [Function.update_self, hsent]
      exact h.sent_eq other
    · rw [Function.update_of_ne heq]
      exact h.sent_eq other
  · have hself : load (Function.update D side s) side =
        s.outLoad + s.inLoad (stream (D side.other).sent).length := by
      rw [load, Function.update_self, Function.update_of_ne (other_ne side)]
    have hother : load (Function.update D side s) side.other = D.load side.other := by
      rw [load, Function.update_of_ne (other_ne side), other_other, Function.update_self, hsent,
        load, other_other]
    have hdown : load (Function.update D side s) side < D.load side := by
      have hless := hlighter.less
      have hqueue := hlighter.queue
      rw [hself, load]
      omega
    cases side with
    | server =>
        simp only [Owner.other] at hother ⊢
        omega
    | client =>
        simp only [Owner.other] at hother ⊢
        omega

/-- Where no traffic goes on, all that was sent has been queued. -/
theorem queued_of_halted [ExactLayout T] (h : D.Running sent)
    (hhalted : ∀ e, guarded Duplex.step Traffic D e = none) (side : Owner) :
    (D side).connection.m_qMessagesIn.map Message.onStream = sent side.other := by
  have hstep : ∀ side event, StationEvent.Traffic event →
      (D side).step (D.coming side) event = none := by
    intro side event htraffic
    have hnone := hhalted (side, event)
    rw [guarded, if_pos (show D.Traffic (side, event) from htraffic)] at hnone
    exact Option.map_eq_none_iff.mp hnone
  have hup : ∀ side, (D side).failed = false ∧ (D side).connection.reading ≠ none :=
    fun side ↦ (h.ends side).up (h.isOpen side)
  have hwaits : (D side).incoming.Waits := Station.waits_of_step_eq_none (hstep side .read trivial)
  have harrived := h.arrived_of_halted (fun side ↦ (hup side).1)
    (fun side event htraffic _ ↦ hstep side event htraffic) side
  have hframed := h.framed side.other
  have hreencodes := (h.ends side).reencodes
  rw [← h.sent_eq]
  apply List.IsPrefix.eq_of_length_le
  · exact hreencodes.prefix_of_arrived hframed (harrived ▸ List.prefix_rfl)
  · exact (hreencodes.queued (hup side).2 hwaits hframed (harrived ▸ List.prefix_rfl)).length_le

end Running

/-- Once nothing more is sent, and as long as no operation fails, every order of
lambdas, completions and arrivals comes to an end, and each end has queued then
what the other one has sent. -/
theorem delivered_inevitable [Inhabited T] [ExactLayout T] (h : Reaches step Passes fresh D)
    (hopen : ∀ side, (D side).connection.isOpen = true) :
    Inevitably (guarded step Traffic)
      (fun D' ↦ ∀ side, (D' side).connection.m_qMessagesIn.map Message.onStream =
        (D side.other).sent) D := by
  apply Inevitably.of_measure (Running fun side ↦ (D side).sent)
    (fun D ↦ D.load .server + D.load .client)
  · intro D e D' hrunning hstep
    obtain ⟨htraffic, hstep⟩ := Option.ite_none_right_eq_some.mp hstep
    exact hrunning.step htraffic hstep
  · exact fun D' hrunning hhalted ↦ hrunning.queued_of_halted hhalted
  · exact ⟨Sound.of_reaches h, hopen, fun _ ↦ rfl⟩

theorem delivered_inevitable_crossing :
    ∃ D, run (guarded step Passes) fresh crossing = some D ∧
      (D .client).sent = [⟨⟨3, 0⟩, []⟩] ∧ Inevitably (guarded step Traffic)
        (fun D' : Duplex UInt32 ↦ ∀ side, (D' side).connection.m_qMessagesIn.map Message.onStream =
          (D side.other).sent) D := by
  obtain ⟨D, hrun, hcheck⟩ := exists_run_of_any
    (P := fun D : Duplex UInt32 ↦ decide ((D .client).sent = [⟨⟨3, 0⟩, []⟩] ∧
      (D .server).connection.isOpen = true ∧ (D .client).connection.isOpen = true))
    (show (run (guarded step Passes) fresh crossing).any _ = true by decide +kernel)
  obtain ⟨hsent, hserver, hclient⟩ := of_decide_eq_true hcheck
  refine ⟨D, hrun, hsent, delivered_inevitable (reaches_of_guarded hrun) fun side ↦ ?_⟩
  cases side with
  | server => exact hserver
  | client => exact hclient

end Duplex

end SnekCpp.Networking
