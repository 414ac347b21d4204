import SnekCpp.SnekServer.Gate

/-!
# The traffic of a connection

Its challenge is written first, then what was passed to `Send`, one message at
a time and in order.
-/

namespace SnekCpp

open Lib Networking

/-! ## The writes of one connection -/

namespace Networking.Endpoint

variable {T : Type} {c c' : Endpoint T}

/-- The same writes are outstanding, of the same queue. -/
structure SameWrites (c c' : Endpoint T) : Prop where
  writing : c'.writing = c.writing
  writingValidation : c'.writingValidation = c.writingValidation
  queue : c'.m_qMessagesOut = c.m_qMessagesOut

theorem sameWrites_onValidationRead (h : c.m_ownerType = .server) {ec : Bool}
    {bytes : List UInt8} {validated : Bool} (hread : c.onValidationRead ec bytes = (c', validated)) :
    c.SameWrites c' := by
  unfold onValidationRead at hread
  cases ec with
  | true =>
      cases hread
      exact ⟨rfl, rfl, rfl⟩
  | false =>
      simp only [Bool.false_eq_true, if_false, h, if_true] at hread
      split at hread
      · cases hread
        exact ⟨rfl, rfl, rfl⟩
      · cases hread
        exact ⟨rfl, rfl, rfl⟩

theorem sameWrites_onRead [StandardLayout T] (c : Endpoint T) (op : ReadOp) (ec : Bool)
    (bytes : List UInt8) : c.SameWrites (c.onRead op ec bytes) := by
  unfold onRead Connection.onRead Connection.onHeaderRead Connection.onBodyRead
  cases op with
  | header =>
      simp only
      split
      · exact ⟨rfl, rfl, rfl⟩
      · split
        · exact ⟨rfl, rfl, rfl⟩
        · exact ⟨rfl, rfl, rfl⟩
  | body =>
      simp only
      split
      · exact ⟨rfl, rfl, rfl⟩
      · exact ⟨rfl, rfl, rfl⟩

theorem onValidationWritten_spec (h : c.m_ownerType = .server) (ec : Bool) :
    (c.onValidationWritten ec).writingValidation = false ∧
      (c.onValidationWritten ec).m_qMessagesOut = c.m_qMessagesOut := by
  have hclient : ¬ c.m_ownerType = .client := by
    rw [h]
    exact fun heq ↦ by cases heq
  unfold onValidationWritten
  cases ec with
  | true => exact ⟨rfl, rfl⟩
  | false =>
      simp only [Bool.false_eq_true, if_false, if_neg hclient]
      exact ⟨trivial, trivial⟩

end Networking.Endpoint

/-! ## The server process -/

namespace Process

variable {platform : Platform} {depth : ℕ} {S S' : Process}

/-- Nothing is broadcast while an open connection of the list waits for its
answer, and no answer is accepted before the challenge has been written. -/
def GatesBroadcasts (S : Process) : Event → Prop
  | .validationRead r _ ec bytes => ec = false →
      StandardLayout.fromBytes bytes = (S.connections r).m_handshakeCheck →
        (S.connections r).writingValidation = false ∧ S.server.OthersValidated (some r)
  | .update _ => ∀ received ∈ S.server.m_qMessagesIn.head?, Server.Relays received.2 →
      S.server.OthersValidated none
  | _ => True

instance (S : Process) (e : Event) : Decidable (S.GatesBroadcasts e) := by
  rcases e <;> unfold GatesBroadcasts <;> infer_instance

theorem rules_gate : Rules platform depth GatesBroadcasts (Server.Greets platform)
    (fun _ s ↦ s.Gate platform) where
  accept h _ hconnect := ⟨_, h.onAccept hconnect⟩
  fields h _ _ := h.fields rfl rfl rfl rfl
  validate := by
    intro S refs r env ec bytes c h hphased hreading hread hallowed
    obtain ⟨hec, hanswer⟩ := Endpoint.answer_of_onValidationRead (hphased.owner r) hread
    have hset : (S.setConnection r c).server.Greets platform refs := h.fields rfl rfl rfl rfl
    apply Server.ends_onClientValidated
    · intro _
      have hlog : ((S.setConnection r c).server.logged [.validated r]).log =
          (S.setConnection r c).server.log ++ [.validated r] := rfl
      exact hset.gate_append rfl hlog (by simp)
    · intro spawnpoint hspawn
      have hwelcomed := hset.welcomed (hphased.waiting r hreading).1 env spawnpoint
      have hready : Server.Ready platform
          (Server.welcomed platform (S.setConnection r c).server env r spawnpoint) refs := by
        refine ⟨hwelcomed, fun ref href hopen ↦ ?_⟩
        by_cases hne : ref = r
        · rw [hne]
          exact List.mem_append_right _ (List.mem_cons_self ..)
        · apply List.mem_append_left
          apply (hallowed hec hanswer).2.of_mem h.toListed href
          · exact fun hsome ↦ hne (Option.some.inj hsome)
          · have hsame : (S.setConnection r c).server.isConnected ref =
                S.server.isConnected ref := Function.update_of_ne hne _ _
            exact hsame.symm.trans hopen
      exact ((Server.Ready.robust platform).announce hready _ _ _ _ _).mono
        (fun _ ⟨refs', h'⟩ ↦ ⟨refs', h'.toGreets⟩) fun _ _ h' ↦ h'
  update := by
    intro S refs r msg rest env h _ hqueue hallowed
    have hpopped : Server.Greets platform { S.server with m_qMessagesIn := rest } refs :=
      h.fields rfl rfl rfl rfl
    by_cases hrelays : Server.Relays msg
    · have hothers := hallowed (r, msg) (by rw [hqueue]; rfl) hrelays
      have hready : Server.Ready platform { S.server with m_qMessagesIn := rest } refs :=
        ⟨hpopped, fun ref href hopen ↦ hothers.of_mem h.toListed href (by simp) hopen⟩
      exact (hready.ends_onMessage env depth r msg).mono
        (fun _ ⟨refs', h'⟩ ↦ ⟨refs', h'.toGreets⟩) fun _ _ h' ↦ h'
    · rcases Server.run_onMessage_of_not_relays { S.server with m_qMessagesIn := rest } hrelays env
        depth r with hrun | hrun
      · rw [hrun]
        exact ⟨refs, hpopped⟩
      · rw [hrun]
        exact hpopped.toGate

/-- A connection writes one thing at a time: first its challenge, then what was
passed to `Send`, in this order. -/
structure Orderly (S : Process) : Prop where
  validated : S.fault = none → ∀ r, S.server.Validated r →
    (S.connections r).writingValidation = false
  writing : ∀ r, (S.connections r).writing ≠ none → (S.connections r).writingValidation = false
  posted : ∀ r, S.posted r ≤ (sentTo S.server.log r).length
  queue : ∀ r, ∃ written ≤ S.posted r, (S.connections r).m_qMessagesOut =
    ((sentTo S.server.log r).take (S.posted r)).drop written

namespace Orderly

theorem start : Orderly {} where
  validated _ _ h := by cases h
  writing _ h := absurd rfl h
  posted _ := Nat.zero_le _
  queue _ := ⟨0, Nat.le_refl _, rfl⟩

/-- A step of one connection, after which `n` messages have been posted to it. -/
theorem setPosted (h : Orderly S) {r : ConnRef} {c : Endpoint MessageTypes} {n : ℕ}
    (hvalidated : S.fault = none → S.server.Validated r → c.writingValidation = false)
    (hwriting : c.writing ≠ none → c.writingValidation = false)
    (hn : n ≤ (sentTo S.server.log r).length)
    (hqueue : ∃ written ≤ n, c.m_qMessagesOut = ((sentTo S.server.log r).take n).drop written) :
    Orderly { S.setConnection r c with posted := Function.update S.posted r n } := by
  have hconnections : ∀ other, other ≠ r →
      (S.setConnection r c).connections other = S.connections other := fun other hne ↦
    Function.update_of_ne hne _ _
  have hown : (S.setConnection r c).connections r = c := Function.update_self ..
  refine ⟨fun hup other ↦ ?_, fun other ↦ ?_, fun other ↦ ?_, fun other ↦ ?_⟩
  · by_cases hne : other = r
    · rw [hne, hown]
      exact hvalidated hup
    · rw [hconnections other hne]
      exact h.validated hup other
  · by_cases hne : other = r
    · rw [hne, hown]
      exact hwriting
    · rw [hconnections other hne]
      exact h.writing other
  · change Function.update S.posted r n other ≤ (sentTo S.server.log other).length
    by_cases hne : other = r
    · rw [hne, Function.update_self]
      exact hn
    · rw [Function.update_of_ne hne]
      exact h.posted other
  · change ∃ written ≤ Function.update S.posted r n other,
      ((S.setConnection r c).connections other).m_qMessagesOut =
        ((sentTo S.server.log other).take (Function.update S.posted r n other)).drop written
    by_cases hne : other = r
    · rw [hne, hown, Function.update_self]
      exact hqueue
    · rw [hconnections other hne, Function.update_of_ne hne]
      exact h.queue other

theorem setConnection (h : Orderly S) {r : ConnRef} {c : Endpoint MessageTypes}
    (hvalidated : S.fault = none → S.server.Validated r → c.writingValidation = false)
    (hwriting : c.writing ≠ none → c.writingValidation = false)
    (hqueue : ∃ written ≤ S.posted r, c.m_qMessagesOut =
      ((sentTo S.server.log r).take (S.posted r)).drop written) : Orderly (S.setConnection r c) := by
  have hset := h.setPosted hvalidated hwriting (h.posted r) hqueue
  rwa [Function.update_eq_self] at hset

theorem setSame (h : Orderly S) {r : ConnRef} {c : Endpoint MessageTypes}
    (hsame : (S.connections r).SameWrites c) : Orderly (S.setConnection r c) := by
  apply h.setConnection
  · rw [hsame.writingValidation]
    exact fun hup ↦ h.validated hup r
  · rw [hsame.writing, hsame.writingValidation]
    exact h.writing r
  · rw [hsame.queue]
    exact h.queue r

/-- A handler of the server, which only adds to the log. -/
theorem serve (h : Orderly S) {handler : ServerM Unit} {effects : List Effect}
    (hlog : (Server.after (handler.run S.server)).log = S.server.log ++ effects)
    (hvalidated : (S.serve handler).fault = none → ∀ r, .validated r ∈ effects →
      (S.connections r).writingValidation = false) (hup : S.fault = none) :
    Orderly (S.serve handler) := by
  have hserved : (S.serve handler).server.log = S.server.log ++ effects := by
    rw [server_serve, hlog]
  refine ⟨fun hrunning r hr ↦ ?_, fun r ↦ ?_, fun r ↦ ?_, fun r ↦ ?_⟩
  · rw [serve_connections]
    rw [Server.Validated, hserved, List.mem_append] at hr
    rcases hr with hr | hr
    · exact h.validated hup r hr
    · exact hvalidated hrunning r hr
  · rw [serve_connections]
    exact h.writing r
  · rw [serve_posted, hserved, sentTo_append, List.length_append]
    exact (h.posted r).trans (Nat.le_add_right _ _)
  · rw [serve_posted, serve_connections, hserved, sentTo_append,
      List.take_append_of_le_length (h.posted r)]
    exact h.queue r

theorem approve (h : Orderly S) (now : UInt64) (hconnect : S.server.onClientConnect = true)
    (hnew : ¬ S.server.Validated S.server.approved) : Orderly (S.approve now) := by
  have hlog : (S.approve now).server.log = S.server.log := by
    simp [Process.approve, Server.onAccept, hconnect]
  have hold : ∀ r, r ≠ S.server.approved →
      (S.approve now).connections r = S.connections r := fun r hne ↦ Function.update_of_ne hne _ _
  have hfresh : (S.approve now).connections S.server.approved =
      (Endpoint.create .server now).connectToClient := Function.update_self ..
  refine ⟨fun hup r hr ↦ ?_, fun r ↦ ?_, fun r ↦ ?_, fun r ↦ ?_⟩
  · rw [Server.Validated, hlog] at hr
    by_cases hne : r = S.server.approved
    · exact absurd (hne ▸ hr) hnew
    · rw [hold r hne]
      exact h.validated hup r hr
  · by_cases hne : r = S.server.approved
    · rw [hne, hfresh]
      exact fun hbusy ↦ absurd rfl hbusy
    · rw [hold r hne]
      exact h.writing r
  · rw [hlog]
    exact h.posted r
  · rw [hlog]
    by_cases hne : r = S.server.approved
    · rw [hne, hfresh]
      refine ⟨_, Nat.le_refl _, ?_⟩
      exact (List.drop_eq_nil_of_le (List.length_take_le _ _)).symm
    · rw [hold r hne]
      exact h.queue r

theorem send (h : Orderly S) (hup : S.fault = none) (hgate : S.server.Gate platform) {r : ConnRef} {msg : Msg}
    {c : Endpoint MessageTypes} (hposted : (sentTo S.server.log r)[S.posted r]? = some msg)
    (hsend : (S.connections r).send msg = some c) :
    Orderly { S.setConnection r c with
      posted := Function.update S.posted r (S.posted r + 1) } := by
  obtain ⟨⟨d, bytes⟩, hconnection, rfl⟩ := Option.map_eq_some_iff.mp hsend
  have hvalidated : S.server.Validated r :=
    hgate.validated_of_sent (mem_sentTo.mp (List.mem_of_getElem? hposted))
  have hdone := h.validated hup r hvalidated
  obtain ⟨hlt, hget⟩ := List.getElem?_eq_some_iff.mp hposted
  obtain ⟨written, hle, hqueue⟩ := h.queue r
  apply h.setPosted
  · exact fun _ _ ↦ hdone
  · exact fun _ ↦ hdone
  · exact hlt
  · refine ⟨written, hle.trans (Nat.le_succ _), ?_⟩
    rw [show ({ S.connections r with toConnection := d } : Endpoint MessageTypes).m_qMessagesOut =
        d.m_qMessagesOut from rfl, (Connection.writes_of_send hconnection).queue, hqueue,
      List.take_add_one, hposted, List.drop_append_of_le_length]
    · rfl
    · rw [List.length_take]
      exact Nat.le_min.mpr ⟨hle, hle.trans (h.posted r)⟩

theorem written (h : Orderly S) {r : ConnRef} {ec : Bool} {c : Endpoint MessageTypes}
    (hwritten : (S.connections r).onWritten ec = some c) : Orderly (S.setConnection r c) := by
  obtain ⟨⟨d, bytes⟩, hconnection, rfl⟩ := Option.map_eq_some_iff.mp hwritten
  have hdone := h.writing r (Connection.writing_of_onWritten hconnection)
  obtain ⟨written, hle, hqueue⟩ := h.queue r
  apply h.setConnection
  · exact fun _ _ ↦ hdone
  · exact fun _ ↦ hdone
  · rcases Connection.writes_of_onWritten hconnection with ⟨-, hsame⟩ | ⟨-, htail⟩
    · exact ⟨written, hle, hsame.trans hqueue⟩
    · rcases Nat.lt_or_ge written (S.posted r) with hlt | hge
      · refine ⟨written + 1, hlt, htail.trans ?_⟩
        rw [hqueue, List.tail_drop]
      · refine ⟨written, hle, htail.trans ?_⟩
        rw [hqueue, List.drop_eq_nil_of_le ((List.length_take_le _ _).trans hge)]
        rfl

theorem validate (h : Orderly S) (hup : S.fault = none) {r : ConnRef} {env : Env}
    {c : Endpoint MessageTypes} (hsame : (S.connections r).SameWrites c)
    (hdone : (S.connections r).writingValidation = false) :
    Orderly ((S.setConnection r c).validate platform depth r env c) := by
  set called := (S.setConnection r c).call (.onClientValidated r c.m_handshakeIn) with hcalled
  have horderly : Orderly called := by
    have hset := h.setSame hsame
    exact ⟨hset.validated, hset.writing, hset.posted, hset.queue⟩
  have hown : called.connections r = c := Function.update_self ..
  obtain ⟨effects, hlog, hquiet⟩ :=
    Server.log_onClientValidated platform env depth r called.server
  have hserved : Orderly (called.serve (Server.onClientValidated platform env depth r)) := by
    apply horderly.serve hlog
    · intro _ other hother
      rcases List.mem_cons.mp hother with heq | hother
      · cases heq
        rw [hown, hsame.writingValidation]
        exact hdone
      · exact absurd hother (hquiet other)
    · exact hup
  unfold Process.validate
  simp only
  rw [← hcalled]
  split
  · apply hserved.setSame
    rw [serve_connections, hown]
    exact ⟨rfl, rfl, rfl⟩
  · exact hserved

theorem step (h : Orderly S) (hphased : Phased S)
    (hholds : Holds (Server.Greets platform) (fun _ s ↦ s.Gate platform) S) {e : Event}
    (hallowed : S.GatesBroadcasts e) (hstep : S.step platform depth e = some S') :
    Orderly S' := by
  obtain ⟨hup, hmoves⟩ := moves_of_step hstep
  obtain ⟨refs, hgreets⟩ := hholds.up hup
  cases hmoves with
  | approved hconnect =>
      exact h.approve _ hconnect fun hnew ↦ absurd (hgreets.known _ hnew) (Nat.lt_irrefl _)
  | denied => exact h
  | @validationWritten r ec hwriting =>
      obtain ⟨hdone, hqueue⟩ := Endpoint.onValidationWritten_spec (hphased.owner r) ec
      apply h.setConnection
      · exact fun _ _ ↦ hdone
      · exact fun _ ↦ hdone
      · rw [hqueue]
        exact h.queue r
  | rejected hreading hread =>
      exact h.setSame (Endpoint.sameWrites_onValidationRead (hphased.owner _) hread)
  | @validated r env ec bytes c hreading hread =>
      obtain ⟨hec, hanswer⟩ := Endpoint.answer_of_onValidationRead (hphased.owner r) hread
      apply h.validate hup (Endpoint.sameWrites_onValidationRead (hphased.owner r) hread)
      exact (hallowed hec hanswer).1
  | @read r op ec bytes hreading =>
      have hset := h.setSame (Endpoint.sameWrites_onRead (S.connections r) op ec bytes)
      exact ⟨hset.validated, hset.writing, hset.posted, hset.queue⟩
  | send hposted hsend => exact h.send hup hgreets.toGate hposted hsend
  | written hwritten => exact h.written hwritten
  | @update env r msg rest hqueue =>
      have hcalled : Orderly ({ S with server.m_qMessagesIn := rest }.call (.onMessage r msg)) :=
        ⟨h.validated, h.writing, h.posted, h.queue⟩
      obtain ⟨effects, hlog, hspeaks⟩ := (Server.only_onMessage platform env depth r msg
        { S.server with m_qMessagesIn := rest }).log
      apply hcalled.serve hlog
      · exact fun _ other hother ↦ (hspeaks _ hother).elim
      · exact hup

end Orderly

/-- A connection is sent nothing before it is validated, then its own game state
first, and its messages are written in order, none together with the challenge. -/
structure GatesTraffic (platform : Platform) (S : Process) : Prop where
  gate : S.server.Gate platform
  writing : ∀ r, (S.connections r).writing ≠ none → (S.connections r).writingValidation = false
  queue : ∀ r, ∃ written ≤ S.posted r, (S.connections r).m_qMessagesOut =
    ((sentTo S.server.log r).take (S.posted r)).drop written

theorem gatesTraffic_of_reaches (h : Reaches (step platform depth) GatesBroadcasts {} S) :
    S.GatesTraffic platform := by
  obtain ⟨-, hholds, horderly⟩ := h.invariant
    (I := fun S ↦ Phased S ∧ Holds (Server.Greets platform) (fun _ s ↦ s.Gate platform) S ∧
      Orderly S) ⟨.start, .of_up rfl Server.Greets.init, .start⟩ fun S e S' hI hallowed hstep ↦
        ⟨hI.1.step hstep, hI.2.1.step rules_gate hI.1 hallowed hstep,
          hI.2.2.step hI.1 hI.2.1 hallowed hstep⟩
  refine ⟨?_, horderly.writing, horderly.queue⟩
  cases hfault : S.fault with
  | some fault => exact hholds.down fault hfault
  | none =>
      obtain ⟨refs, hgreets⟩ := hholds.up hfault
      exact hgreets.toGate

/-- Two clients are challenged and answer one after the other, the first one's
game state is on its way, and it starts the game. -/
def answerInTurn : List Event :=
  [.accept 5, .validationWritten 0 false,
    .validationRead 0 .plain false (StandardLayout.toBytes (Endpoint.scramble 5)), .send 0,
    .accept 6, .validationWritten 1 false,
    .validationRead 1 .plain false (StandardLayout.toBytes (Endpoint.scramble 6)),
    .read 0 false (StandardLayout.toBytes (Message.new MessageTypes.startGame).header),
    .update .plain, .written 0 false]

theorem gatesTraffic_inTurn :
    ∃ S, run (guarded (step .x64 2) GatesBroadcasts) {} answerInTurn = some S ∧
      S.GatesTraffic .x64 := by
  obtain ⟨S, hrun⟩ : ∃ S, run (guarded (step .x64 2) GatesBroadcasts) {} answerInTurn = some S :=
    Option.isSome_iff_exists.mp (by decide +kernel)
  exact ⟨S, hrun, gatesTraffic_of_reaches (reaches_of_guarded hrun)⟩

/-- The second client has not answered when the first one starts the game. -/
def startsBetween : List Event :=
  [.accept 5, .validationWritten 0 false,
    .validationRead 0 .plain false (StandardLayout.toBytes (Endpoint.scramble 5)),
    .accept 6,
    .read 0 false (StandardLayout.toBytes (Message.new MessageTypes.startGame).header),
    .update .plain]

theorem not_gatesTraffic_between :
    ¬ ∀ S, Reaches (step .x64 2) (fun _ _ ↦ True) {} S → S.GatesTraffic .x64 := by
  intro hgates
  obtain ⟨S, hreaches, hsent⟩ := @exists_reaches_of_run _ _ (step .x64 2) {} startsBetween
    (fun S ↦ decide (.sent 1 (.new .startGame) ∈ S.server.log) && !decide (S.server.Validated 1))
    (by decide +kernel)
  rw [Bool.and_eq_true_iff, Bool.not_eq_true', decide_eq_true_eq, decide_eq_false_iff_not] at hsent
  exact hsent.2 ((hgates S hreaches).gate.validated_of_sent hsent.1)

end Process

end SnekCpp
