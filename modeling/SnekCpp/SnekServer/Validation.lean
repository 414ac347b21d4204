import SnekCpp.Lib.History
import SnekCpp.SnekServer.Process

/-!
# The order of the calls

A connection waits for the answer to its challenge, then listens for messages,
and never goes back.  So its messages reach `OnMessage` after its
`OnClientValidated`, which runs once and only for the right answer.
-/

namespace SnekCpp

open Lib Networking

/-! ## The lambdas of one connection -/

namespace Networking.Endpoint

variable {T : Type}

/-- From `c` to `c'` the handshake is the same, and no read is started. -/
structure Steady (c c' : Endpoint T) : Prop where
  owner : c'.m_ownerType = c.m_ownerType
  out : c'.m_handshakeOut = c.m_handshakeOut
  check : c'.m_handshakeCheck = c.m_handshakeCheck
  waiting : c'.readingValidation = true → c.readingValidation = true
  listening : c'.reading ≠ none → c.reading ≠ none

theorem steady_onValidationWritten {c : Endpoint T} (h : c.m_ownerType = .server) (ec : Bool) :
    c.Steady (c.onValidationWritten ec) := by
  have hclient : ¬ c.m_ownerType = .client := by
    rw [h]
    exact fun heq ↦ by cases heq
  unfold onValidationWritten
  cases ec with
  | true => exact ⟨rfl, rfl, rfl, id, id⟩
  | false =>
      simp only [Bool.false_eq_true, if_false, if_neg hclient]
      exact ⟨rfl, rfl, rfl, id, id⟩

/-- The server's end does not wait any more, and calls `OnClientValidated` only
for the value that it checks for. -/
theorem onValidationRead_spec {c c' : Endpoint T} (h : c.m_ownerType = .server) {ec : Bool}
    {bytes : List UInt8} {validated : Bool} (hread : c.onValidationRead ec bytes = (c', validated)) :
    c.Steady c' ∧ c'.readingValidation = false ∧
      (validated = true → c'.m_handshakeIn = c.m_handshakeCheck) := by
  unfold onValidationRead at hread
  cases ec with
  | true =>
      cases hread
      exact ⟨⟨rfl, rfl, rfl, fun hfalse ↦ (by cases hfalse), id⟩, rfl,
        fun hfalse ↦ by cases hfalse⟩
  | false =>
      simp only [Bool.false_eq_true, if_false, h, if_true] at hread
      split at hread
      · cases hread
        exact ⟨⟨h.symm, rfl, rfl, fun hfalse ↦ (by cases hfalse), id⟩, rfl,
          fun hfalse ↦ by cases hfalse⟩
      · next hmatch =>
          cases hread
          exact ⟨⟨h.symm, rfl, rfl, fun hfalse ↦ (by cases hfalse), id⟩, rfl,
            fun _ ↦ not_not.mp hmatch⟩

theorem answer_of_onValidationRead {c c' : Endpoint T} (h : c.m_ownerType = .server)
    {ec : Bool} {bytes : List UInt8} (hread : c.onValidationRead ec bytes = (c', true)) :
    ec = false ∧ StandardLayout.fromBytes bytes = c.m_handshakeCheck := by
  unfold onValidationRead at hread
  cases ec with
  | true => cases hread
  | false =>
      simp only [Bool.false_eq_true, if_false, h, if_true] at hread
      split at hread
      · cases hread
      · next hmatch => exact ⟨rfl, not_not.mp hmatch⟩

/-- A right answer leaves the socket as it is. -/
theorem isOpen_of_onValidationRead {c c' : Endpoint T} (h : c.m_ownerType = .server)
    {ec : Bool} {bytes : List UInt8} (hread : c.onValidationRead ec bytes = (c', true)) :
    c'.isOpen = c.isOpen := by
  obtain ⟨rfl, hanswer⟩ := answer_of_onValidationRead h hread
  unfold onValidationRead at hread
  simp only [Bool.false_eq_true, if_false, h, if_true, hanswer, ne_eq, not_true_eq_false] at hread
  cases hread
  rfl

variable [StandardLayout T]

theorem steady_onRead {c : Endpoint T} {op : ReadOp} (h : c.reading = some op) (ec : Bool)
    (bytes : List UInt8) : c.Steady (c.onRead op ec bytes) :=
  ⟨rfl, rfl, rfl, id, fun _ hnone ↦ by rw [h] at hnone; cases hnone⟩

end Networking.Endpoint

namespace Networking.Connection

variable {T : Type} [StandardLayout T] {c c' : Connection T} {bytes : List UInt8}

/-- A step of the outgoing queue: it becomes `queue`, and the read loop is left alone. -/
structure Writes (c : Connection T) (queue : List (Message T)) (c' : Connection T) : Prop where
  reading : c'.reading = c.reading
  queue : c'.m_qMessagesOut = queue

theorem writes_of_writeHeader (h : c.writeHeader = some (c', bytes)) :
    c.Writes c.m_qMessagesOut c' := by
  unfold writeHeader at h
  split at h
  · cases h
  · cases h
    exact ⟨rfl, rfl⟩

omit [StandardLayout T] in
theorem writes_of_writeBody (h : c.writeBody = some (c', bytes)) :
    c.Writes c.m_qMessagesOut c' := by
  unfold writeBody at h
  split at h
  · cases h
  · cases h
    exact ⟨rfl, rfl⟩

theorem writes_of_send {msg : Message T} (h : c.send msg = some (c', bytes)) :
    c.Writes (c.m_qMessagesOut ++ [msg]) c' := by
  unfold send at h
  simp only at h
  split at h
  · obtain ⟨hreading, hqueue⟩ := writes_of_writeHeader h
    exact ⟨hreading, hqueue⟩
  · cases h
    exact ⟨rfl, rfl⟩

theorem writes_of_popFrontAndWrite (h : c.popFrontAndWrite = some (c', bytes)) :
    c.Writes c.m_qMessagesOut.tail c' := by
  unfold popFrontAndWrite at h
  simp only at h
  split at h
  · obtain ⟨hreading, hqueue⟩ := writes_of_writeHeader h
    exact ⟨hreading, hqueue⟩
  · cases h
    exact ⟨rfl, rfl⟩

/-- A write that completes leaves the queue or takes its front off. -/
theorem writes_of_onWritten {ec : Bool} (h : c.onWritten ec = some (c', bytes)) :
    c.Writes c.m_qMessagesOut c' ∨ c.Writes c.m_qMessagesOut.tail c' := by
  unfold onWritten at h
  split at h
  · cases h
  · unfold onHeaderWritten at h
    split at h
    · cases h
      exact .inl ⟨rfl, rfl⟩
    · split at h
      · cases h
      · split at h
        · exact .inl (writes_of_writeBody h)
        · exact .inr (writes_of_popFrontAndWrite h)
  · unfold onBodyWritten at h
    split at h
    · cases h
      exact .inl ⟨rfl, rfl⟩
    · exact .inr (writes_of_popFrontAndWrite h)

end Networking.Connection

namespace Networking.Endpoint

variable {T : Type} [StandardLayout T] {c c' : Endpoint T}

theorem steady_send {msg : Message T} (h : c.send msg = some c') : c.Steady c' := by
  obtain ⟨⟨d, bytes⟩, hsend, rfl⟩ := Option.map_eq_some_iff.mp h
  refine ⟨rfl, rfl, rfl, id, ?_⟩
  rw [← (Connection.writes_of_send hsend).reading]
  exact id

theorem steady_onWritten {ec : Bool} (h : c.onWritten ec = some c') : c.Steady c' := by
  obtain ⟨⟨d, bytes⟩, hwritten, rfl⟩ := Option.map_eq_some_iff.mp h
  refine ⟨rfl, rfl, rfl, id, ?_⟩
  rcases Connection.writes_of_onWritten hwritten with hwrites | hwrites
  · rw [← hwrites.reading]
    exact id
  · rw [← hwrites.reading]
    exact id

end Networking.Endpoint

/-! ## What a handler leaves alone -/

namespace Server

/-- The handler has approved no connection and received no message. -/
structure Untouched (s s' : Server) : Prop where
  getID : s'.getID = s.getID
  isConnected : s'.isConnected = s.isConnected
  approved : s'.approved = s.approved
  queue : s'.m_qMessagesIn = s.m_qMessagesIn

theorem Extends.untouched {said : Msg} {s s' : Server} (h : Extends said s s') : s.Untouched s' :=
  ⟨h.getID, h.isConnected, h.approved, h.queue⟩

theorem untouched_onMessage (platform : Platform) (env : Env) (depth : ℕ) (r : ConnRef) (msg : Msg)
    (s : Server) : s.Untouched (after ((onMessage platform env depth r msg).run s)) :=
  (only_onMessage platform env depth r msg s).untouched

theorem untouched_onClientValidated (platform : Platform) (env : Env) (depth : ℕ) (r : ConnRef)
    (s : Server) : s.Untouched (after ((onClientValidated platform env depth r).run s)) := by
  cases hspawn : s.spawnpoints.getLast? with
  | none =>
      rw [run_onClientValidated_none platform hspawn]
      exact ⟨rfl, rfl, rfl, rfl⟩
  | some spawnpoint =>
      rw [run_onClientValidated platform hspawn]
      have hannounce := (only_announce platform env depth r (s.getID r)
        { direction := .up, tail := [spawnpoint], color := env.color }
        (s.welcomed platform env r spawnpoint)).untouched
      exact ⟨hannounce.getID, hannounce.isConnected, hannounce.approved, hannounce.queue⟩

end Server

namespace Process

theorem server_serve (S : Process) (handler : ServerM Unit) :
    (S.serve handler).server = Server.after (handler.run S.server) := by
  unfold serve
  cases handler.run S.server <;> rfl

theorem serve_calls (S : Process) (handler : ServerM Unit) :
    (S.serve handler).calls = S.calls := by
  unfold serve
  cases handler.run S.server <;> rfl

theorem serve_posted (S : Process) (handler : ServerM Unit) :
    (S.serve handler).posted = S.posted := by
  unfold serve
  cases handler.run S.server <;> rfl

theorem serve_connections (S : Process) (handler : ServerM Unit) :
    (S.serve handler).connections = S.connections := by
  unfold serve
  cases handler.run S.server <;> rfl

end Process

/-! ## Every call finds its reason in the past -/

/-- A connection is approved once; its answer is accepted once, if it is the
right one; and its messages are handled after that. -/
def Call.Justified : Call → List Call → Prop
  | .approved r _, past => ∀ challenge, .approved r challenge ∉ past
  | .onClientValidated r answer, past =>
      (∀ answer', .onClientValidated r answer' ∉ past) ∧
        ∃ challenge, .approved r challenge ∈ past ∧ answer = Endpoint.scramble challenge
  | .onMessage r _, past => ∃ answer, .onClientValidated r answer ∈ past

namespace Process

def Validated (S : Process) (r : ConnRef) : Prop := ∃ answer, .onClientValidated r answer ∈ S.calls

/-- What a connection waits for tells what has been called for it. -/
structure Phased (S : Process) : Prop where
  owner : ∀ r, (S.connections r).m_ownerType = .server
  check : ∀ r, (S.connections r).m_handshakeCheck =
    Endpoint.scramble (S.connections r).m_handshakeOut
  waiting : ∀ r, (S.connections r).readingValidation = true →
    r < S.server.approved ∧ (S.connections r).reading = none ∧ ¬ S.Validated r
  listening : ∀ r, (S.connections r).reading ≠ none → S.Validated r
  queued : ∀ r msg, (r, msg) ∈ S.server.m_qMessagesIn → S.Validated r
  approved : ∀ r, r < S.server.approved → .approved r (S.connections r).m_handshakeOut ∈ S.calls
  known : ∀ r challenge, .approved r challenge ∈ S.calls → r < S.server.approved
  history : Preceded Call.Justified S.calls

namespace Phased

variable {platform : Platform} {depth : ℕ} {S S' : Process}

theorem start : Phased {} where
  owner _ := rfl
  check _ := rfl
  waiting _ h := by cases h
  listening _ h := absurd rfl h
  queued _ _ h := by cases h
  approved _ h := by cases h
  known _ _ h := by cases h
  history := .nil

theorem lt_of_validated (h : Phased S) {r : ConnRef} (hr : S.Validated r) :
    r < S.server.approved := by
  obtain ⟨answer, hanswer⟩ := hr
  obtain ⟨past, future, hcalls⟩ := List.append_of_mem hanswer
  obtain ⟨-, challenge, hpast, -⟩ := h.history past _ future hcalls
  apply h.known r challenge
  rw [hcalls]
  exact List.mem_append_left _ hpast

/-- A step of one connection, which listens only if it has been validated. -/
theorem setConnection (h : Phased S) {r : ConnRef} {c : Endpoint MessageTypes}
    (howner : c.m_ownerType = .server)
    (hout : c.m_handshakeOut = (S.connections r).m_handshakeOut)
    (hcheck : c.m_handshakeCheck = (S.connections r).m_handshakeCheck)
    (hwaiting : c.readingValidation = true →
      (S.connections r).readingValidation = true ∧ c.reading = none)
    (hlistening : c.reading ≠ none → S.Validated r) : Phased (S.setConnection r c) := by
  have hconnections : ∀ other, other ≠ r →
      (S.setConnection r c).connections other = S.connections other := fun other hne ↦
    Function.update_of_ne hne _ _
  have hown : (S.setConnection r c).connections r = c := Function.update_self ..
  refine ⟨fun other ↦ ?_, fun other ↦ ?_, fun other ↦ ?_, fun other ↦ ?_, h.queued, fun other ↦ ?_,
    h.known, h.history⟩
  · by_cases hne : other = r
    · rw [hne, hown, howner]
    · rw [hconnections other hne, h.owner]
  · by_cases hne : other = r
    · rw [hne, hown, hcheck, hout, h.check]
    · rw [hconnections other hne, h.check]
  · by_cases hne : other = r
    · rw [hne, hown]
      intro hreading
      obtain ⟨hold, hnone⟩ := hwaiting hreading
      obtain ⟨hlt, -, hnot⟩ := h.waiting r hold
      exact ⟨hlt, hnone, hnot⟩
    · rw [hconnections other hne]
      exact h.waiting other
  · by_cases hne : other = r
    · rw [hne, hown]
      exact hlistening
    · rw [hconnections other hne]
      exact h.listening other
  · by_cases hne : other = r
    · rw [hne, hown, hout]
      exact h.approved r
    · rw [hconnections other hne]
      exact h.approved other

theorem setSteady (h : Phased S) {r : ConnRef} {c : Endpoint MessageTypes}
    (hsteady : (S.connections r).Steady c) : Phased (S.setConnection r c) := by
  apply h.setConnection (hsteady.owner.trans (h.owner r)) hsteady.out hsteady.check
  · intro hreading
    have hold := hsteady.waiting hreading
    refine ⟨hold, ?_⟩
    by_contra hsome
    exact hsteady.listening hsome (h.waiting r hold).2.1
  · exact fun hlistening ↦ h.listening r (hsteady.listening hlistening)

theorem setQueue (h : Phased S) {queue : List (ConnRef × Msg)}
    (hqueue : ∀ r msg, (r, msg) ∈ queue → S.Validated r) :
    Phased { S with server.m_qMessagesIn := queue } :=
  ⟨h.owner, h.check, h.waiting, h.listening, hqueue, h.approved, h.known, h.history⟩

theorem call (h : Phased S) {c : Call} (hjustified : c.Justified S.calls)
    (happroved : ∀ r challenge, c ≠ .approved r challenge)
    (hvalidated : ∀ r answer, c = .onClientValidated r answer →
      (S.connections r).readingValidation = false) : Phased (S.call c) := by
  have hmono : ∀ r, S.Validated r → (S.call c).Validated r := by
    rintro r ⟨answer, hanswer⟩
    exact ⟨answer, List.mem_append_left _ hanswer⟩
  refine ⟨h.owner, h.check, fun r hr ↦ ?_, fun r hr ↦ hmono r (h.listening r hr),
    fun r msg hmsg ↦ hmono r (h.queued r msg hmsg),
    fun r hr ↦ List.mem_append_left _ (h.approved r hr), fun r challenge hmem ↦ ?_,
    h.history.concat hjustified⟩
  · obtain ⟨hlt, hreading, hnot⟩ := h.waiting r hr
    refine ⟨hlt, hreading, ?_⟩
    rintro ⟨answer, hanswer⟩
    rcases List.mem_append.mp hanswer with hanswer | hanswer
    · exact hnot ⟨answer, hanswer⟩
    · rw [List.mem_singleton] at hanswer
      have hfalse := hvalidated r answer hanswer.symm
      rw [show (S.connections r).readingValidation = true from hr] at hfalse
      cases hfalse
  · rcases List.mem_append.mp hmem with hmem | hmem
    · exact h.known r challenge hmem
    · rw [List.mem_singleton] at hmem
      exact absurd hmem.symm (happroved r challenge)

/-- A handler of the server, which calls nothing and receives nothing. -/
theorem serve (h : Phased S) {handler : ServerM Unit}
    (huntouched : S.server.Untouched (Server.after (handler.run S.server))) :
    Phased (S.serve handler) := by
  rw [← server_serve] at huntouched
  have hcalls : ∀ r, (S.serve handler).Validated r ↔ S.Validated r := by
    intro r
    unfold Validated
    rw [serve_calls]
  refine ⟨?_, ?_, ?_, ?_, ?_, ?_, ?_, ?_⟩
  · rw [serve_connections]
    exact h.owner
  · rw [serve_connections]
    exact h.check
  · rw [serve_connections, huntouched.approved]
    intro r hr
    rw [hcalls]
    exact h.waiting r hr
  · rw [serve_connections]
    intro r hr
    rw [hcalls]
    exact h.listening r hr
  · rw [huntouched.queue]
    intro r msg hmsg
    rw [hcalls]
    exact h.queued r msg hmsg
  · rw [serve_connections, serve_calls, huntouched.approved]
    exact h.approved
  · rw [serve_calls, huntouched.approved]
    exact h.known
  · rw [serve_calls]
    exact h.history

theorem approve (h : Phased S) (now : UInt64) (hallowed : S.server.onClientConnect = true) :
    Phased (S.approve now) := by
  have happroved : (S.approve now).server.approved = S.server.approved + 1 := by
    simp [Process.approve, Server.onAccept, hallowed]
  have hqueue : (S.approve now).server.m_qMessagesIn = S.server.m_qMessagesIn := by
    simp [Process.approve, Server.onAccept, hallowed]
  have hcalls : ∀ r answer, .onClientValidated r answer ∈ (S.approve now).calls ↔
      .onClientValidated r answer ∈ S.calls := by
    simp [Process.approve]
  have hnot : ¬ S.Validated S.server.approved := fun hr ↦
    absurd (h.lt_of_validated hr) (Nat.lt_irrefl _)
  have hold : ∀ r, r ≠ S.server.approved →
      (S.approve now).connections r = S.connections r := fun r hne ↦ Function.update_of_ne hne _ _
  have hfresh : (S.approve now).connections S.server.approved =
      (Endpoint.create .server now).connectToClient := Function.update_self ..
  refine ⟨fun r ↦ ?_, fun r ↦ ?_, fun r ↦ ?_, fun r ↦ ?_, fun r msg hmsg ↦ ?_, fun r hr ↦ ?_,
    fun r challenge hmem ↦ ?_, h.history.concat fun challenge hmem ↦ ?_⟩
  · by_cases hne : r = S.server.approved
    · rw [hne, hfresh]
      rfl
    · rw [hold r hne]
      exact h.owner r
  · by_cases hne : r = S.server.approved
    · rw [hne, hfresh]
      rfl
    · rw [hold r hne]
      exact h.check r
  · simp only [Validated, hcalls, happroved]
    by_cases hne : r = S.server.approved
    · rw [hne, hfresh]
      exact fun _ ↦ ⟨Nat.lt_succ_self _, rfl, hnot⟩
    · rw [hold r hne]
      intro hreading
      obtain ⟨hlt, hnone, hnotValidated⟩ := h.waiting r hreading
      exact ⟨Nat.lt_succ_of_lt hlt, hnone, hnotValidated⟩
  · simp only [Validated, hcalls]
    by_cases hne : r = S.server.approved
    · rw [hne, hfresh]
      exact fun hlistening ↦ absurd rfl hlistening
    · rw [hold r hne]
      exact h.listening r
  · simp only [Validated, hcalls]
    rw [hqueue] at hmsg
    exact h.queued r msg hmsg
  · by_cases hne : r = S.server.approved
    · rw [hne, hfresh]
      exact List.mem_append_right _ (List.mem_singleton_self _)
    · rw [hold r hne]
      rw [happroved] at hr
      exact List.mem_append_left _ (h.approved r (Nat.lt_of_le_of_ne (Nat.le_of_lt_succ hr) hne))
  · rw [happroved]
    rcases List.mem_append.mp hmem with hmem | hmem
    · exact Nat.lt_succ_of_lt (h.known r challenge hmem)
    · rw [List.mem_singleton] at hmem
      cases hmem
      exact Nat.lt_succ_self _
  · exact absurd (h.known _ challenge hmem) (Nat.lt_irrefl _)

theorem step (h : Phased S) {e : Event} (hstep : S.step platform depth e = some S') :
    Phased S' := by
  obtain ⟨hup, hmoves⟩ := moves_of_step hstep
  cases hmoves with
  | approved hallowed => exact h.approve _ hallowed
  | denied => exact h
  | validationWritten hwriting =>
      exact h.setSteady (Endpoint.steady_onValidationWritten (h.owner _) _)
  | rejected hreading hread =>
      exact h.setSteady (Endpoint.onValidationRead_spec (h.owner _) hread).1
  | @validated r env ec bytes c hreading hread =>
      obtain ⟨hsteady, hdone, hanswer⟩ := Endpoint.onValidationRead_spec (h.owner r) hread
      obtain ⟨hlt, -, hnot⟩ := h.waiting r hreading
      have hown : (S.setConnection r c).connections r = c := Function.update_self ..
      have hcalled := (h.setSteady hsteady).call (c := .onClientValidated r c.m_handshakeIn)
        ⟨fun answer hmem ↦ hnot ⟨answer, hmem⟩, _, h.approved r hlt, by
          rw [hanswer rfl, h.check]⟩
        (fun _ _ heq ↦ by cases heq)
        fun r' answer heq ↦ by
          cases heq
          rw [hown, hdone]
      have hserved := hcalled.serve
        (Server.untouched_onClientValidated platform env depth r _)
      have hconnection : (((S.setConnection r c).call
          (.onClientValidated r c.m_handshakeIn)).serve
            (Server.onClientValidated platform env depth r)).connections r = c := by
        rw [serve_connections]
        exact hown
      unfold validate
      simp only
      split
      · apply hserved.setConnection
        · exact hsteady.owner.trans (h.owner r)
        · rw [hconnection]
          rfl
        · rw [hconnection]
          rfl
        · intro hreading
          rw [show c.readHeader.readingValidation = c.readingValidation from rfl, hdone] at hreading
          cases hreading
        · refine fun _ ↦ ⟨c.m_handshakeIn, ?_⟩
          rw [serve_calls]
          exact List.mem_append_right _ (List.mem_singleton_self _)
      · exact hserved
  | @read r op ec bytes hreading =>
      have hsteady := Endpoint.steady_onRead hreading ec bytes
      refine (h.setSteady hsteady).setQueue ?_
      intro other msg hmem
      rcases List.mem_append.mp hmem with hmem | hmem
      · exact h.queued other msg hmem
      · obtain ⟨m, -, heq⟩ := List.mem_map.mp hmem
        cases heq
        exact h.listening r (by rw [hreading]; exact fun hnone ↦ by cases hnone)
  | send hposted hsend =>
      have hsent := h.setSteady (Endpoint.steady_send hsend)
      exact ⟨hsent.owner, hsent.check, hsent.waiting, hsent.listening, hsent.queued, hsent.approved,
        hsent.known, hsent.history⟩
  | written hwritten => exact h.setSteady (Endpoint.steady_onWritten hwritten)
  | @update env r msg rest hqueue =>
      have hvalidated := h.queued r msg (by rw [hqueue]; exact List.mem_cons_self ..)
      have hpopped := @setQueue S h rest fun other m hm ↦
        h.queued other m (by rw [hqueue]; exact List.mem_cons_of_mem _ hm)
      have hcalled := hpopped.call (c := .onMessage r msg) hvalidated
        (fun _ _ heq ↦ by cases heq) fun _ _ heq ↦ by cases heq
      exact hcalled.serve (Server.untouched_onMessage platform env depth r msg _)

end Phased

/-! ## What the server sees of the sockets -/

/-- The server's list tells of every approved connection whether its socket is open. -/
def Synced (S : Process) : Prop :=
  ∀ r, r < S.server.approved → S.server.isConnected r = (S.connections r).isOpen

namespace Synced

variable {platform : Platform} {depth : ℕ} {S S' : Process}

theorem start : Synced {} := fun _ h ↦ absurd h (Nat.not_lt_zero _)

theorem setConnection (h : Synced S) (r : ConnRef) (c : Endpoint MessageTypes) :
    Synced (S.setConnection r c) := by
  intro other hother
  simp only [Process.setConnection, Function.update_apply]
  split
  · rfl
  · exact h other hother

/-- A connection whose socket stays as it is changes nothing that the server sees. -/
theorem server_setConnection (h : Synced S) {r : ConnRef} {c : Endpoint MessageTypes}
    (hr : r < S.server.approved) (hopen : c.isOpen = (S.connections r).isOpen) :
    (S.setConnection r c).server = S.server := by
  unfold Process.setConnection
  rw [hopen, ← h r hr, Function.update_eq_self]

theorem serve (h : Synced S) {handler : ServerM Unit}
    (huntouched : S.server.Untouched (Server.after (handler.run S.server))) :
    Synced (S.serve handler) := by
  rw [← server_serve] at huntouched
  intro other hother
  rw [huntouched.approved] at hother
  rw [huntouched.isConnected, serve_connections]
  exact h other hother

theorem approve (h : Synced S) (now : UInt64) (hallowed : S.server.onClientConnect = true) :
    Synced (S.approve now) := by
  intro other hother
  simp only [Process.approve, Server.onAccept, if_pos hallowed, Function.update_apply] at hother ⊢
  split
  · rfl
  · next hne => exact h other (Nat.lt_of_le_of_ne (Nat.le_of_lt_succ hother) hne)

theorem step (h : Synced S) {e : Event} (hstep : S.step platform depth e = some S') : Synced S' := by
  obtain ⟨hup, hmoves⟩ := moves_of_step hstep
  cases hmoves with
  | approved hallowed => exact h.approve _ hallowed
  | denied => exact h
  | @validated r env ec bytes c =>
      have hcalled : Synced ((S.setConnection r c).call (.onClientValidated r c.m_handshakeIn)) :=
        h.setConnection r c
      have hserved := hcalled.serve (Server.untouched_onClientValidated platform env depth r _)
      unfold validate
      simp only
      split
      · exact hserved.setConnection r _
      · exact hserved
  | validationWritten => exact h.setConnection _ _
  | rejected => exact h.setConnection _ _
  | read => exact h.setConnection _ _
  | send => exact h.setConnection _ _
  | written => exact h.setConnection _ _
  | @update env r msg rest =>
      have hcalled : Synced ({ S with server.m_qMessagesIn := rest }.call (.onMessage r msg)) := h
      exact hcalled.serve (Server.untouched_onMessage platform env depth r msg _)

end Synced

/-- No message is accepted from an unvalidated peer. -/
theorem calls_justified_of_reaches {platform : Platform} {depth : ℕ} {S : Process}
    (h : Reaches (step platform depth) (fun _ _ ↦ True) {} S) :
    Preceded Call.Justified S.calls :=
  (h.invariant (I := Phased) .start fun _ _ _ hphased _ hstep ↦ hphased.step hstep).history

/-- One client connects, answers the challenge, and sends a message that is handled. -/
def oneClient : List Event :=
  [.accept 5, .validationWritten 0 false,
    .validationRead 0 .plain false (StandardLayout.toBytes (Endpoint.scramble 5)),
    .read 0 false (StandardLayout.toBytes (Message.new MessageTypes.startGame).header),
    .update .plain]

theorem calls_justified_oneClient :
    ∃ S, Reaches (step .x64 2) (fun _ _ ↦ True) {} S ∧
      S.calls = [.approved 0 5, .onClientValidated 0 (Endpoint.scramble 5),
        .onMessage 0 (.new .startGame)] ∧ Preceded Call.Justified S.calls := by
  obtain ⟨S, hreaches, hcalls⟩ := @exists_reaches_of_run _ _ (step .x64 2) {} oneClient
    (fun S ↦ S.calls = [.approved 0 5, .onClientValidated 0 (Endpoint.scramble 5),
      .onMessage 0 (.new .startGame)]) (by decide +kernel)
  exact ⟨S, hreaches, of_decide_eq_true hcalls, calls_justified_of_reaches hreaches⟩

end Process

end SnekCpp
