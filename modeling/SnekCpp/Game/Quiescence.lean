import SnekCpp.Game.Independence
import SnekCpp.SnekServer.Runs

/-!
# Traffic dies out

As long as no client takes a step of its own, all that happens is that messages
are read and handled.  A message of a client may be relayed to all the others,
but what the server sends is answered by nobody: every such run ends, and ends
with nothing left that could be read or handled.
-/

namespace SnekCpp

open Lib Networking

variable {platform : Platform} {depth : ℕ}

/-! ## Connections that have not been approved -/

namespace Server

/-- Nothing has happened to a connection that has not been approved. -/
structure Within (s : Server) : Prop where
  sent : ∀ r, s.approved ≤ r → sentTo s.log r = []
  connected : ∀ r, s.isConnected r = true → r < s.approved

namespace Within

variable {s t : Server} {refs refs' : List ConnRef}

theorem init : Server.init.Within where
  sent _ _ := rfl
  connected r h := by cases h

theorem append (h : s.Within) {effects : List Effect} (hlog : t.log = s.log ++ effects)
    (happroved : t.approved = s.approved) (hconnected : t.isConnected = s.isConnected)
    (heffects : ∀ r msg, .sent r msg ∈ effects → r < s.approved) : t.Within where
  sent r hr := by
    rw [happroved] at hr
    have hnone : sentTo effects r = [] := by
      rw [List.eq_nil_iff_forall_not_mem]
      intro msg hmsg
      exact absurd (heffects r msg (mem_sentTo.mp hmsg)) (Nat.not_lt.mpr hr)
    rw [hlog, sentTo_append, h.sent r hr, hnone, List.append_nil]
  connected r hr := by
    rw [hconnected] at hr
    rw [happroved]
    exact h.connected r hr

theorem heard (h : s.Within) (henrolled : s.Enrolled refs) {effects : List Effect}
    (hlog : t.log = s.log ++ effects) (happroved : t.approved = s.approved)
    (hconnected : t.isConnected = s.isConnected) (heard : ∀ e ∈ effects, s.Heard refs e) :
    t.Within :=
  h.append hlog happroved hconnected fun r _ hmem ↦ henrolled.approved r (heard _ hmem).1

theorem onAccept (h : s.Within) : s.onAccept.Within := by
  unfold Server.onAccept
  split
  · refine ⟨fun r hr ↦ h.sent r (Nat.le_of_succ_le hr), fun r hr ↦ ?_⟩
    by_cases heq : r = s.approved
    · exact heq ▸ Nat.lt_succ_self _
    · exact Nat.lt_succ_of_lt (h.connected r (by simpa [heq] using hr))
  · exact h

theorem close (h : s.Within) (r : ConnRef) :
    Within { s with isConnected := Function.update s.isConnected r false } where
  sent := h.sent
  connected r' hr' := by
    by_cases heq : r' = r
    · simp [heq] at hr'
    · exact h.connected r' (by simpa [heq] using hr')

/-- Whatever a handler does, it stays with the connections of the list. -/
theorem robust (n : ℕ) :
    Robust (fun s refs ↦ s.Enrolled refs ∧ s.Within ∧ s.approved = n)
      (fun _ s ↦ s.Within ∧ s.approved = n) where
  listed h := h.1.toListed
  fields h _ _ _ := ⟨h.1.fields rfl rfl, ⟨h.2.1.sent, h.2.1.connected⟩, h.2.2⟩
  logged h _ hheard := ⟨h.1.fields rfl rfl, h.2.1.heard h.1 rfl rfl rfl hheard, h.2.2⟩
  told h htold := by
    obtain ⟨effects, hlog, hheard⟩ := htold.heard
    have hextends := htold.extends_
    exact ⟨htold.enrolled h.1,
      h.2.1.heard h.1 hlog hextends.approved hextends.isConnected hheard,
      hextends.approved.trans h.2.2⟩
  insert h _ _ := ⟨h.1.fields rfl rfl, ⟨h.2.1.sent, h.2.1.connected⟩, h.2.2⟩
  fault h _ _ := h.2

end Within

end Server

/-- A client process that has not got a connection. -/
structure Peer.Unborn (peer : Peer) : Prop where
  phase : peer.phase = .connecting
  queue : peer.m_qMessagesIn = []
  sent : peer.sent = []
  clientID : peer.client.clientID < 0

namespace System

variable {S S' : System} {e : Event} {r : ConnRef} {peer next : Peer}

structure Within (S : System) : Prop where
  server : S.server.Within
  enrolled : S.fault = none → ∃ refs, S.server.Enrolled refs
  peers : ∀ r, S.server.approved ≤ r → (S.peers r).Unborn

theorem read_nil (reader : Reader MessageTypes) : reader.read [] = none := by
  cases hread : reader.read [] with
  | none => rfl
  | some result =>
      obtain ⟨msg, next⟩ := result
      obtain ⟨-, hlt, hle, -⟩ := Reader.read_spec hread
      simp only [List.length_nil] at hle
      omega

theorem unborn_of_stepPeer (h : peer.Unborn) (hstep : stepPeer platform peer [] e = some next) :
    next.Unborn := by
  have hphase := h.phase
  cases e with
  | hangUp =>
      cases hstep
      exact ⟨hphase, h.queue, h.sent, h.clientID⟩
  | receive => simp [stepPeer, read_nil] at hstep
  | handle => simp [stepPeer, h.queue] at hstep
  | enterGame =>
      obtain ⟨⟨-, -, hid⟩, -⟩ := Option.ite_none_right_eq_some.mp hstep
      exact absurd h.clientID (Int32.not_lt.mpr hid)
  | frame => simp [stepPeer, hphase] at hstep
  | updateServer => simp [stepPeer, hphase] at hstep
  | key => simp [stepPeer, hphase] at hstep
  | _ => cases hstep

namespace Within

theorem start : System.Within {} where
  server := .init
  enrolled _ := ⟨[], Server.enrolled_init⟩
  peers _ _ := ⟨rfl, rfl, rfl, show (-1 : Int32) < 0 by decide⟩

theorem serve (h : S.Within) {handler : ServerM Unit}
    (hends : Server.Ends
      (fun s ↦ ∃ refs, s.Enrolled refs ∧ s.Within ∧ s.approved = S.server.approved)
      (fun _ s ↦ s.Within ∧ s.approved = S.server.approved) (handler.run S.server)) :
    (S.serve handler).Within := by
  unfold System.serve
  cases hrun : handler.run S.server with
  | ok u server =>
      rw [hrun] at hends
      obtain ⟨refs, henrolled, hwithin, happroved⟩ := hends
      exact ⟨hwithin, fun _ ↦ ⟨refs, henrolled⟩, fun r hr ↦ h.peers r (happroved ▸ hr)⟩
  | error fault server =>
      rw [hrun] at hends
      obtain ⟨hwithin, happroved⟩ := hends
      refine ⟨hwithin, fun hup ↦ ?_, fun r hr ↦ h.peers r (happroved ▸ hr)⟩
      cases hup

theorem validate (h : S.Within) (hup : S.fault = none) (hopen : S.server.isConnected r = true)
    (env : Env) : (S.serve (Server.onClientValidated platform env depth r)).Within := by
  obtain ⟨refs, henrolled⟩ := h.enrolled hup
  have hr := h.server.connected r hopen
  apply h.serve
  apply Server.ends_onClientValidated
  · exact fun _ ↦ ⟨h.server.append rfl rfl rfl fun r' _ hmem ↦ by simp at hmem, rfl⟩
  · intro spawnpoint _
    apply (Server.Within.robust S.server.approved).announce
    refine ⟨henrolled.fields rfl rfl, ?_, rfl⟩
    refine @Server.Within.append _ _ h.server [.validated r, .sent r _] rfl rfl rfl
      fun r' _ hmem ↦ ?_
    have heq : r' = r := by
      rcases List.mem_cons.mp hmem with hmem | hmem
      · cases hmem
      · cases List.mem_singleton.mp hmem
        rfl
    exact heq ▸ hr

theorem update (h : S.Within) (hup : S.fault = none) {msg : Msg} {rest : List (ConnRef × Msg)}
    (env : Env) :
    ({ S with server.m_qMessagesIn := rest }.serve
      (Server.onMessage platform env depth r msg)).Within := by
  obtain ⟨refs, henrolled⟩ := h.enrolled hup
  have hpopped : System.Within { S with server.m_qMessagesIn := rest } :=
    ⟨⟨h.server.sent, h.server.connected⟩, fun _ ↦ ⟨refs, henrolled.fields rfl rfl⟩, h.peers⟩
  apply hpopped.serve
  have hfields : Server.Enrolled { S.server with m_qMessagesIn := rest } refs :=
    henrolled.fields rfl rfl
  apply (Server.Within.robust S.server.approved).onMessage ⟨hfields, hpopped.server, rfl⟩
  intro _ t refs' player clientID direction tail _ _ _ _ hI _ _ _ _
  exact ⟨⟨hI.2.1.sent, hI.2.1.connected⟩, hI.2.2⟩

theorem step (h : S.Within) (hstep : S.step platform depth e = some S') : S'.Within := by
  cases hpeer : e.peer with
  | some r =>
      rw [step_of_peer hpeer] at hstep
      obtain ⟨peer, hpeerStep, rfl⟩ := Option.map_eq_some_iff.mp hstep
      refine ⟨h.server, h.enrolled, fun r' hr' ↦ ?_⟩
      by_cases heq : r' = r
      · subst heq
        have hnone : S.downstream r' = [] := by
          rw [downstream, h.server.sent r' hr']
          rfl
        rw [hnone] at hpeerStep
        simpa [setPeer] using unborn_of_stepPeer (h.peers r' hr') hpeerStep
      · simpa [setPeer, heq] using h.peers r' hr'
  | none =>
      cases moves_of_step hstep with
      | accept hup =>
          refine ⟨h.server.onAccept, fun _ ↦ ?_, fun r hr ↦ ?_⟩
          · obtain ⟨refs, henrolled⟩ := h.enrolled hup
            cases hconnect : S.server.onClientConnect with
            | true => exact ⟨_, henrolled.onAccept hconnect⟩
            | false =>
                refine ⟨refs, ?_⟩
                rwa [Server.onAccept, hconnect, if_neg (by simp)]
          · apply h.peers r
            refine le_trans ?_ hr
            change _ ≤ S.server.onAccept.approved
            unfold Server.onAccept
            split
            · exact Nat.le_succ _
            · exact Nat.le_refl _
      | validate hup hopen => exact h.validate hup hopen _
      | close => exact ⟨h.server.close _, fun hup ↦ by
          obtain ⟨refs, henrolled⟩ := h.enrolled hup
          exact ⟨refs, henrolled.fields rfl rfl⟩, h.peers⟩
      | read => exact ⟨⟨h.server.sent, h.server.connected⟩, fun hup ↦ by
          obtain ⟨refs, henrolled⟩ := h.enrolled hup
          exact ⟨refs, henrolled.fields rfl rfl⟩, h.peers⟩
      | update hup => exact h.update hup _
      | _ => cases hpeer

theorem of_reaches (h : Reaches (System.step platform depth) (fun _ _ ↦ True) {} S) : S.Within :=
  h.invariant .start fun _ _ _ hwithin _ hstep ↦ hwithin.step hstep

end Within

end System

/-! ## What is under way -/

/-- A message is read or handled: no client does anything on its own, nobody
joins, and no connection closes. -/
def Event.Delivers : Event → Prop
  | .read _ | .update _ | .receive _ | .handle _ => True
  | _ => False

instance (e : Event) : Decidable e.Delivers := by
  rcases e <;> unfold Event.Delivers <;> infer_instance

namespace System

variable {S S' : System} {e : Event} {r : ConnRef} {peer : Peer}

/-- What the server has to read and to handle.  A byte counts twice: the message
that it belongs to has yet to be queued as well. -/
def upwardLoad (S : System) : ℕ :=
  2 * ∑ r ∈ Finset.range S.server.approved, ((S.upstream r).length - (S.readers r).consumed) +
    S.server.m_qMessagesIn.length

/-- What the clients have to read and to handle. -/
def downwardLoad (S : System) : ℕ :=
  ∑ r ∈ Finset.range S.server.approved,
    (2 * ((S.downstream r).length - (S.peers r).reader.consumed) +
      (S.peers r).m_qMessagesIn.length)

theorem upstream_setPeer (hsent : peer.sent = (S.peers r).sent) (r' : ConnRef) :
    (S.setPeer r peer).upstream r' = S.upstream r' := by
  by_cases heq : r' = r
  · subst heq
    simp [upstream, setPeer, hsent]
  · simp [upstream, setPeer, heq]

theorem upwardLoad_setPeer (hsent : peer.sent = (S.peers r).sent) :
    (S.setPeer r peer).upwardLoad = S.upwardLoad := by
  have hupstream := fun r' ↦ upstream_setPeer hsent r'
  unfold upwardLoad
  simp only [hupstream]
  rfl

/-- One client has less to read and to handle. -/
theorem downwardLoad_setPeer (hr : r < S.server.approved)
    (hless : 2 * ((S.downstream r).length - peer.reader.consumed) + peer.m_qMessagesIn.length <
      2 * ((S.downstream r).length - (S.peers r).reader.consumed) +
        (S.peers r).m_qMessagesIn.length) :
    (S.setPeer r peer).downwardLoad < S.downwardLoad := by
  apply Finset.sum_lt_sum
  · intro r' _
    by_cases heq : r' = r
    · subst heq
      simpa [setPeer, downstream] using hless.le
    · simp [setPeer, heq, downstream]
  · refine ⟨r, Finset.mem_range.mpr hr, ?_⟩
    simpa [setPeer, downstream] using hless

theorem upwardLoad_read (hr : r < S.server.approved) {msg : Msg} {reader : Reader MessageTypes}
    (hread : (S.readers r).read (S.upstream r) = some (msg, reader)) :
    upwardLoad { S with
      server.m_qMessagesIn := S.server.m_qMessagesIn ++ [(r, msg)]
      readers := Function.update S.readers r reader } < S.upwardLoad := by
  obtain ⟨-, hless, hle, -⟩ := Reader.read_spec hread
  have hsum : ∑ r' ∈ Finset.range S.server.approved,
        ((S.upstream r').length - (Function.update S.readers r reader r').consumed) <
      ∑ r' ∈ Finset.range S.server.approved,
        ((S.upstream r').length - (S.readers r').consumed) := by
    apply Finset.sum_lt_sum
    · intro r' _
      by_cases heq : r' = r
      · subst heq
        rw [Function.update_self]
        omega
      · rw [Function.update_of_ne heq]
    · refine ⟨r, Finset.mem_range.mpr hr, ?_⟩
      rw [Function.update_self]
      omega
  have hqueue : (S.server.m_qMessagesIn ++ [(r, msg)]).length =
      S.server.m_qMessagesIn.length + 1 := by simp
  change 2 * ∑ r' ∈ Finset.range S.server.approved,
    ((S.upstream r').length - (Function.update S.readers r reader r').consumed) +
      (S.server.m_qMessagesIn ++ [(r, msg)]).length < S.upwardLoad
  unfold upwardLoad
  omega

theorem upwardLoad_update {msg : Msg} {rest : List (ConnRef × Msg)} (env : Env)
    (hqueue : S.server.m_qMessagesIn = (r, msg) :: rest) :
    ({ S with server.m_qMessagesIn := rest }.serve
      (Server.onMessage platform env depth r msg)).upwardLoad < S.upwardLoad := by
  have huntouched := Server.untouched_onMessage platform env depth r msg
    { S.server with m_qMessagesIn := rest }
  generalize hS' : { S with server.m_qMessagesIn := rest }.serve
    (Server.onMessage platform env depth r msg) = S'
  have hafter : S'.server = Server.after ((Server.onMessage platform env depth r msg).run
      { S.server with m_qMessagesIn := rest }) ∧ S'.readers = S.readers ∧ S'.peers = S.peers := by
    rw [← hS']
    unfold serve
    split <;> next hrun => exact ⟨by rw [hrun]; rfl, rfl, rfl⟩
  obtain ⟨hserver, hreaders, hpeers⟩ := hafter
  have happroved : S'.server.approved = S.server.approved := by
    rw [hserver]
    exact huntouched.approved
  have hrest : S'.server.m_qMessagesIn = rest := by
    rw [hserver]
    exact huntouched.queue
  unfold upwardLoad upstream
  rw [happroved, hrest, hreaders, hpeers, hqueue, List.length_cons]
  omega

/-- With every message that is read or handled, the server has less to do, or as
much as before and the clients have less to do. -/
theorem load_decreases (h : S.Within) (hdelivers : e.Delivers)
    (hstep : S.step platform depth e = some S') :
    Prod.Lex (· < ·) (· < ·) (S'.upwardLoad, S'.downwardLoad) (S.upwardLoad, S.downwardLoad) := by
  cases moves_of_step hstep with
  | @read r msg reader _ hopen _ hread =>
      exact .left _ _ (upwardLoad_read (h.server.connected r hopen) hread)
  | update _ hqueue => exact .left _ _ (upwardLoad_update _ hqueue)
  | @receive r msg reader _ hread =>
      have hr : r < S.server.approved := by
        by_contra hnew
        rw [downstream, h.server.sent r (Nat.not_lt.mp hnew)] at hread
        exact absurd (hread.symm.trans (read_nil _)) (by simp)
      obtain ⟨-, hless, hle, -⟩ := Reader.read_spec hread
      rw [upwardLoad_setPeer (by rfl)]
      refine .right _ (downwardLoad_setPeer hr ?_)
      dsimp only
      rw [List.length_append, List.length_singleton]
      omega
  | @handle r msg rest client hqueue =>
      have hr : r < S.server.approved := by
        by_contra hnew
        have hnone := (h.peers r (Nat.not_lt.mp hnew)).queue
        rw [hqueue] at hnone
        cases hnone
      rw [upwardLoad_setPeer (by rfl)]
      refine .right _ (downwardLoad_setPeer hr ?_)
      dsimp only
      rw [hqueue, List.length_cons]
      omega
  | _ => exact hdelivers.elim

/-! ## The end of the traffic -/

/-- Nothing is left that could be read or handled: what a client has queued waits
for its next frame, or cannot be decoded. -/
structure Idle (platform : Platform) (S : System) : Prop where
  queue : S.fault = none → S.server.m_qMessagesIn = []
  upstream : S.fault = none → ∀ r, S.server.isConnected r = true → S.server.Validated r →
    (S.readers r).read (S.upstream r) = none
  downstream : ∀ r, (S.peers r).isConnected = true →
    (S.peers r).reader.read (S.downstream r) = none
  handled : ∀ r, (S.peers r).phase ≠ .polling → ∀ msg ∈ (S.peers r).m_qMessagesIn.head?,
    ∃ fault, (S.peers r).client.handleMessage platform msg = .error fault

theorem idle_of_halted (h : ∀ e : Event, e.Delivers → S.step platform depth e = none) :
    S.Idle platform where
  queue hup := by
    by_contra hqueue
    have hnone := h (.update .plain) trivial
    simp [step, Event.peer, hup, stepServer, hqueue] at hnone
  upstream hup r hopen hvalidated := by
    have hnone := h (.read r) trivial
    cases hread : (S.readers r).read (S.upstream r) with
    | none => rfl
    | some result => simp [step, Event.peer, hup, stepServer, hopen, hvalidated, hread] at hnone
  downstream r hopen := by
    have hnone := h (.receive r) trivial
    rw [step_of_peer rfl, Option.map_eq_none_iff] at hnone
    cases hread : (S.peers r).reader.read (S.downstream r) with
    | none => rfl
    | some result => simp [stepPeer, hopen, hread] at hnone
  handled r hphase msg hmsg := by
    have hnone := h (.handle r) trivial
    rw [step_of_peer rfl, Option.map_eq_none_iff] at hnone
    obtain ⟨rest, hqueue⟩ := List.head?_eq_some_iff.mp hmsg
    cases hhandle : (S.peers r).client.handleMessage platform msg with
    | error fault => exact ⟨fault, rfl⟩
    | ok client => simp [stepPeer, hqueue, hphase, hhandle] at hnone

end System

end SnekCpp
