import SnekCpp.Game.Quiescence
import SnekCpp.Game.Wired
import SnekCpp.Networking.Flow

/-!
# Traffic dies out over the sockets

Once no client takes a step of its own, the lambdas, completions, pieces and
handlers that are left come to an end in any order, and nothing is left on the
way between the programs.
-/

namespace SnekCpp

open Lib Networking

/-- Two sums that differ in one place. -/
theorem sum_replace {s : Finset ℕ} {r : ℕ} (hr : r ∈ s) {f g : ℕ → ℕ}
    (hother : ∀ x ∈ s, x ≠ r → g x = f x) :
    ∑ x ∈ s, g x + f r = ∑ x ∈ s, f x + g r := by
  rw [← Finset.sum_erase_add s g hr, ← Finset.sum_erase_add s f hr]
  have hsame : ∑ x ∈ s.erase r, g x = ∑ x ∈ s.erase r, f x :=
    Finset.sum_congr rfl fun x hx ↦ hother x (Finset.mem_of_mem_erase hx) (Finset.ne_of_mem_erase hx)
  rw [hsame, Nat.add_right_comm]

theorem lex_of_le {a b a' b' : ℕ} (ha : a' ≤ a) (hb : b' ≤ b) (hless : a' + b' < a + b) :
    Prod.Lex (· < ·) (· < ·) (a', b') (a, b) := by
  rcases Nat.lt_or_eq_of_le ha with hlt | rfl
  · exact .left _ _ hlt
  · exact .right _ (by omega)

/-- A message is handled, or goes on over a socket: no program does anything of its own,
nobody joins, and nothing fails. -/
def WiredEvent.Delivers : WiredEvent → Prop
  | .game (.update _) | .game (.handle _) => True
  | .wire _ _ e => e.Traffic
  | _ => False

instance (e : WiredEvent) : Decidable e.Delivers := by
  rcases e with e | ⟨r, side, e⟩
  · rcases e <;> unfold WiredEvent.Delivers <;> infer_instance
  · exact inferInstanceAs (Decidable e.Traffic)

namespace Wired

variable {platform : Platform} {depth : ℕ} {W W' : Wired} {r : ConnRef} {side : Owner}
  {reader : ConnRef → Owner → Reader MessageTypes} {s : Station MessageTypes}

/-- What is under way to one end of a connection. -/
def towards (W : Wired) (r : ConnRef) (side : Owner) : ℕ :=
  (W.wires r side.other).outLoad +
    (W.wires r side).inLoad (stream (W.wires r side.other).sent).length

def upLoad (W : Wired) : ℕ :=
  ∑ r ∈ Finset.range W.server.approved, W.towards r .server + W.server.m_qMessagesIn.length

def downLoad (W : Wired) : ℕ :=
  ∑ r ∈ Finset.range W.server.approved,
    (W.towards r .client + (W.terminals r).m_qMessagesIn.length)

/-! ## One end goes on -/

theorem towards_setStation_ne {r' : ConnRef} (hne : r' ≠ r) (side' : Owner) :
    (W.setStation r side s).towards r' side' = W.towards r' side' := by
  simp only [towards, wires_setStation, Function.update_of_ne hne]

theorem towards_setStation_self :
    (W.setStation r side s).towards r side = (W.wires r side.other).outLoad +
      s.inLoad (stream (W.wires r side.other).sent).length := by
  simp only [towards, wires_setStation, Function.update_self,
    Function.update_of_ne (Duplex.other_ne side)]

theorem towards_setStation_other (hsent : s.sent = (W.wires r side).sent) :
    (W.setStation r side s).towards r side.other = s.outLoad +
      (W.wires r side.other).inLoad (stream (W.wires r side).sent).length := by
  simp only [towards, wires_setStation, Function.update_self, Duplex.other_other,
    Function.update_of_ne (Duplex.other_ne side), hsent]

theorem lex_setStation (hr : r < W.server.approved) (hsent : s.sent = (W.wires r side).sent)
    (hlighter : (W.wires r side).Lighter (stream (W.wires r side.other).sent).length s) :
    Prod.Lex (· < ·) (· < ·) ((W.setStation r side s).upLoad, (W.setStation r side s).downLoad)
      (W.upLoad, W.downLoad) := by
  have hmem := Finset.mem_range.mpr hr
  have hself := @towards_setStation_self W r side s
  have hother := @towards_setStation_other W r side s hsent
  have hup := @sum_replace _ _ hmem (fun r' ↦ W.towards r' .server)
    (fun r' ↦ (W.setStation r side s).towards r' .server)
    fun r' _ hne ↦ towards_setStation_ne hne .server
  have hpushed : ((W.wires r side).pushed s).length =
      s.connection.m_qMessagesIn.length - (W.wires r side).connection.m_qMessagesIn.length :=
    List.length_drop
  obtain ⟨hout, hin, hless, hqueue⟩ := hlighter
  cases side with
  | server =>
      have hdown := @sum_replace _ _ hmem
        (fun r' ↦ W.towards r' .client + (W.terminals r').m_qMessagesIn.length)
        (fun r' ↦ (W.setStation r .server s).towards r' .client +
          (W.terminals r').m_qMessagesIn.length)
        fun r' _ hne ↦ by rw [towards_setStation_ne hne]
      have hserver : (W.setStation r .server s).upLoad =
          ∑ r' ∈ Finset.range W.server.approved, (W.setStation r .server s).towards r' .server +
            (W.server.m_qMessagesIn.length + ((W.wires r .server).pushed s).length) := by
        simp only [upLoad]
        simp [setStation]
      have hclient : (W.setStation r .server s).downLoad =
          ∑ r' ∈ Finset.range W.server.approved,
            ((W.setStation r .server s).towards r' .client +
              (W.terminals r').m_qMessagesIn.length) := rfl
      simp only [Owner.other] at hself hother hout hin hless hpushed
      have hbefore : W.towards r .server = (W.wires r .client).outLoad +
          (W.wires r .server).inLoad (stream (W.wires r .client).sent).length := rfl
      have hbefore' : W.towards r .client = (W.wires r .server).outLoad +
          (W.wires r .client).inLoad (stream (W.wires r .server).sent).length := rfl
      rw [hserver, hclient]
      unfold upLoad downLoad
      apply lex_of_le <;> omega
  | client =>
      have hterminal : ((W.setStation r .client s).terminals r).m_qMessagesIn.length =
          (W.terminals r).m_qMessagesIn.length + ((W.wires r .client).pushed s).length := by
        simp [setStation]
      have hdown := @sum_replace _ _ hmem
        (fun r' ↦ W.towards r' .client + (W.terminals r').m_qMessagesIn.length)
        (fun r' ↦ (W.setStation r .client s).towards r' .client +
          ((W.setStation r .client s).terminals r').m_qMessagesIn.length)
        fun r' _ hne ↦ by
          rw [towards_setStation_ne hne]
          simp [setStation, hne]
      have hserver : (W.setStation r .client s).upLoad =
          ∑ r' ∈ Finset.range W.server.approved, (W.setStation r .client s).towards r' .server +
            W.server.m_qMessagesIn.length := rfl
      have hclient : (W.setStation r .client s).downLoad =
          ∑ r' ∈ Finset.range W.server.approved,
            ((W.setStation r .client s).towards r' .client +
              ((W.setStation r .client s).terminals r').m_qMessagesIn.length) := rfl
      simp only [Owner.other] at hself hother hout hin hless hpushed
      have hbefore : W.towards r .server = (W.wires r .client).outLoad +
          (W.wires r .server).inLoad (stream (W.wires r .client).sent).length := rfl
      have hbefore' : W.towards r .client = (W.wires r .server).outLoad +
          (W.wires r .client).inLoad (stream (W.wires r .server).sent).length := rfl
      rw [hserver, hclient]
      unfold upLoad downLoad
      apply lex_of_le <;> omega

/-! ## A message is handled -/

/-- Where nothing has been sent, nothing more is under way. -/
theorem towards_absorb {T : System} (hsent : T.sentBy r side.other = (W.wires r side.other).sent) :
    (W.absorb T).towards r side = W.towards r side := by
  have hnew : (T.sentBy r side.other).drop (W.wires r side.other).sent.length = [] := by
    rw [hsent, List.drop_length]
  simp only [towards, absorb, hnew]
  simp [Station.sendAll, Station.outLoad, Station.inLoad, Outgoing.current, Connection.writesLeft]

theorem lex_update {env : Env} {T : System}
    (hstep : (W.view reader).step platform depth (.update env) = some T) :
    (W.absorb T).server.approved = W.server.approved ∧
      Prod.Lex (· < ·) (· < ·) ((W.absorb T).upLoad, (W.absorb T).downLoad)
        (W.upLoad, W.downLoad) := by
  cases System.moves_of_step hstep with
  | @update _ r msg rest hup hqueue =>
      have huntouched := Server.untouched_onMessage platform env depth r msg
        { W.server with m_qMessagesIn := rest }
      generalize hT : { W.view reader with server.m_qMessagesIn := rest }.serve
        (Server.onMessage platform env depth r msg) = T at hstep
      have hserver : T.server = Server.after ((Server.onMessage platform env depth r msg).run
          { W.server with m_qMessagesIn := rest }) := by
        rw [← hT, System.server_serve]
        rfl
      have hpeers : T.peers = (W.view reader).peers := by
        rw [← hT, System.peers_serve]
      have htowards : ∀ r', (W.absorb T).towards r' .server = W.towards r' .server := fun r' ↦ by
        apply towards_absorb
        simp only [Owner.other, System.sentBy, hpeers]
        rfl
      have happroved : (W.absorb T).server.approved = W.server.approved := by
        change T.server.approved = _
        rw [hserver]
        exact huntouched.approved
      have hrest : (W.absorb T).server.m_qMessagesIn = rest := by
        change T.server.m_qMessagesIn = _
        rw [hserver]
        exact huntouched.queue
      have hbefore : W.server.m_qMessagesIn = (r, msg) :: rest := hqueue
      refine ⟨happroved, .left _ _ ?_⟩
      unfold upLoad
      simp only [htowards, happroved, hrest, hbefore, List.length_cons]
      omega

theorem lex_handle (h : W.Sound reader) (hwithin : (W.view reader).Within) {T : System}
    (hstep : (W.view reader).step platform depth (.handle r) = some T) :
    (W.absorb T).server.approved = W.server.approved ∧
      Prod.Lex (· < ·) (· < ·) ((W.absorb T).upLoad, (W.absorb T).downLoad)
        (W.upLoad, W.downLoad) := by
  cases System.moves_of_step hstep with
  | @handle _ msg rest client hqueue hphase hhandle =>
      have hr : r < W.server.approved := by
        by_contra hnew
        have hnone := (hwithin.peers r (Nat.not_lt.mp hnew)).queue
        rw [hqueue] at hnone
        cases hnone
      generalize hT : (W.view reader).setPeer r { (W.view reader).peers r with
        client
        m_qMessagesIn := rest
        handled := ((W.view reader).peers r).handled ++ [msg] } = T at hstep
      have hsent : ∀ r' side', T.sentBy r' side' = (W.wires r' side').sent := by
        intro r' side'
        rw [← h.sentBy_view reader r' side', ← hT]
        cases side' with
        | server => rfl
        | client =>
            by_cases heq : r' = r
            · subst heq
              simp [System.sentBy, System.setPeer]
            · simp [System.sentBy, System.setPeer, heq]
      have htowards : ∀ r' side', (W.absorb T).towards r' side' = W.towards r' side' :=
        fun r' side' ↦ towards_absorb (hsent r' side'.other)
      have hserver : (W.absorb T).server = W.server := by
        rw [← hT]
        rfl
      have hup : (W.absorb T).upLoad = W.upLoad := by
        simp only [upLoad, htowards, hserver]
      rw [hup, hserver]
      refine ⟨rfl, .right _ ?_⟩
      have hother : ∀ r', r' ≠ r → ((W.absorb T).terminals r').m_qMessagesIn =
          (W.terminals r').m_qMessagesIn := by
        intro r' hne
        rw [← hT]
        simp [Wired.absorb, System.setPeer, hne, view, peer]
      have hself : ((W.absorb T).terminals r).m_qMessagesIn = rest := by
        rw [← hT]
        simp [Wired.absorb, System.setPeer]
      have hbefore : (W.terminals r).m_qMessagesIn = msg :: rest := hqueue
      have hless : ((W.absorb T).terminals r).m_qMessagesIn.length <
          (W.terminals r).m_qMessagesIn.length := by
        rw [hself, hbefore]
        exact Nat.lt_succ_self _
      simp only [downLoad, htowards, hserver]
      apply Finset.sum_lt_sum
      · intro r' _
        by_cases heq : r' = r
        · subst heq
          exact Nat.add_le_add_left hless.le _
        · rw [hother r' heq]
      · exact ⟨r, Finset.mem_range.mpr hr, Nat.add_lt_add_left hless _⟩

/-! ## The end -/

/-- Nothing has failed and all sockets are open, in a state that can be reached. -/
structure Running (platform : Platform) (depth : ℕ) (W : Wired) : Prop where
  reaches : Reaches (step platform depth) (fun _ _ ↦ True) {} W
  isOpen : ∀ r, r < W.server.approved → ∀ side, (W.wires r side).connection.isOpen = true

/-- All that was sent has arrived, and nothing is left for the programs to read or handle. -/
structure Settled (platform : Platform) (depth : ℕ) (W : Wired) : Prop where
  arrived : ∀ r, r < W.server.approved → ∀ side,
    (W.wires r side).arrived = stream (W.wires r side.other).sent
  idle : ∃ reader, Reaches (System.step platform depth) (fun _ _ ↦ True) {} (W.view reader) ∧
    (W.view reader).Idle platform

theorem exists_sound (h : Reaches (step platform depth) (fun _ _ ↦ True) {} W) :
    ∃ reader, Reaches (System.step platform depth) (fun _ _ ↦ True) {} (W.view reader) ∧
      W.Sound reader :=
  exists_sound_of_reaches (h.mono fun _ _ _ _ _ _ _ ↦ trivial)

namespace Running

theorem step (h : W.Running platform depth) {e : WiredEvent} (hdelivers : e.Delivers)
    (hstep : W.step platform depth e = some W') :
    W'.Running platform depth ∧
      Prod.Lex (· < ·) (· < ·) (W'.upLoad, W'.downLoad) (W.upLoad, W.downLoad) := by
  obtain ⟨reader, hreaches, hsound⟩ := exists_sound h.reaches
  have hreached := h.reaches.tail ⟨e, trivial, hstep⟩
  cases e with
  | wire r side e =>
      obtain ⟨hlive, hstep⟩ := Option.ite_none_right_eq_some.mp hstep
      obtain ⟨s, hs, rfl⟩ := Option.map_eq_some_iff.mp hstep
      have hr := hlive.lt
      have hsent : s.sent = (W.wires r side).sent := by
        rw [(Station.advances_of_step hs).sent, hlive.passed_eq_nil, List.append_nil]
      have hlinked := hsound.linked r
      have hlighter := Station.lighter_of_traffic (hlinked.ends side)
        ((hlinked.ends side).up (h.isOpen r hr side)).1 (hlinked.length_coming side) hdelivers hs
      have hopen : s.connection.isOpen = true := by
        rw [Station.isOpen_of_traffic hdelivers hs]
        exact h.isOpen r hr side
      have happroved : (W.setStation r side s).server.approved = W.server.approved := by
        cases side with
        | server => rfl
        | client => rfl
      refine ⟨⟨hreached, fun r' hr' side' ↦ ?_⟩, lex_setStation hr hsent hlighter⟩
      rw [happroved] at hr'
      rw [wires_setStation]
      by_cases hne : r' = r
      · subst hne
        rw [Function.update_self]
        by_cases hside : side' = side
        · rwa [hside, Function.update_self]
        · rw [Function.update_of_ne hside]
          exact h.isOpen r' hr' side'
      · rw [Function.update_of_ne hne]
        exact h.isOpen r' hr' side'
  | game e =>
      obtain ⟨hlocal, hstep⟩ := Option.ite_none_right_eq_some.mp hstep
      obtain ⟨T, hT, rfl⟩ := Option.map_eq_some_iff.mp hstep
      have hview : (W.view reader).step platform depth e = some (T.withReaders reader) :=
        System.step_withReaders hlocal hT reader
      have hlex : (W.absorb (T.withReaders reader)).server.approved = W.server.approved ∧
          Prod.Lex (· < ·) (· < ·) ((W.absorb (T.withReaders reader)).upLoad,
            (W.absorb (T.withReaders reader)).downLoad) (W.upLoad, W.downLoad) := by
        cases e with
        | update env => exact lex_update hview
        | handle r => exact lex_handle hsound (.of_reaches hreaches) hview
        | _ => exact hdelivers.elim
      obtain ⟨happroved, hlex⟩ := hlex
      exact ⟨⟨hreached, fun r hr side ↦ h.isOpen r (happroved ▸ hr) side⟩, hlex⟩

theorem live_of_traffic (hr : r < W.server.approved) {e : StationEvent MessageTypes}
    (htraffic : e.Traffic) (hne : e ≠ .read) : W.Live r side e := by
  rcases e with e | _ | _ | _
  · cases e with
    | send => exact htraffic.elim
    | _ => exact hr
  · exact hr
  · exact absurd rfl hne
  · exact hr

/-- In a state in which nothing can be delivered any more, all has been delivered. -/
theorem settled (h : W.Running platform depth)
    (hhalted : ∀ e : WiredEvent, e.Delivers → W.step platform depth e = none) :
    W.Settled platform depth := by
  obtain ⟨reader, hreaches, hsound⟩ := exists_sound h.reaches
  have hwithin := System.Within.of_reaches hreaches
  have hwire : ∀ r side e, StationEvent.Traffic e → W.Live r side e →
      (W.wires r side).step ((W.wires r).coming side) e = none := by
    intro r side e htraffic hlive
    have hnone := hhalted (.wire r side e) htraffic
    rwa [Wired.step, if_pos hlive, Option.map_eq_none_iff] at hnone
  have harrived : ∀ r, r < W.server.approved → ∀ side,
      (W.wires r side).arrived = stream (W.wires r side.other).sent := by
    intro r hr
    have hlinked := hsound.linked r
    exact hlinked.arrived_of_halted (fun side ↦ ((hlinked.ends side).up (h.isOpen r hr side)).1)
      fun side e htraffic hne ↦ hwire r side e htraffic (live_of_traffic hr htraffic hne)
  have hread : ∀ r side, W.Live r side .read →
      (reader r side).read (stream (W.wires r side.other).sent) = none := by
    intro r side hlive
    rw [← harrived r hlive.lt side]
    exact (hsound.follows r side hlive.2.1).read_eq_none
      (Station.waits_of_step_eq_none (hwire r side .read trivial hlive))
  have hgame : ∀ e : Event, e.Local → WiredEvent.Delivers (.game e) →
      (W.view reader).step platform depth e = none := by
    intro e hlocal hdelivers
    by_contra hne
    obtain ⟨T, hT⟩ := Option.ne_none_iff_exists'.mp hne
    have hplain : (W.view fun _ _ ↦ default).step platform depth e =
        some (T.withReaders fun _ _ ↦ default) :=
      System.step_withReaders hlocal hT fun _ _ ↦ default
    have hnone := hhalted (.game e) hdelivers
    rw [Wired.step, if_pos hlocal, hplain] at hnone
    cases hnone
  refine ⟨harrived, reader, hreaches, @System.idle_of_halted platform depth _ fun e hdelivers ↦ ?_⟩
  cases e with
  | update env => exact hgame _ trivial trivial
  | handle r => exact hgame _ trivial trivial
  | read r =>
      by_contra hne
      obtain ⟨T, hT⟩ := Option.ne_none_iff_exists'.mp hne
      cases System.moves_of_step hT with
      | read hup hopen hvalidated hnext =>
          have hr := hwithin.server.connected r hopen
          have hnone := hread r .server ⟨hr, h.isOpen r hr .server, fun _ ↦ ⟨hup, hvalidated⟩⟩
          exact absurd (hnext.symm.trans hnone) (by simp)
  | receive r =>
      by_contra hne
      obtain ⟨T, hT⟩ := Option.ne_none_iff_exists'.mp hne
      cases System.moves_of_step hT with
      | receive hopen hnext =>
          have hr : r < W.server.approved := by
            by_contra hnew
            rw [System.downstream, hwithin.server.sent r (Nat.not_lt.mp hnew)] at hnext
            exact absurd (hnext.symm.trans (System.read_nil _)) (by simp)
          have hnone := hread r .client ⟨hr, h.isOpen r hr .client, fun hside ↦ by cases hside⟩
          rw [System.downstream, show sentTo (W.view reader).server.log r =
            (W.wires r .server).sent from (hsound.sent r).symm] at hnext
          exact absurd (hnext.symm.trans hnone) (by simp)
  | _ => exact hdelivers.elim

end Running

/-- Once no program does anything of its own, and as long as nothing fails, every order of
lambdas, completions, arrivals and handlers comes to an end: all that was sent has
arrived, and nothing is left to be read or handled. -/
theorem settlement_inevitable (h : Reaches (step platform depth) (fun _ _ ↦ True) {} W)
    (hopen : ∀ r, r < W.server.approved → ∀ side, (W.wires r side).connection.isOpen = true) :
    Inevitably (guarded (step platform depth) fun _ e ↦ e.Delivers) (Settled platform depth) W := by
  have hwf : WellFounded (Prod.Lex (· < · : ℕ → ℕ → Prop) (· < · : ℕ → ℕ → Prop)) :=
    WellFounded.prod_lex Nat.lt_wfRel.wf Nat.lt_wfRel.wf
  refine Inevitably.of_wellFounded hwf (Running platform depth) (fun W ↦ (W.upLoad, W.downLoad))
    ?_ ?_ ⟨h, hopen⟩
  · intro W e W' hrunning hstep
    obtain ⟨hdelivers, hstep⟩ := Option.ite_none_right_eq_some.mp hstep
    exact hrunning.step hdelivers hstep
  · intro W hrunning hhalted
    refine hrunning.settled fun e hdelivers ↦ ?_
    have hnone := hhalted e
    rwa [guarded, if_pos hdelivers] at hnone

/-- The move has been reported, and its message has not been posted yet. -/
theorem settlement_inevitable_welcome : ∃ W, run (step .x64 8) {} welcome = some W ∧
    (W.wires 0 .client).posted ≠ [] ∧
      Inevitably (guarded (step .x64 8) fun _ e ↦ e.Delivers) (Settled .x64 8) W := by
  obtain ⟨W, hrun, hcheck⟩ := exists_run_of_any
    (P := fun W : Wired ↦ decide ((W.wires 0 .client).posted ≠ [] ∧ W.server.approved = 1 ∧
      (W.wires 0 .server).connection.isOpen = true ∧ (W.wires 0 .client).connection.isOpen = true))
    (show (run (step .x64 8) {} welcome).any _ = true by decide +kernel)
  obtain ⟨hposted, happroved, hserver, hclient⟩ := of_decide_eq_true hcheck
  refine ⟨W, hrun, hposted, settlement_inevitable (reaches_of_run hrun) fun r hr side ↦ ?_⟩
  obtain rfl : r = 0 := by omega
  cases side with
  | server => exact hserver
  | client => exact hclient

end Wired

end SnekCpp
