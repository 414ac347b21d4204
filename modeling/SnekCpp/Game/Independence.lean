import SnekCpp.Game.Authority
import SnekCpp.Lib.Processes

/-!
# Independence of the processes

The server and the clients share nothing but the streams, and a read takes the
same bytes whatever is sent after them.  So the steps of two processes never
disable each other, and nothing but the order of the steps within each process
decides where a run ends.
-/

namespace SnekCpp

open Lib Networking

namespace System

variable {platform : Platform} {depth : ℕ} {S T U : System} {e f : Event} {r r' : ConnRef}
  {peer next : Peer}

/-- A client's step does not depend on bytes that it does not read. -/
theorem stepPeer_append {bytes : List UInt8} (h : stepPeer platform peer bytes e = some next)
    (more : List UInt8) : stepPeer platform peer (bytes ++ more) e = some next := by
  cases e with
  | receive r =>
      simp only [stepPeer] at h ⊢
      split at h
      · next hopen =>
          split at h
          · cases h
          · next msg reader hread =>
              rw [if_pos hopen, (Reader.read_spec hread).2.2.2 more]
              exact h
      · cases h
  | _ => exact h

theorem sent_prefix_send (peer : Peer) (msg : Msg) : peer.sent <+: (peer.send msg).sent := by
  unfold Peer.send
  split
  · exact List.prefix_append _ _
  · exact List.prefix_rfl

theorem sent_prefix_sendAny (peer : Peer) (msg : Option Msg) :
    peer.sent <+: (peer.sendAny msg).sent := by
  cases msg with
  | none => exact List.prefix_rfl
  | some m => exact sent_prefix_send peer m

theorem step_of_peer (hpeer : e.peer = some r) :
    S.step platform depth e =
      (stepPeer platform (S.peers r) (S.downstream r) e).map (S.setPeer r) := by
  cases e with
  | accept => cases hpeer
  | validate => cases hpeer
  | close => cases hpeer
  | read => cases hpeer
  | update => cases hpeer
  | _ =>
      cases hpeer
      rfl

/-- What has been sent stays sent. -/
theorem sent_prefix_of_stepPeer {bytes : List UInt8}
    (h : stepPeer platform peer bytes e = some next) : peer.sent <+: next.sent := by
  cases e with
  | hangUp =>
      cases h
      exact List.prefix_rfl
  | receive =>
      simp only [stepPeer] at h
      split at h
      · split at h
        · cases h
        · cases h
          exact List.prefix_rfl
      · cases h
  | handle =>
      simp only [stepPeer] at h
      split at h
      · cases h
      · split at h
        · cases h
        · split at h
          · cases h
          · cases h
            exact List.prefix_rfl
  | enterGame =>
      obtain ⟨-, h⟩ := Option.ite_none_right_eq_some.mp h
      cases h
      exact List.prefix_rfl
  | frame =>
      obtain ⟨-, h⟩ := Option.ite_none_right_eq_some.mp h
      split at h
      · cases h
      · next client msg _ =>
          cases h
          exact sent_prefix_sendAny { peer with client, phase := .handling } msg
  | updateServer =>
      obtain ⟨-, h⟩ := Option.ite_none_right_eq_some.mp h
      cases h
      exact sent_prefix_send { peer with
        client := (peer.client.updateServer platform).1, phase := .polling } _
  | key r key press =>
      obtain ⟨-, h⟩ := Option.ite_none_right_eq_some.mp h
      cases h
      exact sent_prefix_sendAny { peer with client := (peer.client.keyCallback key press).1 } _
  | _ => cases h

/-! ## The server's steps -/

theorem server_serve (handler : ServerM Unit) :
    (S.serve handler).server = Server.after (handler.run S.server) := by
  unfold serve
  cases handler.run S.server <;> rfl

theorem exists_log_serve {handler : ServerM Unit}
    (h : ∃ effects, (Server.after (handler.run S.server)).log = S.server.log ++ effects) :
    S.server.log <+: (S.serve handler).server.log := by
  obtain ⟨effects, hlog⟩ := h
  rw [server_serve]
  exact ⟨effects, hlog.symm⟩

/-- A step of the server changes no client, and takes back nothing it has sent. -/
theorem server_step (hpeer : e.peer = none) (h : S.step platform depth e = some T) :
    T.peers = S.peers ∧ S.server.log <+: T.server.log := by
  cases moves_of_step h with
  | accept => exact ⟨rfl, by simp⟩
  | validate =>
      exact ⟨peers_serve .., exists_log_serve (Server.exists_log_onClientValidated ..)⟩
  | close => exact ⟨rfl, List.prefix_rfl⟩
  | read => exact ⟨rfl, List.prefix_rfl⟩
  | @update env r msg rest _ hqueue =>
      refine ⟨peers_serve .., ?_⟩
      have hextends : Server.Extends msg { S.server with m_qMessagesIn := rest }
          (Server.after ((Server.onMessage platform env depth r msg).run
            { S.server with m_qMessagesIn := rest })) :=
        Server.only_onMessage platform env depth r msg _
      obtain ⟨effects, hlog, -⟩ := hextends.log
      exact @exists_log_serve { S with server.m_qMessagesIn := rest } _ ⟨effects, hlog⟩
  | _ => cases hpeer

theorem downstream_of_log (h : S.server.log <+: T.server.log) (r : ConnRef) :
    ∃ more, T.downstream r = S.downstream r ++ more := by
  obtain ⟨effects, hlog⟩ := h
  refine ⟨stream (sentTo effects r), ?_⟩
  unfold downstream
  rw [← hlog, sentTo_append, Reader.stream_append]

theorem serve_setPeer (handler : ServerM Unit) :
    (S.setPeer r peer).serve handler = (S.serve handler).setPeer r peer := by
  have hserver : (S.setPeer r peer).server = S.server := rfl
  unfold serve
  rw [hserver]
  cases handler.run S.server <;> rfl

/-- What the server has read of a client's stream it reads as well when the
client has sent more. -/
theorem read_setPeer (hsent : (S.peers r).sent <+: peer.sent) {msg : Msg}
    {reader : Reader MessageTypes}
    (h : (S.readers r').read (S.upstream r') = some (msg, reader)) :
    (S.readers r').read ((S.setPeer r peer).upstream r') = some (msg, reader) := by
  by_cases heq : r' = r
  · subst heq
    obtain ⟨more, hmore⟩ := hsent
    have hupstream : (S.setPeer r' peer).upstream r' = S.upstream r' ++ stream more := by
      simp only [upstream, setPeer, Function.update_self]
      rw [← hmore, Reader.stream_append]
    rw [hupstream]
    exact (Reader.read_spec h).2.2.2 _
  · have hupstream : (S.setPeer r peer).upstream r' = S.upstream r' := by
      simp [upstream, setPeer, heq]
    rw [hupstream]
    exact h

/-- A client that has sent more does not change what the server does. -/
theorem step_setPeer (hpeer : e.peer = none) (hsent : (S.peers r).sent <+: peer.sent)
    (h : S.step platform depth e = some T) :
    (S.setPeer r peer).step platform depth e = some (T.setPeer r peer) := by
  cases e with
  | accept =>
      obtain ⟨hup, h⟩ := Option.ite_none_right_eq_some.mp h
      cases h
      exact if_pos hup
  | validate r' env =>
      obtain ⟨hup, h⟩ := Option.ite_none_right_eq_some.mp h
      obtain ⟨hready, h⟩ := Option.ite_none_right_eq_some.mp h
      cases h
      refine (if_pos hup).trans ((if_pos hready).trans ?_)
      rw [serve_setPeer]
  | close r' =>
      obtain ⟨happroved, h⟩ := Option.ite_none_right_eq_some.mp h
      cases h
      exact if_pos happroved
  | read r' =>
      obtain ⟨hup, h⟩ := Option.ite_none_right_eq_some.mp h
      obtain ⟨hready, h⟩ := Option.ite_none_right_eq_some.mp h
      split at h
      · cases h
      · next msg reader hread =>
          cases h
          refine (if_pos hup).trans ((if_pos hready).trans ?_)
          rw [show (S.setPeer r peer).readers = S.readers from rfl, read_setPeer hsent hread]
          rfl
  | update env =>
      obtain ⟨hup, h⟩ := Option.ite_none_right_eq_some.mp h
      simp only [stepServer] at h
      split at h
      · cases h
      · next hqueue =>
          cases h
          refine (if_pos hup).trans ((if_neg hqueue).trans ?_)
          rw [serve_setPeer]
  | _ => cases hpeer

/-! ## Independence -/

theorem independent_server (he : e.peer = some r) (hf : f.peer = none) :
    Independent (step platform depth) e f := by
  intro S T U hT hU
  rw [step_of_peer he] at hT
  obtain ⟨peer, hstep, rfl⟩ := Option.map_eq_some_iff.mp hT
  obtain ⟨hpeers, hlog⟩ := server_step hf hU
  refine ⟨U.setPeer r peer, step_setPeer hf (sent_prefix_of_stepPeer hstep) hU, ?_⟩
  obtain ⟨more, hmore⟩ := downstream_of_log hlog r
  rw [step_of_peer he, hpeers, hmore, stepPeer_append hstep]
  rfl

theorem independent_clients (he : e.peer = some r) (hf : f.peer = some r') (hne : r ≠ r') :
    Independent (step platform depth) e f := by
  intro S T U hT hU
  rw [step_of_peer he] at hT
  rw [step_of_peer hf] at hU
  obtain ⟨peer, hstep, rfl⟩ := Option.map_eq_some_iff.mp hT
  obtain ⟨peer', hstep', rfl⟩ := Option.map_eq_some_iff.mp hU
  have hother : (S.setPeer r peer).peers r' = S.peers r' := by simp [setPeer, hne.symm]
  have hother' : (S.setPeer r' peer').peers r = S.peers r := by simp [setPeer, hne]
  refine ⟨(S.setPeer r peer).setPeer r' peer', ?_, ?_⟩
  · rw [step_of_peer hf, hother, show (S.setPeer r peer).downstream r' = S.downstream r' from rfl,
      hstep']
    rfl
  · rw [step_of_peer he, hother', show (S.setPeer r' peer').downstream r = S.downstream r from rfl,
      hstep]
    simp only [Option.map_some, setPeer, Function.update_comm hne.symm]

/-- Steps of different processes do not interfere. -/
theorem independent_of_peer_ne (hne : e.peer ≠ f.peer) :
    Independent (step platform depth) e f := by
  cases he : e.peer with
  | none =>
      cases hf : f.peer with
      | none => exact absurd (he.trans hf.symm) hne
      | some r => exact (independent_server hf he).symm
  | some r =>
      cases hf : f.peer with
      | none => exact independent_server he hf
      | some r' =>
          refine independent_clients he hf fun heq ↦ hne ?_
          rw [he, hf, heq]

/-- The order of the steps within each process decides where a run ends, and the
order between the processes does not. -/
theorem run_determined {xs ys : List Event}
    (hxs : run (step platform depth) S xs = some T) (hys : run (step platform depth) S ys = some U)
    (hsame : ∀ p, ofProcess Event.peer p xs = ofProcess Event.peer p ys) : T = U :=
  run_eq_of_ofProcess (fun _ _ ↦ independent_of_peer_ne) hxs hys hsame

/-- Two clients play a frame each, and the server handles the report of one. -/
def framesInTurn : List Event :=
  bothJoin ++ [.frame 0, .updateServer 0, .frame 1, .read 0, .updateServer 1, .update .plain,
    .read 1]

def framesTogether : List Event :=
  bothJoin ++ [.frame 1, .frame 0, .updateServer 1, .updateServer 0, .read 0, .update .plain,
    .read 1]

theorem run_determined_frames :
    ∃ S, run (step .x64 8) {} framesInTurn = some S ∧
      run (step .x64 8) {} framesTogether = some S := by
  obtain ⟨T, hT⟩ : ∃ T, run (step .x64 8) {} framesInTurn = some T :=
    Option.isSome_iff_exists.mp (by decide +kernel)
  obtain ⟨U, hU⟩ : ∃ U, run (step .x64 8) {} framesTogether = some U :=
    Option.isSome_iff_exists.mp (by decide +kernel)
  have hsame : T = U := by
    refine run_determined hT hU fun p ↦ ?_
    rcases p with _ | _ | _ | r <;> rfl
  exact ⟨T, hT, hsame ▸ hU⟩

/-- Schedules that each process can run alone can be interleaved in any way. -/
theorem run_of_solo {xs ys : List Event}
    (hsolo : ∀ p, ∃ T, run (step platform depth) S (ofProcess Event.peer p xs) = some T)
    (hsame : ∀ p, ofProcess Event.peer p xs = ofProcess Event.peer p ys) :
    ∃ T, run (step platform depth) S xs = some T ∧ run (step platform depth) S ys = some T := by
  obtain ⟨T, hxs⟩ := exists_run_of_ofProcess (fun _ _ ↦ independent_of_peer_ne) hsolo
  obtain ⟨U, hys⟩ := exists_run_of_ofProcess (fun _ _ ↦ independent_of_peer_ne)
    fun p ↦ hsame p ▸ hsolo p
  have hend : T = U :=
    run_eq_of_ofProcess (fun _ _ ↦ independent_of_peer_ne) hxs hys hsame
  exact ⟨T, hxs, hend ▸ hys⟩

theorem run_of_solo_frames :
    ∃ S T, run (step .x64 8) {} bothJoin = some S ∧
      run (step .x64 8) S [.frame 0, .updateServer 0, .frame 1, .updateServer 1] = some T ∧
        run (step .x64 8) S [.frame 1, .frame 0, .updateServer 1, .updateServer 0] = some T := by
  obtain ⟨S, hS, hcheck⟩ := exists_run_of_any
    (P := fun S : System ↦ (run (step .x64 8) S [.frame 0, .updateServer 0]).isSome &&
      (run (step .x64 8) S [.frame 1, .updateServer 1]).isSome)
    (show (run (step .x64 8) {} bothJoin).any _ = true by decide +kernel)
  obtain ⟨hfirst, hsecond⟩ := Bool.and_eq_true_iff.mp hcheck
  obtain ⟨T, hxs, hys⟩ := @run_of_solo .x64 8 S
    [.frame 0, .updateServer 0, .frame 1, .updateServer 1]
    [.frame 1, .frame 0, .updateServer 1, .updateServer 0]
    (fun p ↦ by
      rcases p with _ | _ | _ | r
      · exact ⟨S, rfl⟩
      · exact Option.isSome_iff_exists.mp hfirst
      · exact Option.isSome_iff_exists.mp hsecond
      · exact ⟨S, rfl⟩)
    fun p ↦ by rcases p with _ | _ | _ | r <;> rfl
  exact ⟨S, T, hS, hxs, hys⟩

end System

end SnekCpp
