import SnekCpp.Game.Independence
import SnekCpp.Networking.Turns
import SnekCpp.SnekServer.Validation

/-!
# The system over its sockets

In `System` a message can be read whole as soon as it has been sent.  Here every
`Send` posts a lambda, the writes and reads complete one by one, and the bytes
come in pieces.  The programs see no difference.
-/

namespace SnekCpp

open Lib Networking

/-- A client process but for its connection. -/
structure Terminal where
  client : SnakeClient := {}
  phase : Phase := .connecting
  m_qMessagesIn : List Msg := []
  /-- The messages that `HandleMessages` has handled. -/
  handled : List Msg := []

structure Wired where
  server : Server := .init
  /-- What has ended the server process. -/
  fault : Option Fault := none
  terminals : ConnRef → Terminal := fun _ ↦ {}
  wires : ConnRef → Duplex MessageTypes := fun _ ↦ .fresh

inductive WiredEvent
  /-- A handler, a key or a part of a frame. -/
  | game (e : Event)
  /-- Something happens at one end of a connection. -/
  | wire (r : ConnRef) (side : Owner) (e : StationEvent MessageTypes)

/-- An event in which nothing is read and no socket closes. -/
def Event.Local : Event → Prop
  | .read _ | .receive _ | .close _ | .hangUp _ => False
  | _ => True

instance (e : Event) : Decidable e.Local := by
  cases e <;> unfold Event.Local <;> infer_instance

/-- The messages that one end of a connection has passed to `Send`. -/
def System.sentBy (S : System) (r : ConnRef) : Owner → List Msg
  | .server => sentTo S.server.log r
  | .client => (S.peers r).sent

/-- The messages that a step has pushed onto the queue of the owner. -/
def Networking.Station.pushed (s s' : Station MessageTypes) : List Msg :=
  s'.connection.m_qMessagesIn.drop s.connection.m_qMessagesIn.length

namespace Wired

variable (platform : Platform) (depth : ℕ)

def peer (W : Wired) (r : ConnRef) (reader : Reader MessageTypes) : Peer where
  client := (W.terminals r).client
  phase := (W.terminals r).phase
  isConnected := (W.wires r .client).connection.isOpen
  m_qMessagesIn := (W.terminals r).m_qMessagesIn
  reader
  sent := (W.wires r .client).sent
  handled := (W.terminals r).handled

/-- What the programs see of the state, with a reader of whole messages at every end. -/
def view (W : Wired) (reader : ConnRef → Owner → Reader MessageTypes) : System where
  server := W.server
  fault := W.fault
  readers r := reader r .server
  peers r := W.peer r (reader r .client)

/-- The state after the programs have gone on to `S`: what they have sent is posted. -/
def absorb (W : Wired) (S : System) : Wired where
  server := S.server
  fault := S.fault
  terminals r := {
    client := (S.peers r).client
    phase := (S.peers r).phase
    m_qMessagesIn := (S.peers r).m_qMessagesIn
    handled := (S.peers r).handled }
  wires r side := (W.wires r side).sendAll ((S.sentBy r side).drop (W.wires r side).sent.length)

/-- The state after one end of a connection has gone on to `s`: the server looks at
the socket of its end, and what the end has pushed is in the queue of its owner. -/
def setStation (W : Wired) (r : ConnRef) (side : Owner) (s : Station MessageTypes) : Wired :=
  let msgs := (W.wires r side).pushed s
  let wires := Function.update W.wires r (Function.update (W.wires r) side s)
  match side with
  | .server =>
      { W with
        wires
        server.m_qMessagesIn := W.server.m_qMessagesIn ++ msgs.map fun msg ↦ (r, msg)
        server.isConnected :=
          Function.update W.server.isConnected r s.connection.isOpen }
  | .client =>
      { W with
        wires
        terminals := Function.update W.terminals r { W.terminals r with
          m_qMessagesIn := (W.terminals r).m_qMessagesIn ++ msgs } }

/-- Only the programs call `Send`.  A read is aborted when its socket closes, and
that of the server starts with the validation. -/
def Live (W : Wired) (r : ConnRef) (side : Owner) : StationEvent MessageTypes → Prop
  | .outgoing (.send _) => False
  | .read => r < W.server.approved ∧ (W.wires r side).connection.isOpen = true ∧
      (side = .server → W.fault = none ∧ W.server.Validated r)
  | _ => r < W.server.approved

instance (W : Wired) (r : ConnRef) (side : Owner) (e : StationEvent MessageTypes) :
    Decidable (W.Live r side e) := by
  rcases e with e | _ | _ | _
  · rcases e <;> unfold Live <;> infer_instance
  all_goals unfold Live; infer_instance

def step (W : Wired) : WiredEvent → Option Wired
  | .game e =>
      if e.Local then
        ((W.view fun _ _ ↦ default).step platform depth e).map W.absorb
      else none
  | .wire r side e =>
      if W.Live r side e then
        ((W.wires r side).step ((W.wires r).coming side) e).map (W.setStation r side)
      else none

end Wired

/-! ## The programs do not look at the readers -/

namespace System

variable {platform : Platform} {depth : ℕ} {S T : System} {e : Event} {r : ConnRef}
  {peer next : Peer}

/-- The same state, with other readers. -/
def withReaders (S : System) (reader : ConnRef → Owner → Reader MessageTypes) : System :=
  { S with
    readers := fun r ↦ reader r .server
    peers := fun r ↦ { S.peers r with reader := reader r .client } }

theorem sendAny_reader (peer : Peer) (reader : Reader MessageTypes) (msg : Option Msg) :
    Peer.sendAny { peer with reader } msg = { peer.sendAny msg with reader } := by
  cases msg with
  | none => rfl
  | some msg =>
      simp only [Peer.sendAny, Peer.send]
      split
      · rfl
      · rfl

theorem stepPeer_reader (hlocal : e.Local) {bytes bytes' : List UInt8}
    (h : stepPeer platform peer bytes e = some next) (reader : Reader MessageTypes) :
    stepPeer platform { peer with reader } bytes' e = some { next with reader } := by
  cases e with
  | hangUp => exact hlocal.elim
  | receive => exact hlocal.elim
  | handle =>
      simp only [stepPeer] at h ⊢
      split at h
      · cases h
      · split at h
        · cases h
        · next hphase =>
            split at h
            · cases h
            · cases h
              rw [if_neg hphase]
  | enterGame =>
      obtain ⟨hready, h⟩ := Option.ite_none_right_eq_some.mp h
      cases h
      exact if_pos hready
  | frame =>
      obtain ⟨hphase, h⟩ := Option.ite_none_right_eq_some.mp h
      refine (if_pos hphase).trans ?_
      split at h
      · cases h
      · next client msg hframe =>
          cases h
          simp only [hframe]
          exact congrArg some (sendAny_reader { peer with client, phase := .handling } reader msg)
  | updateServer =>
      obtain ⟨hready, h⟩ := Option.ite_none_right_eq_some.mp h
      cases h
      refine (if_pos hready).trans ?_
      exact congrArg some (sendAny_reader { peer with
        client := (peer.client.updateServer platform).1, phase := .polling } reader (some _))
  | key r key press =>
      obtain ⟨hphase, h⟩ := Option.ite_none_right_eq_some.mp h
      cases h
      refine (if_pos hphase).trans ?_
      exact congrArg some (sendAny_reader { peer with
        client := (peer.client.keyCallback key press).1 } reader _)
  | _ => cases h

theorem serve_withReaders (reader : ConnRef → Owner → Reader MessageTypes)
    (handler : ServerM Unit) :
    (S.withReaders reader).serve handler = (S.serve handler).withReaders reader := by
  simp only [serve, withReaders]
  cases handler.run S.server <;> rfl

theorem setPeer_withReaders (reader : ConnRef → Owner → Reader MessageTypes) :
    (S.withReaders reader).setPeer r { peer with reader := reader r .client } =
      (S.setPeer r peer).withReaders reader := by
  simp only [setPeer, withReaders, System.mk.injEq, true_and]
  funext other
  by_cases heq : other = r
  · subst heq
    simp only [Function.update_self]
  · simp only [Function.update_of_ne heq]

theorem step_withReaders (hlocal : e.Local) (h : S.step platform depth e = some T)
    (reader : ConnRef → Owner → Reader MessageTypes) :
    (S.withReaders reader).step platform depth e = some (T.withReaders reader) := by
  cases hpeer : e.peer with
  | some r =>
      rw [step_of_peer hpeer] at h ⊢
      obtain ⟨peer, hstep, rfl⟩ := Option.map_eq_some_iff.mp h
      exact Option.map_eq_some_iff.mpr
        ⟨_, stepPeer_reader hlocal hstep _, setPeer_withReaders reader⟩
  | none =>
      cases e with
      | read => exact hlocal.elim
      | close => exact hlocal.elim
      | accept =>
          obtain ⟨hup, h⟩ := Option.ite_none_right_eq_some.mp h
          cases h
          exact if_pos hup
      | validate r env =>
          obtain ⟨hup, h⟩ := Option.ite_none_right_eq_some.mp h
          obtain ⟨hready, h⟩ := Option.ite_none_right_eq_some.mp h
          cases h
          refine (if_pos hup).trans ((if_pos hready).trans ?_)
          rw [serve_withReaders]
      | update env =>
          obtain ⟨hup, h⟩ := Option.ite_none_right_eq_some.mp h
          simp only [stepServer] at h
          split at h
          · cases h
          · next hqueue =>
              cases h
              refine (if_pos hup).trans ((if_neg hqueue).trans ?_)
              rw [serve_withReaders]
      | _ => cases hpeer

/-! ## What the programs do to the connections -/

/-- The programs have gone on from `S` to `T`: they have sent more, and opened the
sockets that are new. -/
structure Proceeds (S T : System) : Prop where
  sentBy : ∀ r side, S.sentBy r side <+: T.sentBy r side
  isConnected : ∀ r, (T.peers r).isConnected = (S.peers r).isConnected
  approved : S.server.approved ≤ T.server.approved
  kept : ∀ r, r < S.server.approved → T.server.isConnected r = S.server.isConnected r
  opened : ∀ r, S.server.approved ≤ r → r < T.server.approved → T.server.isConnected r = true

theorem isConnected_sendAny (peer : Peer) (msg : Option Msg) :
    (peer.sendAny msg).isConnected = peer.isConnected := by
  cases msg with
  | none => rfl
  | some msg =>
      simp only [Peer.sendAny, Peer.send]
      split
      · rfl
      · rfl

theorem proceeds_setPeer (hsent : (S.peers r).sent <+: peer.sent)
    (hopen : peer.isConnected = (S.peers r).isConnected) : S.Proceeds (S.setPeer r peer) := by
  refine ⟨fun other side ↦ ?_, fun other ↦ ?_, Nat.le_refl _, fun _ _ ↦ rfl, fun _ hle hlt ↦ ?_⟩
  · cases side with
    | server => exact List.prefix_rfl
    | client =>
        by_cases heq : other = r
        · subst heq
          simpa [sentBy, setPeer] using hsent
        · simp [sentBy, setPeer, heq]
  · by_cases heq : other = r
    · subst heq
      simpa [setPeer] using hopen
    · simp [setPeer, heq]
  · exact absurd hlt (Nat.not_lt.mpr hle)

theorem proceeds_server (hpeer : e.peer = none) (h : S.step platform depth e = some T)
    (happroved : S.server.approved ≤ T.server.approved)
    (hkept : ∀ r, r < S.server.approved → T.server.isConnected r = S.server.isConnected r)
    (hopened : ∀ r, S.server.approved ≤ r → r < T.server.approved →
      T.server.isConnected r = true) : S.Proceeds T := by
  obtain ⟨hpeers, effects, hlog⟩ := server_step hpeer h
  refine ⟨fun r side ↦ ?_, fun r ↦ by rw [hpeers], happroved, hkept, hopened⟩
  cases side with
  | server =>
      simp only [sentBy]
      rw [← hlog, sentTo_append]
      exact List.prefix_append _ _
  | client =>
      simp only [sentBy]
      rw [hpeers]

theorem proceeds_onAccept (hup : S.fault = none) :
    S.Proceeds { S with server := S.server.onAccept } := by
  apply @proceeds_server .x64 0 S _ .accept rfl (if_pos hup)
  · unfold Server.onAccept
    split
    · exact Nat.le_succ _
    · exact Nat.le_refl _
  · intro r hr
    simp only [Server.onAccept]
    split
    · exact Function.update_of_ne (Nat.ne_of_lt hr) _ _
    · rfl
  · intro r hle hlt
    simp only [Server.onAccept] at hlt ⊢
    split at hlt
    · next hconnect =>
        rw [if_pos hconnect, Nat.le_antisymm (Nat.lt_succ_iff.mp hlt) hle]
        exact Function.update_self ..
    · exact absurd hlt (Nat.not_lt.mpr hle)

theorem proceeds_serve (hpeer : e.peer = none) {handler : ServerM Unit}
    (h : S.step platform depth e = some (T.serve handler))
    (hconnected : T.server.isConnected = S.server.isConnected)
    (happroved : T.server.approved = S.server.approved)
    (huntouched : T.server.Untouched (Server.after (handler.run T.server))) :
    S.Proceeds (T.serve handler) := by
  rw [← server_serve] at huntouched
  have hsame := huntouched.approved.trans happroved
  refine proceeds_server hpeer h hsame.ge (fun r _ ↦ ?_) fun r hle hlt ↦ ?_
  · rw [huntouched.isConnected, hconnected]
  · rw [hsame] at hlt
    exact absurd hlt (Nat.not_lt.mpr hle)

theorem isConnected_of_stepPeer (hlocal : e.Local) {bytes : List UInt8}
    (h : stepPeer platform peer bytes e = some next) : next.isConnected = peer.isConnected := by
  cases e with
  | hangUp => exact hlocal.elim
  | receive => exact hlocal.elim
  | handle =>
      simp only [stepPeer] at h
      split at h
      · cases h
      · split at h
        · cases h
        · split at h
          · cases h
          · cases h
            rfl
  | enterGame =>
      obtain ⟨-, h⟩ := Option.ite_none_right_eq_some.mp h
      cases h
      rfl
  | frame =>
      obtain ⟨-, h⟩ := Option.ite_none_right_eq_some.mp h
      split at h
      · cases h
      · cases h
        exact isConnected_sendAny _ _
  | updateServer =>
      obtain ⟨-, h⟩ := Option.ite_none_right_eq_some.mp h
      cases h
      exact isConnected_sendAny _ (some _)
  | key =>
      obtain ⟨-, h⟩ := Option.ite_none_right_eq_some.mp h
      cases h
      exact isConnected_sendAny _ _
  | _ => cases h

theorem proceeds_of_step (hlocal : e.Local) (h : S.step platform depth e = some T) :
    S.Proceeds T := by
  cases hpeer : e.peer with
  | some r =>
      rw [step_of_peer hpeer] at h
      obtain ⟨peer, hstep, rfl⟩ := Option.map_eq_some_iff.mp h
      exact proceeds_setPeer (sent_prefix_of_stepPeer hstep) (isConnected_of_stepPeer hlocal hstep)
  | none =>
      cases moves_of_step h with
      | accept hup => exact proceeds_onAccept hup
      | validate =>
          exact proceeds_serve hpeer h rfl rfl (Server.untouched_onClientValidated ..)
      | update =>
          exact proceeds_serve hpeer h rfl rfl (Server.untouched_onMessage ..)
      | close => exact hlocal.elim
      | read => exact hlocal.elim
      | _ => cases hpeer

end System

/-! ## One step over the sockets -/

namespace Wired

variable {platform : Platform} {depth : ℕ} {W : Wired} {T : System} {r : ConnRef} {side : Owner}
  {reader : ConnRef → Owner → Reader MessageTypes} {s : Station MessageTypes}
  {e : StationEvent MessageTypes}

/-- Every end is in order, and stands where the reader does.  What the server knows of
its connections is true. -/
structure Sound (W : Wired) (reader : ConnRef → Owner → Reader MessageTypes) : Prop where
  linked : ∀ r, (W.wires r).Linked
  follows : ∀ r side, (W.wires r side).Follows (reader r side)
  sent : ∀ r, (W.wires r .server).sent = sentTo W.server.log r
  isConnected : ∀ r, r < W.server.approved →
    W.server.isConnected r = (W.wires r .server).connection.isOpen
  new : ∀ r, W.server.approved ≤ r → (W.wires r .server).connection.isOpen = true

theorem sound_start : Sound {} fun _ _ ↦ default where
  linked _ := Duplex.linked_fresh
  follows _ _ := Station.follows_fresh
  sent _ := rfl
  isConnected _ h := by cases h
  new _ _ := rfl

namespace Sound

theorem sentBy_view (h : W.Sound reader) (reader' : ConnRef → Owner → Reader MessageTypes)
    (r : ConnRef) (side : Owner) : (W.view reader').sentBy r side = (W.wires r side).sent := by
  cases side with
  | server => exact (h.sent r).symm
  | client => rfl

/-! ### The programs go on -/

theorem sent_absorb (h : W.Sound reader) {reader' : ConnRef → Owner → Reader MessageTypes}
    (hproceeds : (W.view reader').Proceeds T) (r : ConnRef) (side : Owner) :
    ((W.absorb T).wires r side).sent = T.sentBy r side := by
  have hprefix := hproceeds.sentBy r side
  rw [h.sentBy_view] at hprefix
  exact (List.prefix_iff_eq_append.mp hprefix)

theorem absorb (h : W.Sound reader) {reader' : ConnRef → Owner → Reader MessageTypes}
    (hproceeds : (W.view reader').Proceeds T) : (W.absorb T).Sound reader where
  linked r := (h.linked r).sendAll _
  follows r side := (h.follows r side).sendAll _
  sent r := h.sent_absorb hproceeds r .server
  isConnected r hr := by
    by_cases hold : r < W.server.approved
    · exact (hproceeds.kept r hold).trans (h.isConnected r hold)
    · have hnew := Nat.le_of_not_lt hold
      exact (hproceeds.opened r hnew hr).trans (h.new r hnew).symm
  new r hr := h.new r (hproceeds.approved.trans hr)

theorem view_absorb (h : W.Sound reader) {reader' : ConnRef → Owner → Reader MessageTypes}
    (hproceeds : (W.view reader').Proceeds T) :
    (W.absorb T).view reader = T.withReaders reader := by
  have hpeers : ∀ r, (W.absorb T).peer r (reader r .client) =
      { T.peers r with reader := reader r .client } := by
    intro r
    have hsent : ((W.absorb T).wires r .client).sent = (T.peers r).sent :=
      h.sent_absorb hproceeds r .client
    have hopen : ((W.absorb T).wires r .client).connection.isOpen = (T.peers r).isConnected :=
      (hproceeds.isConnected r).symm
    simp only [peer, hsent, hopen]
    rfl
  simp only [view, System.withReaders, hpeers]
  rfl

/-- A handler or a frame is one step of the programs. -/
theorem game (h : W.Sound reader) {e : Event} {W' : Wired}
    (hstep : W.step platform depth (.game e) = some W') :
    W'.Sound reader ∧ (W.view reader).step platform depth e = some (W'.view reader) := by
  obtain ⟨hlocal, hstep⟩ := Option.ite_none_right_eq_some.mp hstep
  obtain ⟨T, hT, rfl⟩ := Option.map_eq_some_iff.mp hstep
  have hproceeds := System.proceeds_of_step hlocal hT
  refine ⟨h.absorb hproceeds, ?_⟩
  rw [h.view_absorb hproceeds]
  exact System.step_withReaders hlocal hT reader

end Sound

/-! ### One end goes on -/

/-- The readers, with another one at one end. -/
def setReader (reader : ConnRef → Owner → Reader MessageTypes) (r : ConnRef) (side : Owner)
    (next : Reader MessageTypes) : ConnRef → Owner → Reader MessageTypes :=
  Function.update reader r (Function.update (reader r) side next)

theorem setReader_self (reader : ConnRef → Owner → Reader MessageTypes) (r : ConnRef)
    (side : Owner) : setReader reader r side (reader r side) = reader := by
  simp only [setReader, Function.update_eq_self]

theorem wires_setStation (W : Wired) (r : ConnRef) (side : Owner) (s : Station MessageTypes) :
    (W.setStation r side s).wires =
      Function.update W.wires r (Function.update (W.wires r) side s) := by
  cases side with
  | server => rfl
  | client => rfl

/-- One end is replaced, and the others stay as they are. -/
theorem forall_setStation {P : Station MessageTypes → Reader MessageTypes → Prop}
    {next : Reader MessageTypes} (hnew : P s next)
    (hold : ∀ r side, P (W.wires r side) (reader r side)) (r' : ConnRef) (side' : Owner) :
    P ((W.setStation r side s).wires r' side') (setReader reader r side next r' side') := by
  rw [wires_setStation, setReader]
  by_cases hr : r' = r
  · subst hr
    rw [Function.update_self, Function.update_self]
    by_cases hside : side' = side
    · subst hside
      rwa [Function.update_self, Function.update_self]
    · rw [Function.update_of_ne hside, Function.update_of_ne hside]
      exact hold r' side'
  · rw [Function.update_of_ne hr, Function.update_of_ne hr]
    exact hold r' side'

theorem Sound.setStation (h : W.Sound reader) (hr : r < W.server.approved)
    (hlinked : Duplex.Linked (Function.update (W.wires r) side s))
    (hsent : s.sent = (W.wires r side).sent) {next : Reader MessageTypes}
    (hfollows : s.Follows next) : (W.setStation r side s).Sound (setReader reader r side next) := by
  have hserver : (W.setStation r side s).server.log = W.server.log ∧
      (W.setStation r side s).server.approved = W.server.approved := by
    cases side with
    | server => exact ⟨rfl, rfl⟩
    | client => exact ⟨rfl, rfl⟩
  have hstation : ∀ r', r' ≠ r →
      (W.setStation r side s).wires r' = W.wires r' := fun r' hne ↦ by
    rw [wires_setStation, Function.update_of_ne hne]
  refine ⟨fun r' ↦ ?_, forall_setStation hfollows h.follows, fun r' ↦ ?_, fun r' hr' ↦ ?_,
    fun r' hr' ↦ ?_⟩
  · by_cases hne : r' = r
    · subst hne
      rw [wires_setStation, Function.update_self]
      exact hlinked
    · rw [hstation r' hne]
      exact h.linked r'
  · rw [hserver.1, ← h.sent r']
    by_cases hne : r' = r
    · subst hne
      rw [wires_setStation, Function.update_self]
      cases side with
      | server => rw [Function.update_self, hsent]
      | client => rw [Function.update_of_ne (by decide)]
    · rw [hstation r' hne]
  · rw [hserver.2] at hr'
    by_cases hne : r' = r
    · subst hne
      rw [wires_setStation, Function.update_self]
      cases side with
      | server =>
          rw [Function.update_self]
          exact Function.update_self ..
      | client =>
          rw [Function.update_of_ne (by decide)]
          exact h.isConnected r' hr'
    · rw [hstation r' hne, ← h.isConnected r' hr']
      cases side with
      | server => exact Function.update_of_ne hne _ _
      | client => rfl
  · rw [hserver.2] at hr'
    rw [hstation r' (fun heq ↦ absurd hr (Nat.not_lt.mpr (heq ▸ hr')))]
    exact h.new r' hr'

/-- What the programs see when the server's end goes on. -/
theorem view_setStation_server (W : Wired) (reader : ConnRef → Owner → Reader MessageTypes)
    (r : ConnRef) (s : Station MessageTypes) (next : Reader MessageTypes) :
    (W.setStation r .server s).view (setReader reader r .server next) =
      { W.view reader with
        server.m_qMessagesIn := W.server.m_qMessagesIn ++
          ((W.wires r .server).pushed s).map fun msg ↦ (r, msg)
        server.isConnected := Function.update W.server.isConnected r s.connection.isOpen
        readers := Function.update (W.view reader).readers r next } := by
  have hreaders : (fun r' ↦ setReader reader r .server next r' .server) =
      Function.update (W.view reader).readers r next := by
    funext r'
    by_cases hne : r' = r
    · subst hne
      simp only [setReader, Function.update_self]
    · simp only [setReader, Function.update_of_ne hne, view]
  have hpeers : ∀ r', (W.setStation r .server s).peer r'
      (setReader reader r .server next r' .client) = W.peer r' (reader r' .client) := by
    intro r'
    have hclient : (W.setStation r .server s).wires r' .client = W.wires r' .client ∧
        setReader reader r .server next r' .client = reader r' .client := by
      rw [wires_setStation, setReader]
      by_cases hne : r' = r
      · subst hne
        rw [Function.update_self, Function.update_self]
        exact ⟨Function.update_of_ne (by decide) _ _, Function.update_of_ne (by decide) _ _⟩
      · rw [Function.update_of_ne hne, Function.update_of_ne hne]
        exact ⟨rfl, rfl⟩
    simp only [peer, hclient.1, hclient.2]
    rfl
  simp only [view, hreaders, hpeers]
  rfl

/-- What the programs see when a client's end goes on. -/
theorem view_setStation_client (W : Wired) (reader : ConnRef → Owner → Reader MessageTypes)
    (r : ConnRef) (s : Station MessageTypes) (hsent : s.sent = (W.wires r .client).sent)
    (next : Reader MessageTypes) :
    (W.setStation r .client s).view (setReader reader r .client next) =
      (W.view reader).setPeer r { (W.view reader).peers r with
        isConnected := s.connection.isOpen
        m_qMessagesIn := (W.terminals r).m_qMessagesIn ++ (W.wires r .client).pushed s
        reader := next } := by
  have hreaders : (fun r' ↦ setReader reader r .client next r' .server) =
      fun r' ↦ reader r' .server := by
    funext r'
    by_cases hne : r' = r
    · subst hne
      rw [setReader, Function.update_self, Function.update_of_ne (by decide)]
    · rw [setReader, Function.update_of_ne hne]
  simp only [view, System.setPeer, System.mk.injEq]
  refine ⟨rfl, rfl, hreaders, ?_⟩
  funext r'
  by_cases hne : r' = r
  · subst hne
    rw [Function.update_self]
    simp only [peer, Wired.setStation, setReader, Function.update_self, hsent]
  · rw [Function.update_of_ne hne]
    simp only [peer, Wired.setStation, setReader, Function.update_of_ne hne]

end Wired

theorem Networking.Station.pushed_of_eq {s s' : Station MessageTypes} {msgs : List Msg}
    (h : s'.connection.m_qMessagesIn = s.connection.m_qMessagesIn ++ msgs) : s.pushed s' = msgs := by
  rw [pushed, h, List.drop_left]

/-- The events of `System` that a step can be. -/
def WiredEvent.events : WiredEvent → List Event
  | .game e => [e]
  | .wire r .server _ => [.read r, .close r]
  | .wire r .client _ => [.receive r, .hangUp r]

namespace Wired

variable {platform : Platform} {depth : ℕ} {W W' : Wired} {r : ConnRef} {side : Owner}
  {reader : ConnRef → Owner → Reader MessageTypes} {s : Station MessageTypes}
  {e : StationEvent MessageTypes} {allowed : System → Event → Prop}

/-- Whatever the programs see happen in a step is allowed. -/
def Permits (allowed : System → Event → Prop) (W : Wired) (e : WiredEvent) : Prop :=
  ∀ reader, (∀ r side, (W.wires r side).Follows (reader r side)) →
    ∀ e' ∈ e.events, allowed (W.view reader) e'

theorem Live.lt (h : W.Live r side e) : r < W.server.approved := by
  rcases e with e | _ | _ | _
  · cases e with
    | send => exact h.elim
    | _ => exact h
  · exact h
  · exact h.1
  · exact h

theorem Live.passed_eq_nil (h : W.Live r side e) : e.passed = [] := by
  rcases e with e | _ | _ | _
  · cases e with
    | send => exact h.elim
    | _ => rfl
  · rfl
  · rfl
  · rfl

namespace Sound

/-- Nothing to be seen. -/
theorem quiet (h : W.Sound reader) (hr : r < W.server.approved)
    (hsent : s.sent = (W.wires r side).sent)
    (hqueue : s.connection.m_qMessagesIn = (W.wires r side).connection.m_qMessagesIn)
    (hopen : s.connection.isOpen = (W.wires r side).connection.isOpen) :
    (W.setStation r side s).view reader = W.view reader := by
  have hpushed : (W.wires r side).pushed s = [] :=
    Station.pushed_of_eq (hqueue.trans (List.append_nil _).symm)
  have hview : (W.setStation r side s).view (setReader reader r side (reader r side)) =
      W.view reader := by
    cases side with
    | server =>
        have hconnected : Function.update W.server.isConnected r s.connection.isOpen =
            W.server.isConnected := by
          rw [hopen, ← h.isConnected r hr, Function.update_eq_self]
        have hreaders : Function.update (W.view reader).readers r (reader r .server) =
            (W.view reader).readers := Function.update_eq_self r (W.view reader).readers
        rw [view_setStation_server, hpushed, hconnected, hreaders, List.map_nil, List.append_nil]
        rfl
    | client =>
        rw [view_setStation_client W reader r s hsent, hpushed, hopen, List.append_nil]
        exact congrArg (fun peers ↦ { W.view reader with peers })
          (Function.update_eq_self r (W.view reader).peers)
  rwa [setReader_self] at hview

/-- The socket of an end closes. -/
theorem closes (hr : r < W.server.approved) (hsent : s.sent = (W.wires r side).sent)
    (hqueue : s.connection.m_qMessagesIn = (W.wires r side).connection.m_qMessagesIn)
    (hclosed : s.connection.isOpen = false)
    (hallowed : ∀ e' ∈ WiredEvent.events (.wire r side e), allowed (W.view reader) e') :
    Reaches (System.step platform depth) allowed (W.view reader)
      ((W.setStation r side s).view reader) := by
  have hpushed : (W.wires r side).pushed s = [] :=
    Station.pushed_of_eq (hqueue.trans (List.append_nil _).symm)
  cases side with
  | server =>
      have hview := view_setStation_server W reader r s (reader r .server)
      have hreaders : Function.update (W.view reader).readers r (reader r .server) =
          (W.view reader).readers := Function.update_eq_self r (W.view reader).readers
      rw [setReader_self, hpushed, hclosed, hreaders, List.map_nil, List.append_nil] at hview
      refine .single ⟨.close r, hallowed _ (by simp [WiredEvent.events]), ?_⟩
      rw [hview]
      exact if_pos hr
  | client =>
      have hview := view_setStation_client W reader r s hsent (reader r .client)
      rw [setReader_self, hpushed, hclosed, List.append_nil] at hview
      refine .single ⟨.hangUp r, hallowed _ (by simp [WiredEvent.events]), ?_⟩
      rw [hview]
      rfl

/-- The last read of a message completes. -/
theorem queues (h : W.Sound reader) (hlive : W.Live r side .read)
    (hsent : s.sent = (W.wires r side).sent) {msg : Msg} {next : Reader MessageTypes}
    (hread : (reader r side).read (W.wires r side).arrived = some (msg, next))
    (hqueue : s.connection.m_qMessagesIn = (W.wires r side).connection.m_qMessagesIn ++ [msg])
    (hopen : s.connection.isOpen = (W.wires r side).connection.isOpen)
    (hallowed : ∀ e' ∈ WiredEvent.events (.wire r side e), allowed (W.view reader) e') :
    Reaches (System.step platform depth) allowed (W.view reader)
      ((W.setStation r side s).view (setReader reader r side next)) := by
  obtain ⟨hr, hup, hserver⟩ := hlive
  -- What has arrived is a part of what the other end has sent.
  obtain ⟨more, hmore⟩ := (h.linked r).arrived_begins side
  have hwhole : (reader r side).read (stream (W.wires r side.other).sent) = some (msg, next) := by
    rw [← hmore]
    exact (Reader.read_spec hread).2.2.2 more
  have hpushed : (W.wires r side).pushed s = [msg] := Station.pushed_of_eq hqueue
  cases side with
  | server =>
      obtain ⟨hfault, hvalidated⟩ := hserver rfl
      have hconnected : Function.update W.server.isConnected r s.connection.isOpen =
          W.server.isConnected := by
        rw [hopen, ← h.isConnected r hr, Function.update_eq_self]
      refine .single ⟨.read r, hallowed _ (by simp [WiredEvent.events]), ?_⟩
      rw [view_setStation_server W reader r s next, hpushed, hconnected]
      have hready : W.server.isConnected r = true ∧ W.server.Validated r :=
        ⟨(h.isConnected r hr).trans hup, hvalidated⟩
      refine (if_pos hfault).trans ((if_pos hready).trans ?_)
      rw [show ((W.view reader).readers r).read ((W.view reader).upstream r) = some (msg, next)
        from hwhole]
      rfl
  | client =>
      refine .single ⟨.receive r, hallowed _ (by simp [WiredEvent.events]), ?_⟩
      rw [view_setStation_client W reader r s hsent next, hpushed, hopen]
      have hdownstream : (W.view reader).downstream r = stream (W.wires r .server).sent := by
        rw [System.downstream, h.sent r]
        rfl
      have hreceive : System.stepPeer platform ((W.view reader).peers r)
          ((W.view reader).downstream r) (.receive r) = some { (W.view reader).peers r with
            m_qMessagesIn := (W.terminals r).m_qMessagesIn ++ [msg]
            reader := next } := by
        refine (if_pos hup).trans ?_
        rw [hdownstream, show ((W.view reader).peers r).reader.read
          (stream (W.wires r .server).sent) = some (msg, next) from hwhole]
        rfl
      exact Option.map_eq_some_iff.mpr ⟨_, hreceive, rfl⟩

/-- What happens at one end is at most one event for the programs. -/
theorem wire (h : W.Sound reader) (hpermits : W.Permits allowed (.wire r side e))
    (hstep : W.step platform depth (.wire r side e) = some W') :
    ∃ reader', Reaches (System.step platform depth) allowed (W.view reader) (W'.view reader') ∧
      W'.Sound reader' := by
  obtain ⟨hlive, hstep⟩ := Option.ite_none_right_eq_some.mp hstep
  obtain ⟨s, hs, rfl⟩ := Option.map_eq_some_iff.mp hstep
  have hallowed := hpermits reader h.follows
  have hr := hlive.lt
  have hlinked := (h.linked r).step (e := (side, e)) (Option.map_eq_some_iff.mpr ⟨s, hs, rfl⟩)
  have hsent : s.sent = (W.wires r side).sent := by
    rw [(Station.advances_of_step hs).sent, hlive.passed_eq_nil, List.append_nil]
  have hturns := Station.turns_of_step (h.follows r side) (fun he ↦ by
    subst he
    exact hlive.2.1) hs
  cases hturns with
  | quiet hqueue hopen hfollows =>
      have hsound := h.setStation hr hlinked hsent hfollows
      rw [setReader_self] at hsound
      refine ⟨reader, ?_, hsound⟩
      rw [h.quiet hr hsent hqueue hopen]
      exact .refl
  | closes hqueue hclosed =>
      have hfollows : s.Follows (reader r side) := fun hopen ↦ by
        rw [hclosed] at hopen
        cases hopen
      have hsound := h.setStation hr hlinked hsent hfollows
      rw [setReader_self] at hsound
      exact ⟨reader, closes hr hsent hqueue hclosed hallowed, hsound⟩
  | @queues msg next he hread hqueue hopen hfollows =>
      subst he
      exact ⟨setReader reader r side next, h.queues hlive hsent hread hqueue hopen hallowed,
        h.setStation hr hlinked hsent hfollows⟩

end Sound

/-- Step by step, `System` does what can be seen. -/
theorem exists_sound_of_reaches (h : Reaches (step platform depth) (Permits allowed) {} W) :
    ∃ reader, Reaches (System.step platform depth) allowed {} (W.view reader) ∧ W.Sound reader := by
  obtain ⟨S, hreaches, reader, rfl, hsound⟩ := h.simulate
    (R := fun W S ↦ ∃ reader, S = W.view reader ∧ W.Sound reader)
    ⟨fun _ _ ↦ default, rfl, sound_start⟩ (by
      rintro W e W' S ⟨reader, rfl, hsound⟩ hpermits hstep
      cases e with
      | game e =>
          obtain ⟨hsound', hgame⟩ := hsound.game hstep
          have hallowed := hpermits reader hsound.follows e (List.mem_singleton_self e)
          exact ⟨_, .single ⟨e, hallowed, hgame⟩, reader, rfl, hsound'⟩
      | wire r side e =>
          obtain ⟨reader', hreaches, hsound'⟩ := hsound.wire hpermits hstep
          exact ⟨_, hreaches, reader', rfl, hsound'⟩)
  exact ⟨reader, hreaches, hsound⟩

/-- Whatever the programs can see over the sockets, they can see in `System`, in which
messages are sent and read whole: the same server and log, the same clients, queues
and handled messages.  Conditions on the steps are those of the steps seen. -/
theorem refines (h : Reaches (step platform depth) (Permits allowed) {} W) :
    ∃ reader, Reaches (System.step platform depth) allowed {} (W.view reader) := by
  obtain ⟨reader, hreaches, -⟩ := exists_sound_of_reaches h
  exact ⟨reader, hreaches⟩

/-- A client joins over the sockets and reports a move.  The welcome comes in three pieces. -/
def welcome : List WiredEvent :=
  [.game .accept, .game (.validate 0 .plain), .wire 0 .server (.outgoing .posted),
    .wire 0 .server (.outgoing .posted), .wire 0 .client (.arrive 8),
    .wire 0 .server (.outgoing (.written 0 false)), .wire 0 .client .read,
    .wire 0 .client (.arrive 30), .wire 0 .client (.arrive 14), .wire 0 .client .read,
    .game (.handle 0), .game (.enterGame 0), .game (.frame 0), .game (.updateServer 0)]

theorem refines_welcome : ∃ W reader, run (step .x64 8) {} welcome = some W ∧
    (W.terminals 0).client.clientID = 10000 ∧
      Reaches (System.step .x64 8) (fun _ _ ↦ True) {} (W.view reader) := by
  obtain ⟨W, hrun, hid⟩ := exists_run_of_any
    (P := fun W : Wired ↦ (W.terminals 0).client.clientID == 10000)
    (show (run (step .x64 8) {} welcome).any _ = true by decide +kernel)
  obtain ⟨reader, hreaches⟩ := @refines .x64 8 W (fun _ _ ↦ True)
    ((reaches_of_run hrun).mono fun _ _ _ _ _ _ _ ↦ trivial)
  exact ⟨W, reader, hrun, by simpa using hid, hreaches⟩

end Wired

end SnekCpp
