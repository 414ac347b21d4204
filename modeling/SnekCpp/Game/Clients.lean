import SnekCpp.Game.News
import SnekCpp.Game.Sound

/-!
# What a client knows

A client has handled a prefix of the packets that the server has sent to it.
What it knows of them is changed by the next packet and by what it does on its
own, and by nothing else.
-/

namespace SnekCpp

open Lib Networking

variable {platform : Platform}

/-- The packets that a client has handled. -/
def Peer.learnt (platform : Platform) (peer : Peer) : List Packet :=
  peer.handled.map (packetOf platform)

theorem Server.news_eq (s : Server) (r : ConnRef) :
    s.news platform r = (sentTo s.log r).map (packetOf platform) := rfl

theorem map_packetOf (msgs : List Msg) :
    msgs.map (packetOf platform) =
      (msgs.map (Packet.decode platform)).map fun result ↦ result.toOption.getD .unnamed := by
  rw [List.map_map]
  rfl

namespace InStream

variable {toClient : List Msg} {peer : Peer}

theorem learnt_append (h : InStream platform toClient peer) :
    peer.learnt platform ++ peer.m_qMessagesIn.map (packetOf platform) =
      (toClient.map (packetOf platform)).take peer.reader.frames := by
  rw [Peer.learnt, ← List.map_append, map_packetOf, h.received, ← map_packetOf, List.map_take]

/-- The client has handled a prefix of what was sent to it. -/
theorem exists_learnt_append (h : InStream platform toClient peer) :
    ∃ rest, toClient.map (packetOf platform) =
      peer.learnt platform ++ (peer.m_qMessagesIn.map (packetOf platform) ++ rest) := by
  refine ⟨(toClient.map (packetOf platform)).drop peer.reader.frames, ?_⟩
  rw [← List.append_assoc, h.learnt_append, List.take_append_drop]

end InStream

@[simp] theorem Peer.client_send (peer : Peer) (msg : Msg) :
    (peer.send msg).client = peer.client := by
  unfold Peer.send
  split <;> rfl

@[simp] theorem Peer.handled_send (peer : Peer) (msg : Msg) :
    (peer.send msg).handled = peer.handled := by
  unfold Peer.send
  split <;> rfl

@[simp] theorem Peer.client_sendAny (peer : Peer) (msg : Option Msg) :
    (peer.sendAny msg).client = peer.client := by
  cases msg with
  | none => rfl
  | some m => exact peer.client_send m

@[simp] theorem Peer.handled_sendAny (peer : Peer) (msg : Option Msg) :
    (peer.sendAny msg).handled = peer.handled := by
  cases msg with
  | none => rfl
  | some m => exact peer.handled_send m

/-- `C` holds of what a client has handled and of its state, provided that `N`
holds of the news it gets. -/
structure ClientRules (platform : Platform) (N : ConnRef → List Packet → Prop)
    (C : ConnRef → List Packet → SnakeClient → Prop) : Prop where
  start : ∀ r, C r [] {}
  plays : ∀ {r packets client client'}, C r packets client → 0 ≤ client.clientID →
    client.Plays client' → C r packets client'
  handle : ∀ {r packets packet rest client}, C r packets client → N r (packets ++ packet :: rest) →
    (∃ msg, Addressed platform r msg packet) →
    (client.clientID = -1 ∨ client.clientID.toUInt32 = idOf r) →
      C r (packets ++ [packet]) (client.handlePacket packet)

namespace ClientRules

variable {depth : ℕ} {N : ConnRef → List Packet → Prop}
  {C : ConnRef → List Packet → SnakeClient → Prop} {S S' : System}

theorem handleNext (rules : ClientRules platform N C) (hsound : Sound platform S) {r : ConnRef}
    (hnews : N r (S.server.news platform r))
    (h : C r ((S.peers r).learnt platform) (S.peers r).client) {msg : Msg} {rest : List Msg}
    {client : SnakeClient} (hqueue : (S.peers r).m_qMessagesIn = msg :: rest)
    (hhandle : (S.peers r).client.handleMessage platform msg = .ok client) :
    C r ((S.peers r).learnt platform ++ [packetOf platform msg]) client := by
  obtain ⟨packet, hdecode, rfl⟩ := SnakeClient.handleMessage_cases hhandle
  obtain ⟨next, hpacket⟩ := hsound.exists_addressed hqueue hdecode
  have hsame : packetOf platform msg = packet := by
    rw [packetOf, hdecode]
    rfl
  obtain ⟨more, hmore⟩ := (hsound.streams r).exists_learnt_append
  rw [hqueue, List.map_cons, List.cons_append, hsame, ← Server.news_eq] at hmore
  rw [hsame]
  rw [hmore] at hnews
  exact rules.handle h hnews ⟨next, hpacket⟩ (hsound.knowIDs r).clientID

theorem step (rules : ClientRules platform N C) (hsound : Sound platform S)
    (hnews : ∀ r, N r (S.server.news platform r))
    (h : ∀ r, C r ((S.peers r).learnt platform) (S.peers r).client) {e : Event}
    (hstep : S.step platform depth e = some S') (r : ConnRef) :
    C r ((S'.peers r).learnt platform) (S'.peers r).client := by
  -- Every step of a client replaces one peer, by one for which `C` holds.
  have hset : ∀ r' peer, C r' (peer.learnt platform) peer.client →
      C r (((S.setPeer r' peer).peers r).learnt platform) ((S.setPeer r' peer).peers r).client := by
    intro r' peer hpeer
    exact @System.forall_setPeer S r' peer (fun r peer ↦ C r (peer.learnt platform) peer.client)
      hpeer (fun other _ ↦ h other) r
  cases System.moves_of_step hstep with
  | accept => exact h r
  | validate => simpa using h r
  | close => exact h r
  | read => exact h r
  | update => simpa using h r
  | hangUp r' => exact hset r' _ (h r')
  | @receive r' => exact hset r' _ (h r')
  | @handle r' msg rest client hqueue _ hhandle =>
      apply hset
      have hnext := rules.handleNext hsound (hnews r') (h r') hqueue hhandle
      simpa [Peer.learnt] using hnext
  | @enterGame r' => exact hset r' _ (h r')
  | @frame r' client msg hphase hframe =>
      apply hset
      have hplaying := (hsound.knowIDs r').playing (by simp [hphase])
      simpa [Peer.learnt] using rules.plays (h r') hplaying (.frame hframe)
  | @updateServer r' client msg hphase hupdate =>
      apply hset
      have hplaying := (hsound.knowIDs r').playing (by simp [hphase])
      simpa [Peer.learnt] using rules.plays (h r') hplaying (.updateServer hupdate)
  | @key r' key press client msg hphase hkey =>
      apply hset
      have hplaying := (hsound.knowIDs r').playing (by simp [hphase])
      simpa [Peer.learnt] using rules.plays (h r') hplaying (.keyCallback hkey)

/-- What clients know in every run of allowed events. -/
theorem of_reaches (rules : ClientRules platform N C) {allowed : System → Event → Prop}
    (hframed : ∀ S e, allowed S e → Framed platform S e)
    (hnews : ∀ S, Reaches (System.step platform depth) allowed {} S →
      ∀ r, N r (S.server.news platform r))
    (h : Reaches (System.step platform depth) allowed {} S) (r : ConnRef) :
    C r ((S.peers r).learnt platform) (S.peers r).client := by
  induction h generalizing r with
  | refl => exact rules.start r
  | tail hpast hstep ih =>
      obtain ⟨e, hallowed, hnext⟩ := hstep
      have hsound := Sound.of_reaches (Reaches.mono hpast hframed)
      exact rules.step hsound (hnews _ hpast) ih hnext r

end ClientRules

/-- `C` holds of what a client has handled and of its state, whatever it gets. -/
structure PlayRules (platform : Platform) (C : List Packet → SnakeClient → Prop) : Prop where
  start : C [] {}
  frame : ∀ {packets client client' msg}, C packets client →
    client.frame = .ok (client', msg) → C packets client'
  updateServer : ∀ {packets client client' msg}, C packets client →
    client.updateServer platform = (client', msg) → C packets client'
  keyCallback : ∀ {packets client client' key press msg}, C packets client →
    client.keyCallback key press = (client', msg) → C packets client'
  handle : ∀ {packets client}, C packets client → ∀ packet,
    C (packets ++ [packet]) (client.handlePacket packet)

/-- What clients know in any run. -/
theorem PlayRules.of_reaches {C : List Packet → SnakeClient → Prop}
    (rules : PlayRules platform C) {depth : ℕ} {allowed : System → Event → Prop} {S : System}
    (h : Reaches (System.step platform depth) allowed {} S) (r : ConnRef) :
    C ((S.peers r).learnt platform) (S.peers r).client := by
  induction h generalizing r with
  | refl => exact rules.start
  | @tail S S' _ hstep ih =>
      obtain ⟨e, -, hnext⟩ := hstep
      have hset : ∀ r' peer, C (peer.learnt platform) peer.client →
          C (((S.setPeer r' peer).peers r).learnt platform) ((S.setPeer r' peer).peers r).client := by
        intro r' peer hpeer
        exact @System.forall_setPeer S r' peer (fun _ peer ↦ C (peer.learnt platform) peer.client)
          hpeer (fun other _ ↦ ih other) r
      cases System.moves_of_step hnext with
      | accept => exact ih r
      | validate => simpa using ih r
      | close => exact ih r
      | read => exact ih r
      | update => simpa using ih r
      | hangUp r' => exact hset r' _ (ih r')
      | @receive r' => exact hset r' _ (ih r')
      | @handle r' msg rest client hqueue _ hhandle =>
          obtain ⟨packet, hdecode, rfl⟩ := SnakeClient.handleMessage_cases hhandle
          apply hset
          have hpacket : packetOf platform msg = packet := by
            rw [packetOf, hdecode]
            rfl
          simpa [Peer.learnt, hpacket] using rules.handle (ih r') packet
      | enterGame => exact hset _ _ (ih _)
      | @frame r' client msg _ hframe =>
          apply hset
          simpa [Peer.learnt] using rules.frame (ih r') hframe
      | @updateServer r' client msg _ hupdate =>
          apply hset
          simpa [Peer.learnt] using rules.updateServer (ih r') hupdate
      | @key r' key press client msg _ hkey =>
          apply hset
          simpa [Peer.learnt] using rules.keyCallback (ih r') hkey

end SnekCpp
