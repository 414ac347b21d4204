import SnekCpp.Game.Departures
import SnekCpp.Game.Independence
import SnekCpp.Game.Roster

/-!
# The start of the game

The game starts when the server handles the request of a client.  Every client
that is connected hears of it, and no client believes it before the server does.
-/

namespace SnekCpp

open Lib Networking

theorem bind_ne_startGame {α : Type} {result : Except Fault α} {f : α → Except Fault Packet}
    (h : ∀ a, f a ≠ .ok .startGame) : (result >>= f) ≠ .ok .startGame := by
  cases result with
  | error fault => exact fun heq ↦ by cases heq
  | ok a => exact h a

/-- Nothing else is read as the start of the game. -/
theorem startGame_of_packetOf {platform : Platform} {msg : Msg}
    (h : packetOf platform msg = .startGame) : msg.header.id = .startGame := by
  have hdecode : Packet.decode platform msg = .ok .startGame := by
    unfold packetOf at h
    cases hresult : Packet.decode platform msg with
    | error fault =>
        rw [hresult] at h
        cases h
    | ok packet =>
        rw [hresult] at h
        exact congrArg Except.ok h
  unfold Packet.decode at hdecode
  cases hid : msg.header.id with
  | startGame => rfl
  | _ =>
      rw [hid] at hdecode
      refine absurd hdecode ?_
      repeat refine bind_ne_startGame fun _ ↦ ?_
      exact fun heq ↦ by cases heq

namespace Server

/-! ## Handlers that do not start the game -/

/-- The handler leaves `gameStarted` as it is, whether it returns or fails. -/
def KeepsStarted {α : Type} (m : ServerM α) : Prop :=
  ∀ s : Server, Ends (fun t ↦ t.gameStarted = s.gameStarted)
    (fun _ t ↦ t.gameStarted = s.gameStarted) (m.run s)

section KeepsStarted

variable {α β : Type} {platform : Platform} {env : Env} {depth : ℕ} {r : ConnRef}

theorem keepsStarted_pure (a : α) : KeepsStarted (pure a : ServerM α) := fun _ ↦ rfl

theorem keepsStarted_throw (fault : Fault) : KeepsStarted (throw fault : ServerM α) := fun _ ↦ rfl

theorem keepsStarted_get : KeepsStarted (get : ServerM Server) := fun _ ↦ rfl

theorem keepsStarted_setPlayer (id : UInt32) (player : PlayerData) :
    KeepsStarted (setPlayer id player) := fun _ ↦ rfl

theorem keepsStarted_bind {m : ServerM α} {f : α → ServerM β} (hm : KeepsStarted m)
    (hf : ∀ a, KeepsStarted (f a)) : KeepsStarted (m >>= f) :=
  fun s ↦ (hm s).bind fun a t _ ht ↦ ht ▸ hf a t

theorem keepsStarted_readMsg (result : Except Fault α) : KeepsStarted (readMsg result) := by
  cases result with
  | error fault => exact keepsStarted_throw fault
  | ok a => exact keepsStarted_pure a

theorem keepsStarted_messageAllClients (depth : ℕ) (msg : Msg) (ignoreClient : Option ConnRef) :
    KeepsStarted (messageAllClients depth msg ignoreClient) := by
  intro s
  have hends := ends_messageAllClients_of_invariant (P := fun t ↦ t.gameStarted = s.gameStarted)
    (fun _ _ h _ ↦ h) (fun _ _ h ↦ h) (fun _ _ h ↦ h) (.inl (Eq.refl msg)) depth ignoreClient rfl
  exact hends.mono (fun _ h ↦ h) fun _ _ h ↦ h.2

theorem keepsStarted_generatePowerup : KeepsStarted (generatePowerup env depth) := by
  intro s
  rcases run_generatePowerup s env depth with ⟨-, hrun⟩ | ⟨-, ⟨-, hrun⟩ | ⟨powerup, -, hrun⟩⟩
  · rw [hrun]
    exact rfl
  · rw [hrun]
    exact rfl
  · rw [hrun]
    exact keepsStarted_messageAllClients depth _ none (s.spawned powerup)

theorem keepsStarted_generatePowerups (powerupCount turns : ℕ) :
    KeepsStarted (generatePowerups env depth powerupCount turns) := by
  induction turns with
  | zero => exact keepsStarted_pure ()
  | succ turns ih =>
      apply keepsStarted_bind keepsStarted_get
      intro s
      split
      · exact keepsStarted_bind keepsStarted_generatePowerup fun _ ↦ ih
      · exact keepsStarted_pure ()

theorem keepsStarted_playerCollision (clientID : Int32) :
    KeepsStarted (playerCollision env depth clientID) := by
  intro s
  have houtcome := collision_outcome s env depth clientID
  generalize (playerCollision env depth clientID).run s = result at houtcome
  cases houtcome with
  | missed => exact rfl
  | emptyTail => exact rfl
  | killed => exact keepsStarted_messageAllClients depth _ none _

theorem keepsStarted_onPowerupEaten (msg : Msg) : KeepsStarted (onPowerupEaten env depth r msg) := by
  apply keepsStarted_bind (keepsStarted_readMsg _)
  rintro ⟨eatenPowerup, rest⟩
  apply keepsStarted_bind
  · exact fun s ↦ keepsStarted_messageAllClients depth _ (some r) (s.eaten eatenPowerup)
  · exact fun _ ↦ keepsStarted_generatePowerup

theorem keepsStarted_storeTail (id : UInt32) (turns : ℕ) (player : PlayerData) (msg : Msg) :
    KeepsStarted (storeTail id turns player msg) := by
  induction turns generalizing player msg with
  | zero => exact keepsStarted_pure ()
  | succ turns ih =>
      apply keepsStarted_bind (keepsStarted_readMsg _)
      rintro ⟨pos, rest⟩
      exact keepsStarted_bind (keepsStarted_setPlayer _ _) fun _ ↦ ih _ rest

theorem keepsStarted_onUpdatePlayer (msg : Msg) :
    KeepsStarted (onUpdatePlayer platform env depth r msg) := by
  apply keepsStarted_bind (keepsStarted_messageAllClients depth msg (some r))
  intro _
  apply keepsStarted_bind (keepsStarted_readMsg _)
  rintro ⟨clientID, afterID⟩
  apply keepsStarted_bind keepsStarted_get
  intro s
  simp only
  split
  · exact keepsStarted_throw _
  · apply keepsStarted_bind (keepsStarted_setPlayer _ _)
    intro _
    apply keepsStarted_bind (keepsStarted_readMsg _)
    rintro ⟨direction, afterDirection⟩
    apply keepsStarted_bind (keepsStarted_setPlayer _ _)
    intro _
    apply keepsStarted_bind (keepsStarted_readMsg _)
    rintro ⟨tailLength, afterLength⟩
    apply keepsStarted_bind (keepsStarted_storeTail _ _ _ _)
    exact fun _ ↦ keepsStarted_playerCollision clientID

/-- Only a request starts the game. -/
theorem keepsStarted_onMessage {msg : Msg} (hid : msg.header.id ≠ .startGame) :
    KeepsStarted (onMessage platform env depth r msg) := by
  unfold onMessage
  split
  · exact keepsStarted_onPowerupEaten msg
  · exact keepsStarted_onUpdatePlayer msg
  · contradiction
  · exact keepsStarted_pure ()

theorem keepsStarted_onClientValidated :
    KeepsStarted (onClientValidated platform env depth r) := by
  intro s
  apply ends_onClientValidated
  · exact fun _ ↦ rfl
  · intro spawnpoint _
    have hannounce : KeepsStarted (announce platform env depth r (s.getID r)
        { direction := .up, tail := [spawnpoint], color := env.color }) := by
      apply keepsStarted_bind (keepsStarted_messageAllClients depth _ (some r))
      intro _
      apply keepsStarted_bind keepsStarted_get
      exact fun _ ↦ keepsStarted_generatePowerups _ _
    exact hannounce (s.welcomed platform env r spawnpoint)

end KeepsStarted

/-! ## Whom the start has been told -/

variable {platform : Platform} {env : Env} {depth : ℕ} {s s' : Server} {refs refs' : List ConnRef}
  {said msg : Msg} {r : ConnRef} {started : Prop}

/-- A handler tells nobody of the start, unless it relays a request. -/
theorem Extends.startGame (h : Extends said s s') (hmem : .startGame ∈ s'.news platform r) :
    .startGame ∈ s.news platform r ∨ said.header.id = .startGame := by
  obtain ⟨effects, hlog, hspeaks⟩ := h.log
  rw [news, hlog, sentTo_append, List.map_append] at hmem
  rcases List.mem_append.mp hmem with hold | hnew
  · exact .inl hold
  · obtain ⟨m, hm, hpacket⟩ := List.mem_map.mp hnew
    have hid := startGame_of_packetOf hpacket
    rcases hspeaks _ (mem_sentTo.mp hm) with rfl | hplain
    · exact .inr hid
    · cases hplain <;> cases hid

theorem startGame_welcomed {spawnpoint : Position} {r' : ConnRef}
    (hmem : .startGame ∈ (s.welcomed platform env r spawnpoint).news platform r') :
    .startGame ∈ s.news platform r' := by
  rw [news_welcomed] at hmem
  rcases List.mem_append.mp hmem with hold | hnew
  · exact hold
  · split at hnew
    · have hid := startGame_of_packetOf (List.mem_singleton.mp hnew).symm
      rw [snapshotMsg, Packet.header_id_stateMsg] at hid
      cases hid
    · cases hnew

theorem startGame_onClientValidated {r' : ConnRef}
    (hmem : .startGame ∈
      (after ((onClientValidated platform env depth r).run s)).news platform r') :
    .startGame ∈ s.news platform r' := by
  cases hspawn : s.spawnpoints.getLast? with
  | none =>
      rw [run_onClientValidated_none platform hspawn] at hmem
      simpa [after, news_logged, sentTo] using hmem
  | some spawnpoint =>
      rw [run_onClientValidated platform hspawn] at hmem
      have hextends := only_announce platform env depth r (s.getID r)
        { direction := .up, tail := [spawnpoint], color := env.color }
        (s.welcomed platform env r spawnpoint)
      rcases Extends.startGame hextends hmem with hwelcomed | hid
      · exact startGame_welcomed hwelcomed
      · cases hid

/-- The open connections are in the list, and once the game has started all of
the list have been told. -/
structure Tells (platform : Platform) (started : Prop) (s : Server) (refs : List ConnRef) : Prop
    extends s.Enrolled refs where
  opens : ∀ r, s.isConnected r = true → r ∈ refs
  told : started → ∀ r ∈ refs, .startGame ∈ s.news platform r

namespace Tells

theorem of_news (h : s.Tells platform started refs) (henrolled : s'.Enrolled refs')
    (hopens : ∀ r, s'.isConnected r = true → r ∈ refs') (hrefs : ∀ r ∈ refs', r ∈ refs)
    (hnews : ∀ r, ∃ fresh, s'.news platform r = s.news platform r ++ fresh) :
    s'.Tells platform started refs' := by
  refine ⟨henrolled, hopens, fun hstarted r hr ↦ ?_⟩
  obtain ⟨fresh, hfresh⟩ := hnews r
  rw [hfresh]
  exact List.mem_append_left _ (h.told hstarted r (hrefs r hr))

theorem logged (h : s.Tells platform started refs) (effects : List Effect) :
    (s.logged effects).Tells platform started refs :=
  h.of_news (h.toEnrolled.fields rfl rfl) h.opens (fun _ hr ↦ hr)
    fun r ↦ ⟨_, news_logged platform s effects r⟩

theorem opens_told {ignoreClient : Option ConnRef} (h : s.Tells platform started refs)
    (htold : Told s refs msg ignoreClient s' refs') (hr : s'.isConnected r = true) : r ∈ refs' := by
  rw [htold.extends_.isConnected] at hr
  have hmem := h.opens r hr
  cases htold with
  | delivered => exact hmem
  | departed hrefs _ hclosed =>
      rw [hrefs] at hmem
      exact mem_others hmem fun heq ↦ hclosed (heq ▸ hr)

theorem tell {ignoreClient : Option ConnRef} (h : s.Tells platform started refs)
    (htold : Told s refs msg ignoreClient s' refs') : s'.Tells platform started refs' := by
  refine h.of_news (htold.enrolled h.toEnrolled) (fun r ↦ h.opens_told htold)
    (fun r ↦ htold.mem_of_told) fun r ↦ ?_
  obtain ⟨fresh, hnews, -⟩ := @Told.news platform _ _ _ _ _ _ htold h.nodup r
  exact ⟨fresh, hnews⟩

/-- The relay of a request reaches all that are left. -/
theorem start (h : s.Tells platform started refs) (hid : msg.header.id = .startGame)
    (htold : Told s refs msg none s' refs') : s'.Tells platform True refs' := by
  refine ⟨htold.enrolled h.toEnrolled, fun r ↦ h.opens_told htold, fun _ r hr ↦ ?_⟩
  obtain ⟨before, after, hnews, -⟩ := @Told.once platform _ _ _ _ _ _ htold h.nodup r
  have haddressed : r ∈ addressed none refs' := mem_addressed.mpr ⟨hr, by simp⟩
  rw [hnews, if_pos haddressed, packetOf_startGame hid]
  simp

theorem robust (platform : Platform) (started : Prop) :
    Robust (Tells platform started) fun _ _ ↦ True where
  listed h := h.toListed
  fields h _ _ _ := ⟨h.toEnrolled.fields rfl rfl, h.opens, h.told⟩
  logged h effects _ := h.logged effects
  told h htold := h.tell htold
  insert h _ _ := ⟨h.toEnrolled.fields rfl rfl, h.opens, h.told⟩
  fault _ _ _ := trivial

theorem ends_onClientValidated (h : s.Tells platform started refs) :
    Ends (fun s' ↦ ∃ refs', s'.Tells platform started refs') (fun _ _ ↦ True)
      ((onClientValidated platform env depth r).run s) := by
  apply Server.ends_onClientValidated
  · exact fun _ ↦ trivial
  · intro spawnpoint _
    have hwelcomed : (s.welcomed platform env r spawnpoint).Tells platform started refs :=
      h.of_news (h.toEnrolled.fields rfl rfl) h.opens (fun _ hr ↦ hr) fun _ ↦ ⟨_, news_welcomed⟩
    exact (robust platform started).announce hwelcomed env depth r _ _

theorem ends_startGame (h : s.Tells platform started refs) (hid : msg.header.id = .startGame) :
    Ends (fun s' ↦ ∃ refs', s'.Tells platform True refs') (fun _ _ ↦ True)
      ((onMessage platform env depth r msg).run s) := by
  rw [run_onMessage_startGame s hid]
  have hstarted := (robust platform started).fields h s.powerups true s.m_qMessagesIn
  apply ends_messageAllClients hstarted.toListed
  · exact fun s' refs' htold ↦ ⟨refs', hstarted.start hid htold⟩
  · exact fun _ _ ↦ trivial

theorem onAccept (h : s.Tells platform (s.gameStarted = true) refs) :
    ∃ refs', s.onAccept.Tells platform (s.onAccept.gameStarted = true) refs' := by
  cases haccept : s.onClientConnect with
  | false =>
      refine ⟨refs, ?_⟩
      rwa [Server.onAccept, haccept, if_neg (by simp)]
  | true =>
      have hnew : s.gameStarted = false := by
        unfold onClientConnect at haccept
        split at haccept
        · simpa using haccept
        · cases haccept
      have henrolled := h.toEnrolled.onAccept haccept
      unfold Server.onAccept at henrolled ⊢
      rw [if_pos haccept] at henrolled ⊢
      refine ⟨_, henrolled, fun r hr ↦ ?_, fun hstarted ↦ ?_⟩
      · by_cases heq : r = s.approved
        · exact List.mem_append_right _ (List.mem_singleton.mpr heq)
        · exact List.mem_append_left _ (h.opens r (by simpa [heq] using hr))
      · rw [show s.gameStarted = true from hstarted] at hnew
        cases hnew

end Tells

theorem gameStarted_onAccept (s : Server) : s.onAccept.gameStarted = s.gameStarted := by
  unfold Server.onAccept
  split <;> rfl

/-- A handler that does not start the game leaves those told who have been. -/
theorem KeepsStarted.ends {α : Type} {m : ServerM α} (hkeeps : KeepsStarted m)
    (h : Ends (fun s' ↦ ∃ refs', s'.Tells platform (s.gameStarted = true) refs') (fun _ _ ↦ True)
      (m.run s)) :
    Ends (fun s' ↦ ∃ refs', s'.Tells platform (s'.gameStarted = true) refs') (fun _ _ ↦ True)
      (m.run s) := by
  have hsame := hkeeps s
  cases hrun : m.run s with
  | ok a t =>
      rw [hrun] at h hsame
      rwa [Ends, show t.gameStarted = s.gameStarted from hsame]
  | error fault t => exact trivial

theorem Tells.ends_onMessage (h : s.Tells platform (s.gameStarted = true) refs) :
    Ends (fun s' ↦ ∃ refs', s'.Tells platform (s'.gameStarted = true) refs') (fun _ _ ↦ True)
      ((onMessage platform env depth r msg).run s) := by
  by_cases hid : msg.header.id = .startGame
  · refine (h.ends_startGame hid).mono ?_ fun _ _ h ↦ h
    rintro s' ⟨refs', htells⟩
    exact ⟨refs', htells.toEnrolled, htells.opens, fun _ ↦ htells.told trivial⟩
  · apply (keepsStarted_onMessage hid).ends
    exact (robust platform _).onMessage h env depth r msg fun _ _ _ _ _ _ _ _ _ _ _ _ _ _ _ _ ↦
      trivial

end Server

/-! ## Runs -/

namespace System

/-- A client has asked for the start. -/
def Asked (S : System) (r : ConnRef) : Prop := ∃ msg ∈ (S.peers r).sent, msg.header.id = .startGame

/-- Who has asked for the start of the game, and who has been told of it. -/
structure Started (platform : Platform) (S : System) : Prop where
  only : ∀ r, .startGame ∈ S.server.news platform r → S.server.gameStarted = true
  queued : ∀ r msg, (r, msg) ∈ S.server.m_qMessagesIn → msg.header.id = .startGame → S.Asked r
  cause : S.server.gameStarted = true → ∃ r, S.server.Validated r ∧ S.Asked r
  told : S.fault = none →
    ∃ refs, S.server.Tells platform (S.server.gameStarted = true) refs

variable {platform : Platform} {depth : ℕ} {S S' : System} {e : Event} {r : ConnRef}

theorem Asked.of_sent {T : System} (h : S.Asked r) (hsent : (S.peers r).sent <+: (T.peers r).sent) :
    T.Asked r := by
  obtain ⟨msg, hmsg, hid⟩ := h
  exact ⟨msg, hsent.subset hmsg, hid⟩

namespace Started

theorem init (platform : Platform) : Started platform {} where
  only r h := by cases h
  queued r msg h := by cases h
  cause h := by cases h
  told _ := ⟨[], Server.enrolled_init, fun r h ↦ (by cases h), fun h ↦ (by cases h)⟩

/-- A step of a client: it may have sent more. -/
theorem setPeer (h : Started platform S) {peer : Peer} (hsent : (S.peers r).sent <+: peer.sent) :
    Started platform (S.setPeer r peer) := by
  have hasked : ∀ r', S.Asked r' → (S.setPeer r peer).Asked r' := by
    intro r' h
    apply h.of_sent
    exact @forall_setPeer S r peer (fun r' peer ↦ (S.peers r').sent <+: peer.sent) hsent
      (fun _ _ ↦ List.prefix_rfl) r'
  refine ⟨h.only, fun r' msg hmem hid ↦ hasked r' (h.queued r' msg hmem hid), fun hstarted ↦ ?_,
    h.told⟩
  obtain ⟨r', hvalidated, hr'⟩ := h.cause hstarted
  exact ⟨r', hvalidated, hasked r' hr'⟩

/-- A handler of the server that starts the game only when it has been asked to. -/
theorem serve (h : Started platform S) {handler : ServerM Unit}
    (hlog : S.server.log <+: (S.serve handler).server.log)
    (hqueue : (S.serve handler).server.m_qMessagesIn = S.server.m_qMessagesIn)
    (honly : ∀ r, .startGame ∈ (S.serve handler).server.news platform r →
      (S.serve handler).server.gameStarted = true)
    (hcause : (S.serve handler).server.gameStarted = true →
      ∃ r, S.server.Validated r ∧ S.Asked r)
    (htold : ∀ refs, S.server.Tells platform (S.server.gameStarted = true) refs →
      Server.Ends (fun s' ↦ ∃ refs', s'.Tells platform (s'.gameStarted = true) refs')
        (fun _ _ ↦ True) (handler.run S.server)) :
    Started platform (S.serve handler) := by
  have hpeers : (S.serve handler).peers = S.peers := peers_serve S handler
  have hasked : ∀ r, S.Asked r → (S.serve handler).Asked r := by
    intro r h
    apply h.of_sent
    rw [hpeers]
  refine ⟨honly, fun r msg hmem hid ↦ ?_, fun hstarted ↦ ?_, fun hup ↦ ?_⟩
  · rw [hqueue] at hmem
    exact hasked r (h.queued r msg hmem hid)
  · obtain ⟨r, hvalidated, hr⟩ := hcause hstarted
    exact ⟨r, hlog.subset hvalidated, hasked r hr⟩
  · unfold System.serve at hup ⊢
    cases hrun : handler.run S.server with
    | ok u server =>
        rw [hrun] at hup
        obtain ⟨refs, htells⟩ := h.told hup
        have hends := htold refs htells
        rw [hrun] at hends
        exact hends
    | error fault server =>
        rw [hrun] at hup
        cases hup

theorem validate (h : Started platform S) {env : Env} :
    Started platform (S.serve (Server.onClientValidated platform env depth r)) := by
  have hkeeps : (S.serve (Server.onClientValidated platform env depth r)).server.gameStarted =
      S.server.gameStarted := by
    rw [server_serve]
    exact (Server.keepsStarted_onClientValidated S.server).after
  apply h.serve
  · exact exists_log_serve (Server.exists_log_onClientValidated ..)
  · rw [server_serve]
    exact (Server.untouched_onClientValidated platform env depth r S.server).queue
  · intro r' hmem
    rw [hkeeps]
    rw [server_serve] at hmem
    exact h.only r' (Server.startGame_onClientValidated hmem)
  · rw [hkeeps]
    exact h.cause
  · intro refs htells
    exact Server.keepsStarted_onClientValidated.ends htells.ends_onClientValidated

theorem onMessage (h : Started platform S) {env : Env} {msg : Msg}
    (hvalidated : S.server.Validated r) (hasked : msg.header.id = .startGame → S.Asked r) :
    Started platform (S.serve (Server.onMessage platform env depth r msg)) := by
  have hextends : Server.Extends msg S.server
      (S.serve (Server.onMessage platform env depth r msg)).server := by
    rw [server_serve]
    exact Server.only_onMessage platform env depth r msg S.server
  have hstarts : msg.header.id = .startGame →
      (S.serve (Server.onMessage platform env depth r msg)).server.gameStarted = true := by
    intro hid
    rw [server_serve, Server.run_onMessage_startGame S.server hid]
    have hrelay : Server.Extends msg { S.server with gameStarted := true } _ :=
      Server.only_messageAllClients (.inl rfl) depth none { S.server with gameStarted := true }
    exact hrelay.started rfl
  apply h.serve
  · obtain ⟨effects, hlog, -⟩ := hextends.log
    exact ⟨effects, hlog.symm⟩
  · exact hextends.queue
  · intro r' hmem
    rcases hextends.startGame hmem with hold | hid
    · exact hextends.started (h.only r' hold)
    · exact hstarts hid
  · intro hstarted
    by_cases hid : msg.header.id = .startGame
    · exact ⟨r, hvalidated, hasked hid⟩
    · apply h.cause
      rw [server_serve] at hstarted
      exact (Server.keepsStarted_onMessage hid S.server).after.symm.trans hstarted
  · exact fun refs htells ↦ htells.ends_onMessage

theorem step (h : Started platform S) (hsound : Sound platform S)
    (hframed : Framed platform S e) (hstep : S.step platform depth e = some S') :
    Started platform S' := by
  cases hpeer : e.peer with
  | some r =>
      rw [step_of_peer hpeer] at hstep
      obtain ⟨next, hnext, rfl⟩ := Option.map_eq_some_iff.mp hstep
      exact h.setPeer (sent_prefix_of_stepPeer hnext)
  | none =>
      cases moves_of_step hstep with
      | accept hup =>
          have hsame : S.server.onAccept.gameStarted = S.server.gameStarted :=
            S.server.gameStarted_onAccept
          refine ⟨fun r hmem ↦ ?_, fun r msg hmem ↦ ?_, fun hstarted ↦ ?_, fun hup ↦ ?_⟩
          · rw [Server.news_congr platform S.server.log_onAccept] at hmem
            exact hsame.trans (h.only r hmem)
          · rw [S.server.queue_onAccept] at hmem
            exact h.queued r msg hmem
          · obtain ⟨r, hvalidated, hr⟩ := h.cause (hsame.symm.trans hstarted)
            refine ⟨r, ?_, hr⟩
            rwa [Server.Validated, S.server.log_onAccept]
          · obtain ⟨refs, htells⟩ := h.told hup
            exact htells.onAccept
      | validate => exact h.validate
      | @close r _ =>
          refine ⟨h.only, h.queued, h.cause, fun hup ↦ ?_⟩
          obtain ⟨refs, htells⟩ := h.told hup
          refine ⟨refs, htells.toEnrolled.fields rfl rfl, fun r' hr' ↦ ?_, htells.told⟩
          by_cases heq : r' = r
          · simp [heq] at hr'
          · exact htells.opens r' (by simpa [heq] using hr')
      | @read r msg reader _ _ _ hread =>
          obtain ⟨rest, hunread, -⟩ := hsound.read_cases hframed hread
          have hsent : msg ∈ (S.peers r).sent := by
            have hmem : msg ∈ (S.readers r).unread (S.peers r).sent := by simp [hunread]
            exact List.mem_of_mem_drop hmem
          refine ⟨h.only, fun r' msg' hmem hid ↦ ?_, h.cause, fun hup ↦ ?_⟩
          · rcases List.mem_append.mp hmem with hmem | hmem
            · exact h.queued r' msg' hmem hid
            · rw [List.mem_singleton, Prod.mk.injEq] at hmem
              obtain ⟨rfl, rfl⟩ := hmem
              exact ⟨msg', hsent, hid⟩
          · obtain ⟨refs, htells⟩ := h.told hup
            exact ⟨refs, (Server.Tells.robust platform _).fields htells _ _ _⟩
      | @update env r msg rest _ hqueue =>
          have hmem : (r, msg) ∈ S.server.m_qMessagesIn := by
            rw [hqueue]
            exact List.mem_cons_self ..
          have hpopped : Started platform { S with server.m_qMessagesIn := rest } := by
            refine ⟨h.only, fun r' msg' hmem' ↦ ?_, h.cause, fun hup ↦ ?_⟩
            · apply h.queued r' msg'
              rw [hqueue]
              exact List.mem_cons_of_mem _ hmem'
            · obtain ⟨refs, htells⟩ := h.told hup
              exact ⟨refs, (Server.Tells.robust platform _).fields htells _ _ _⟩
          exact hpopped.onMessage (hsound.queued r msg hmem).1 (h.queued r msg hmem)
      | _ => cases hpeer

theorem of_reaches (h : Reaches (System.step platform depth) (Framed platform) {} S) :
    Started platform S := by
  refine (h.invariant (I := fun S ↦ Sound platform S ∧ Started platform S)
    ⟨.start platform, .init platform⟩ ?_).2
  rintro S e S' ⟨hsound, hstarted⟩ hframed hstep
  exact ⟨hsound.step hframed hstep, hstarted.step hsound hframed hstep⟩

end Started

end System

namespace SnakeClient

variable {platform : Platform} {client client' : SnakeClient}

theorem gameStarted_frame {msg : Option Msg} (h : client.frame = .ok (client', msg)) :
    client'.gameStarted = client.gameStarted := by
  obtain ⟨players, -, hcheck⟩ := frame_cases h
  cases hcheck <;> rfl

theorem gameStarted_steer (client : SnakeClient) (pressed : Bool) (opposite direction : Direction) :
    (client.steer pressed opposite direction).gameStarted = client.gameStarted := by
  rcases steer_cases client pressed opposite direction with heq | ⟨player, players, -, heq | heq⟩
  · rw [heq]
  · rw [heq]
  · rw [heq]

theorem gameStarted_keyCallback {key : Key} {press : Bool} {msg : Option Msg}
    (h : client.keyCallback key press = (client', msg)) :
    client'.gameStarted = client.gameStarted := by
  unfold keyCallback at h
  split at h
  · cases h
    rfl
  · cases h
    simp only [gameStarted_steer]

/-- A client believes that the game has started when it has been told. -/
theorem started_rules (platform : Platform) :
    PlayRules platform fun packets client ↦ client.gameStarted = true ↔ .startGame ∈ packets where
  start := by simp
  frame h hframe := by rwa [gameStarted_frame hframe]
  updateServer h hupdate := by
    cases hupdate
    exact h
  keyCallback h hkey := by rwa [gameStarted_keyCallback hkey]
  handle h packet := by
    rw [List.mem_append, List.mem_singleton, ← h]
    cases packet <;> simp [SnakeClient.handlePacket]

end SnakeClient

namespace System

variable {platform : Platform} {depth : ℕ} {S : System}

/-- The clients and the server agree on the start of the game. -/
structure AgreesOnStart (S : System) : Prop where
  /-- No client believes in it before the server does. -/
  believed : ∀ r, (S.peers r).client.gameStarted = true → S.server.gameStarted = true
  /-- The server has been asked by a player. -/
  asked : S.server.gameStarted = true → ∃ r, S.server.Validated r ∧ S.Asked r
  /-- A client that is connected and has handled all that was sent to it knows. -/
  known : S.fault = none → ∀ r, S.server.isConnected r = true → S.Drained r →
    ((S.peers r).client.gameStarted = true ↔ S.server.gameStarted = true)

theorem agreesOnStart_of_reaches
    (h : Reaches (System.step platform depth) (Framed platform) {} S) : S.AgreesOnStart := by
  have hstarted := Started.of_reaches h
  have hsound := Sound.of_reaches h
  have hclient : ∀ r, (S.peers r).client.gameStarted = true ↔
      .startGame ∈ (S.peers r).learnt platform :=
    (SnakeClient.started_rules platform).of_reaches h
  refine ⟨fun r hbelieves ↦ ?_, hstarted.cause, fun hup r hopen hdrained ↦ ?_⟩
  · obtain ⟨rest, hnews⟩ := (hsound.streams r).exists_learnt_append
    apply hstarted.only r
    rw [Server.news_eq, hnews]
    exact List.mem_append_left _ ((hclient r).mp hbelieves)
  · have hlearnt : (S.peers r).learnt platform = S.server.news platform r :=
      (hsound.streams r).learnt_eq hdrained.queue hdrained.stream
    rw [hclient r, hlearnt]
    obtain ⟨refs, htells⟩ := hstarted.told hup
    exact ⟨hstarted.only r, fun h ↦ htells.told h r (htells.opens r hopen)⟩

/-- The first client asks for the start, and both hear of it. -/
def bothStart : List Event :=
  bothJoin ++ [.key 0 .p true, .read 0, .update .plain, .frame 0, .receive 0, .handle 0, .frame 1,
    .receive 1, .handle 1]

theorem agreesOnStart_bothStart :
    ∃ S, run (guarded (System.step .x64 8) (Framed .x64)) {} bothStart = some S ∧
      S.fault = none ∧ S.server.isConnected 1 = true ∧ S.Drained 1 ∧
        S.server.gameStarted = true ∧ S.AgreesOnStart := by
  obtain ⟨S, hrun, hcheck⟩ := exists_run_of_any
    (P := fun S : System ↦ decide (S.fault = none ∧ S.server.isConnected 1 = true ∧
      S.Drained 1 ∧ S.server.gameStarted = true))
    (show (run (guarded (System.step .x64 8) (Framed .x64)) {} bothStart).any _ = true by
      decide +kernel)
  obtain ⟨hup, hopen, hdrained, hstarted⟩ := of_decide_eq_true hcheck
  exact ⟨S, hrun, hup, hopen, hdrained, hstarted, agreesOnStart_of_reaches (reaches_of_guarded hrun)⟩

end System

end SnekCpp
