import SnekCpp.SnekServer.Snapshot

/-!
# What a handler leaves alone

No handler of the server touches the connections' ids, their sockets, the queue
of messages or, after the welcome of a client, the spawnpoints, none takes back
the start of the game, and what it does is appended to the log.
-/

namespace SnekCpp.Server

open Lib Networking

/-- The messages that the server builds without looking at a player. -/
inductive Plain : Msg → Prop
  | removePlayer (id : Int32) : Plain (removePlayerMsg id)
  | newPowerup (powerup : PowerupData) : Plain (newPowerupMsg powerup)
  | powerupEaten (powerup : PowerupData) : Plain (powerupEatenMsg powerup)
  | killPlayer (id : Int32) : Plain (killPlayerMsg id)

/-- Effects of a handler that sends `said` and plain messages. -/
def Speaks (said : Msg) : Effect → Prop
  | .sent _ msg => msg = said ∨ Plain msg
  | .validated _ => False
  | _ => True

structure Extends (said : Msg) (s s' : Server) : Prop where
  getID : s'.getID = s.getID
  isConnected : s'.isConnected = s.isConnected
  IDCounter : s'.IDCounter = s.IDCounter
  approved : s'.approved = s.approved
  queue : s'.m_qMessagesIn = s.m_qMessagesIn
  spawnpoints : s'.spawnpoints = s.spawnpoints
  started : s.gameStarted = true → s'.gameStarted = true
  log : ∃ effects, s'.log = s.log ++ effects ∧ ∀ e ∈ effects, Speaks said e

namespace Extends

variable {said : Msg} {s t u : Server}

theorem of_state (hgetID : t.getID = s.getID) (hisConnected : t.isConnected = s.isConnected)
    (hIDCounter : t.IDCounter = s.IDCounter) (happroved : t.approved = s.approved)
    (hqueue : t.m_qMessagesIn = s.m_qMessagesIn) (hspawnpoints : t.spawnpoints = s.spawnpoints)
    (hstarted : s.gameStarted = true → t.gameStarted = true) (hlog : t.log = s.log) :
    Extends said s t :=
  ⟨hgetID, hisConnected, hIDCounter, happroved, hqueue, hspawnpoints, hstarted, [],
    by simp [hlog], by simp⟩

theorem refl (said : Msg) (s : Server) : Extends said s s :=
  of_state rfl rfl rfl rfl rfl rfl id rfl

theorem trans (h : Extends said s t) (h' : Extends said t u) : Extends said s u := by
  obtain ⟨first, hfirst, hsaidFirst⟩ := h.log
  obtain ⟨second, hsecond, hsaidSecond⟩ := h'.log
  refine ⟨h'.getID.trans h.getID, h'.isConnected.trans h.isConnected,
    h'.IDCounter.trans h.IDCounter, h'.approved.trans h.approved, h'.queue.trans h.queue,
    h'.spawnpoints.trans h.spawnpoints, fun hstarted ↦ h'.started (h.started hstarted),
    first ++ second, ?_, ?_⟩
  · rw [hsecond, hfirst, List.append_assoc]
  · intro e he
    rcases List.mem_append.mp he with he | he
    · exact hsaidFirst e he
    · exact hsaidSecond e he

theorem validated_iff (h : Extends said s t) (r : ConnRef) : t.Validated r ↔ s.Validated r := by
  obtain ⟨effects, hlog, hsaid⟩ := h.log
  have hnot : .validated r ∉ effects := fun hmem ↦ hsaid _ hmem
  simp [Validated, hlog, hnot]

end Extends

/-- The state in which a run ends, with or without a fault. -/
def after {α : Type} : EStateM.Result Fault Server α → Server
  | .ok _ s => s
  | .error _ s => s

def OnlyFrom {α : Type} (said : Msg) (s : Server) (m : ServerM α) : Prop :=
  Extends said s (after (m.run s))

/-- A handler that, from any state, sends `said` and plain messages only. -/
def Only {α : Type} (said : Msg) (m : ServerM α) : Prop := ∀ s, OnlyFrom said s m

section Rules

variable {α β : Type} {said : Msg}

theorem only_pure (a : α) : Only said (pure a : ServerM α) := fun s ↦ .refl said s

theorem only_throw (fault : Fault) : Only said (throw fault : ServerM α) := fun s ↦ .refl said s

theorem only_get : Only said (get : ServerM Server) := fun s ↦ .refl said s

theorem onlyFrom_bind {m : ServerM α} {f : α → ServerM β} {s : Server} (hm : OnlyFrom said s m)
    (hf : ∀ a t, m.run s = .ok a t → OnlyFrom said t (f a)) : OnlyFrom said s (m >>= f) := by
  unfold OnlyFrom at *
  rw [EStateM.run_bind]
  cases hrun : m.run s with
  | ok a t =>
      rw [hrun] at hm
      exact hm.trans (hf a t hrun)
  | error fault t =>
      rw [hrun] at hm
      exact hm

theorem only_bind {m : ServerM α} {f : α → ServerM β} (hm : Only said m)
    (hf : ∀ a, Only said (f a)) : Only said (m >>= f) :=
  fun s ↦ onlyFrom_bind (hm s) fun a t _ ↦ hf a t

theorem only_modify {f : Server → Server} (h : ∀ s, Extends said s (f s)) :
    Only said (modify f : ServerM Unit) := h

theorem only_record {e : Effect} (h : Speaks said e) : Only said (record e) := by
  intro s
  exact ⟨rfl, rfl, rfl, rfl, rfl, rfl, id, [e], rfl, by simpa using h⟩

theorem only_readMsg (result : Except Fault α) : Only said (readMsg result) := by
  cases result with
  | error fault => exact only_throw fault
  | ok a => exact only_pure a

end Rules

/-! ## The broadcast -/

variable {said : Msg}

theorem only_messageClientsFrom {disconnect : Option ConnRef → ServerM Unit}
    (hdisconnect : ∀ client, Only said (disconnect client)) {msg : Msg}
    (hmsg : msg = said ∨ Plain msg) (ignoreClient : Option ConnRef) (i left : ℕ) (invalid : Bool) :
    Only said (messageClientsFrom disconnect msg ignoreClient i left invalid) := by
  induction left generalizing i invalid with
  | zero => exact only_pure invalid
  | succ left ih =>
      apply only_bind only_get
      intro s
      simp only
      split
      · exact ih (i + 1) invalid
      · split
        · apply only_bind
          · exact only_record hmsg
          · exact fun _ ↦ ih (i + 1) invalid
        · apply only_bind (hdisconnect _)
          intro _
          apply only_bind
          · exact only_modify fun s ↦ .of_state rfl rfl rfl rfl rfl rfl id rfl
          · exact fun _ ↦ ih (i + 1) true

theorem only_messageAllClients {msg : Msg} (hmsg : msg = said ∨ Plain msg) (depth : ℕ)
    (ignoreClient : Option ConnRef) : Only said (messageAllClients depth msg ignoreClient) := by
  induction depth generalizing msg ignoreClient with
  | zero => exact only_throw _
  | succ depth ih =>
      have hdisconnect : ∀ client,
          Only said (onClientDisconnectWith (messageAllClients depth) client) := by
        intro client
        apply only_bind (only_record (show Speaks _ (.disconnected client) from trivial))
        intro _
        cases client with
        | none => exact only_throw _
        | some ref =>
            apply only_bind only_get
            intro s
            apply only_bind (ih (.inr (.removePlayer _)) _)
            intro _
            exact only_modify fun s ↦ .of_state rfl rfl rfl rfl rfl rfl id rfl
      apply only_bind only_get
      intro s
      apply only_bind (only_messageClientsFrom hdisconnect hmsg _ _ _ _)
      intro invalid
      split
      · exact only_modify fun s ↦ .of_state rfl rfl rfl rfl rfl rfl id rfl
      · exact only_pure ()

/-! ## The handlers -/

theorem only_getFreeGrid : Only said getFreeGrid := by
  apply only_bind only_get
  intro s
  simp only
  split
  · exact only_pure _
  · exact only_throw _

theorem only_generatePowerup (env : Env) (depth : ℕ) : Only said (generatePowerup env depth) := by
  apply only_bind only_getFreeGrid
  intro freeGrid
  split
  · exact only_throw _
  · apply only_bind
    · exact only_modify fun s ↦ .of_state rfl rfl rfl rfl rfl rfl id rfl
    · exact fun _ ↦ only_messageAllClients (.inr (.newPowerup _)) depth none

theorem only_generatePowerups (env : Env) (depth powerupCount turns : ℕ) :
    Only said (generatePowerups env depth powerupCount turns) := by
  induction turns with
  | zero => exact only_pure ()
  | succ turns ih =>
      apply only_bind only_get
      intro s
      split
      · exact only_bind (only_generatePowerup env depth) fun _ ↦ ih
      · exact only_pure ()

theorem only_deletePowerup (depth : ℕ) (powerup : PowerupData) (ignoreClient : Option ConnRef) :
    Only said (deletePowerup depth powerup ignoreClient) := by
  apply only_bind
  · exact only_modify fun s ↦ .of_state rfl rfl rfl rfl rfl rfl id rfl
  · exact fun _ ↦ only_messageAllClients (.inr (.powerupEaten _)) depth ignoreClient

/-- The head of a player that is looked up, and inserted if it is missing. -/
theorem run_headOf (clientID : UInt32) (s : Server) :
    (headOf clientID).run s =
      match (s.players.subscript clientID default).1.tail with
      | [] => .error .emptyTail { s with players := (s.players.subscript clientID default).2 }
      | head :: _ => .ok head { s with players := (s.players.subscript clientID default).2 } := by
  simp only [headOf, EStateM.run_bind, EStateM.run_get, EStateM.run_set]
  cases (s.players.subscript clientID default).1.tail with
  | nil => rfl
  | cons head tail => rfl

theorem only_headOf (clientID : UInt32) : Only said (headOf clientID) := by
  intro s
  unfold OnlyFrom
  rw [run_headOf]
  split
  · exact .of_state rfl rfl rfl rfl rfl rfl id rfl
  · exact .of_state rfl rfl rfl rfl rfl rfl id rfl

theorem only_hitsCell (clientID : UInt32) (cells : List Position) :
    Only said (hitsCell clientID cells) := by
  induction cells with
  | nil => exact only_pure false
  | cons pos cells ih =>
      apply only_bind (only_headOf clientID)
      intro head
      split
      · exact only_pure true
      · exact ih

theorem only_playerCollision (env : Env) (depth : ℕ) (clientID : Int32) :
    Only said (playerCollision env depth clientID) := by
  apply only_bind only_get
  intro s
  generalize env.iteration s.players = entries
  induction entries with
  | nil => exact only_pure ()
  | cons entry rest ih =>
      apply only_bind (only_hitsCell _ _)
      intro hit
      split
      · apply only_bind (only_record (show Speaks _ (.collided _ entry.1) from trivial))
        exact fun _ ↦ only_messageAllClients (.inr (.killPlayer _)) depth none
      · exact ih

theorem only_setPlayer (id : UInt32) (player : PlayerData) : Only said (setPlayer id player) :=
  only_modify fun _ ↦ .of_state rfl rfl rfl rfl rfl rfl (fun h ↦ h) rfl

theorem only_storeTail (id : UInt32) (turns : ℕ) (player : PlayerData) (msg : Msg) :
    Only said (storeTail id turns player msg) := by
  induction turns generalizing player msg with
  | zero => exact only_pure ()
  | succ turns ih =>
      apply only_bind (only_readMsg _)
      rintro ⟨pos, rest⟩
      exact only_bind (only_setPlayer _ _) fun _ ↦ ih _ rest

theorem only_onMessage (platform : Platform) (env : Env) (depth : ℕ) (client : ConnRef)
    (msg : Msg) : Only msg (onMessage platform env depth client msg) := by
  unfold onMessage
  split
  · apply only_bind (only_readMsg _)
    intro eaten
    exact only_bind (only_deletePowerup _ _ _) fun _ ↦ only_generatePowerup env depth
  · apply only_bind (only_messageAllClients (.inl rfl) _ _)
    intro _
    apply only_bind (only_readMsg _)
    intro _
    apply only_bind only_get
    intro s
    simp only
    split
    · exact only_throw _
    · apply only_bind (only_setPlayer _ _)
      intro _
      apply only_bind (only_readMsg _)
      intro _
      apply only_bind (only_setPlayer _ _)
      intro _
      apply only_bind (only_readMsg _)
      intro _
      apply only_bind (only_storeTail _ _ _ _)
      exact fun _ ↦ only_playerCollision _ _ _
  · apply only_bind
    · exact only_modify fun s ↦ .of_state rfl rfl rfl rfl rfl rfl (fun _ ↦ rfl) rfl
    · exact fun _ ↦ only_messageAllClients (.inl rfl) _ _
  · exact only_pure ()

theorem only_announce (platform : Platform) (env : Env) (depth : ℕ) (client : ConnRef)
    (id : UInt32) (player : PlayerData) :
    Only (newPlayerMsg platform player id) (announce platform env depth client id player) := by
  apply only_bind (only_messageAllClients (.inl rfl) _ _)
  intro _
  apply only_bind only_get
  exact fun _ ↦ only_generatePowerups _ _ _ _

end SnekCpp.Server
