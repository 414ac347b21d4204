import SnekCpp.Snek.Board
import SnekCpp.SnekServer.Runs

/-!
# The board of the server

`GetFreeGrid` indexes an array by the positions that are stored.  The server
makes up positions on the board only, and stores those of an `UpdatePlayer` as
they are.
-/

namespace SnekCpp

open Lib Networking

namespace Server

/-- All stored positions are on the board, and all messages sent satisfy `M`. -/
structure OnBoard (M : Msg → Prop) (s : Server) : Prop where
  players : s.players.All fun player ↦ ∀ pos ∈ player.tail, pos.OnBoard
  powerups : ∀ powerup ∈ s.powerups, powerup.position.OnBoard
  spawnpoints : ∀ pos ∈ s.spawnpoints, pos.OnBoard
  sent : ∀ r msg, .sent r msg ∈ s.log → M msg

/-- `M` holds of the messages that the server builds of positions on the board. -/
structure Builds (M : Msg → Prop) : Prop where
  removePlayer : ∀ id, M (removePlayerMsg id)
  killPlayer : ∀ id, M (killPlayerMsg id)
  newPowerup : ∀ powerup : PowerupData, powerup.position.OnBoard → M (newPowerupMsg powerup)

/-- From the board, a handler stays on it and finds no index out of bounds. -/
def KeepsBoard {α : Type} (M : Msg → Prop) (m : ServerM α) : Prop :=
  ∀ s : Server, s.OnBoard M →
    Ends (OnBoard M) (fun fault t ↦ fault ≠ .gridIndex ∧ t.OnBoard M) (m.run s)

section Rules

variable {α β : Type} {M : Msg → Prop}

theorem keepsBoard_pure (a : α) : KeepsBoard M (pure a : ServerM α) := fun _ h ↦ h

theorem keepsBoard_throw {fault : Fault} (hfault : fault ≠ .gridIndex) :
    KeepsBoard M (throw fault : ServerM α) := fun _ h ↦ ⟨hfault, h⟩

theorem keepsBoard_get : KeepsBoard M (get : ServerM Server) := fun _ h ↦ h

theorem keepsBoard_bind {m : ServerM α} {f : α → ServerM β} (hm : KeepsBoard M m)
    (hf : ∀ a, KeepsBoard M (f a)) : KeepsBoard M (m >>= f) :=
  fun s h ↦ (hm s h).bind fun a t _ ht ↦ hf a t ht

theorem keepsBoard_modify {f : Server → Server} (h : ∀ s, s.OnBoard M → (f s).OnBoard M) :
    KeepsBoard M (modify f : ServerM Unit) := h

theorem OnBoard.logged {s : Server} (h : s.OnBoard M) {effects : List Effect}
    (hsent : ∀ r msg, .sent r msg ∈ effects → M msg) : (s.logged effects).OnBoard M := by
  refine ⟨h.players, h.powerups, h.spawnpoints, fun r msg hmem ↦ ?_⟩
  rcases List.mem_append.mp hmem with hmem | hmem
  · exact h.sent r msg hmem
  · exact hsent r msg hmem

theorem keepsBoard_record {e : Effect} (he : ∀ r msg, e = .sent r msg → M msg) :
    KeepsBoard M (record e) := by
  intro s h
  refine OnBoard.logged h fun r msg hmem ↦ he r msg ?_
  exact (List.mem_singleton.mp hmem).symm

theorem keepsBoard_readMsg_bind {result : Except Fault α} {f : α → ServerM β}
    (hfault : ∀ fault, result = .error fault → fault ≠ .gridIndex)
    (hf : ∀ a, result = .ok a → KeepsBoard M (f a)) : KeepsBoard M (readMsg result >>= f) := by
  cases result with
  | error fault => exact fun s h ↦ ⟨hfault fault rfl, h⟩
  | ok a => exact hf a rfl

end Rules

/-! ## Handlers that leave the powerups alone -/

/-- The handler changes no powerup and looks for no free cell. -/
def KeepsPowerups {α : Type} (m : ServerM α) : Prop :=
  ∀ s : Server, Ends (fun t ↦ t.powerups = s.powerups)
    (fun fault t ↦ fault ≠ .gridIndex ∧ fault ≠ .emptyFreeGrid ∧ t.powerups = s.powerups) (m.run s)

section KeepsPowerups

variable {α β : Type}

theorem keepsPowerups_pure (a : α) : KeepsPowerups (pure a : ServerM α) := fun _ ↦ rfl

theorem keepsPowerups_throw {fault : Fault} (hindex : fault ≠ .gridIndex)
    (hempty : fault ≠ .emptyFreeGrid) : KeepsPowerups (throw fault : ServerM α) :=
  fun _ ↦ ⟨hindex, hempty, rfl⟩

theorem keepsPowerups_get : KeepsPowerups (get : ServerM Server) := fun _ ↦ rfl

theorem keepsPowerups_setPlayer (id : UInt32) (player : PlayerData) :
    KeepsPowerups (setPlayer id player) := fun _ ↦ rfl

theorem keepsPowerups_bind {m : ServerM α} {f : α → ServerM β} (hm : KeepsPowerups m)
    (hf : ∀ a, KeepsPowerups (f a)) : KeepsPowerups (m >>= f) :=
  fun s ↦ (hm s).bind fun a t _ ht ↦ ht ▸ hf a t

theorem keepsPowerups_readMsg {result : Except Fault α}
    (hshort : ∀ fault, result = .error fault → fault = .shortBody) :
    KeepsPowerups (readMsg result) := by
  cases result with
  | error fault =>
      rw [hshort fault rfl]
      exact keepsPowerups_throw (fun heq ↦ by cases heq) fun heq ↦ by cases heq
  | ok a => exact keepsPowerups_pure a

end KeepsPowerups

theorem keepsPowerups_messageAllClients (depth : ℕ) (msg : Msg) (ignoreClient : Option ConnRef) :
    KeepsPowerups (messageAllClients depth msg ignoreClient) := by
  intro s
  refine (ends_powerups_messageAllClients depth msg ignoreClient s).mono (fun _ ht ↦ ht)
    fun fault t ht ↦ ⟨?_, ?_, ht.2⟩
  · rcases ht.1 with rfl | rfl <;> exact fun heq ↦ by cases heq
  · rcases ht.1 with rfl | rfl <;> exact fun heq ↦ by cases heq

theorem keepsPowerups_playerCollision (env : Env) (depth : ℕ) (clientID : Int32) :
    KeepsPowerups (playerCollision env depth clientID) := by
  intro s
  have houtcome := collision_outcome s env depth clientID
  generalize (playerCollision env depth clientID).run s = result at houtcome
  cases houtcome with
  | missed => exact rfl
  | emptyTail => exact ⟨fun heq ↦ (by cases heq), fun heq ↦ (by cases heq), rfl⟩
  | killed => exact keepsPowerups_messageAllClients depth _ none _

theorem keepsPowerups_storeTail (id : UInt32) (turns : ℕ) (player : PlayerData) (msg : Msg) :
    KeepsPowerups (storeTail id turns player msg) := by
  induction turns generalizing player msg with
  | zero => exact keepsPowerups_pure ()
  | succ turns ih =>
      apply keepsPowerups_bind (keepsPowerups_readMsg fun _ ↦ eq_shortBody_of_readField)
      rintro ⟨pos, rest⟩
      exact keepsPowerups_bind (keepsPowerups_setPlayer _ _) fun _ ↦ ih _ rest

theorem keepsPowerups_onUpdatePlayer (platform : Platform) (env : Env) (depth : ℕ) (r : ConnRef)
    (msg : Msg) : KeepsPowerups (onUpdatePlayer platform env depth r msg) := by
  apply keepsPowerups_bind (keepsPowerups_messageAllClients depth msg (some r))
  intro _
  apply keepsPowerups_bind (keepsPowerups_readMsg fun _ ↦ eq_shortBody_of_readField)
  rintro ⟨clientID, afterID⟩
  apply keepsPowerups_bind keepsPowerups_get
  intro s
  simp only
  split
  · exact keepsPowerups_throw (fun heq ↦ by cases heq) fun heq ↦ by cases heq
  · apply keepsPowerups_bind (keepsPowerups_setPlayer _ _)
    intro _
    apply keepsPowerups_bind (keepsPowerups_readMsg fun _ ↦ eq_shortBody_of_readField)
    rintro ⟨direction, afterDirection⟩
    apply keepsPowerups_bind (keepsPowerups_setPlayer _ _)
    intro _
    apply keepsPowerups_bind (keepsPowerups_readMsg fun _ ↦ eq_shortBody_of_readField)
    rintro ⟨tailLength, afterLength⟩
    apply keepsPowerups_bind (keepsPowerups_storeTail _ _ _ _)
    exact fun _ ↦ keepsPowerups_playerCollision env depth clientID

theorem keepsPowerups_onStartGame (depth : ℕ) (msg : Msg) : KeepsPowerups (onStartGame depth msg) :=
  fun s ↦ keepsPowerups_messageAllClients depth msg none { s with gameStarted := true }

/-! ## The handlers -/

section Handlers

variable {M : Msg → Prop}

theorem keepsBoard_messageAllClients (builds : Builds M) {msg : Msg} (hmsg : M msg) (depth : ℕ)
    (ignoreClient : Option ConnRef) : KeepsBoard M (messageAllClients depth msg ignoreClient) := by
  intro s h
  refine (ends_messageAllClients_of_invariant (P := OnBoard M) ?_ ?_ ?_ (.inl rfl) depth
    ignoreClient h).mono (fun _ ht ↦ ht) fun fault t ht ↦ ⟨?_, ht.2⟩
  · intro t e ht hsaid
    refine ht.logged fun r m hmem ↦ ?_
    rcases hsaid r m (List.mem_singleton.mp hmem).symm with rfl | ⟨id, rfl⟩
    · exact hmsg
    · exact builds.removePlayer id
  · exact fun t _ ht ↦ ⟨ht.players, ht.powerups, ht.spawnpoints, ht.sent⟩
  · exact fun t id ht ↦ ⟨ht.players.erase id, ht.powerups, ht.spawnpoints, ht.sent⟩
  · rcases ht.1 with rfl | rfl <;> exact fun heq ↦ by cases heq

theorem OnBoard.covered {s : Server} (h : s.OnBoard M) : ∀ pos ∈ s.covered, pos.OnBoard := by
  intro pos hpos
  rcases mem_covered.mp hpos with ⟨id, player, hlookup, hpos⟩ | ⟨powerup, hpowerup, rfl⟩
  · exact h.players id player hlookup pos hpos
  · exact h.powerups powerup hpowerup

theorem OnBoard.spawned {s : Server} (h : s.OnBoard M) {powerup : PowerupData}
    (hpos : powerup.position.OnBoard) : (s.spawned powerup).OnBoard M := by
  refine ⟨h.players, fun p hp ↦ ?_, h.spawnpoints, h.sent⟩
  rcases List.mem_append.mp hp with hp | hp
  · exact h.powerups p hp
  · rw [List.mem_singleton.mp hp]
    exact hpos

theorem keepsBoard_generatePowerup (builds : Builds M) (env : Env) (depth : ℕ) :
    KeepsBoard M (generatePowerup env depth) := by
  intro s h
  rcases run_generatePowerup s env depth with
    ⟨hcovered, -⟩ | ⟨-, ⟨-, hrun⟩ | ⟨powerup, hdraw, hrun⟩⟩
  · exact absurd h.covered hcovered
  · rw [hrun]
    exact ⟨fun hfault ↦ (by cases hfault), h⟩
  · have hpos := (mem_freeGrid.mp (List.mem_of_getElem? hdraw)).1
    rw [hrun]
    exact keepsBoard_messageAllClients builds (builds.newPowerup powerup hpos) depth none _
      (h.spawned hpos)

theorem keepsBoard_generatePowerups (builds : Builds M) (env : Env) (depth powerupCount turns : ℕ) :
    KeepsBoard M (generatePowerups env depth powerupCount turns) := by
  induction turns with
  | zero => exact keepsBoard_pure ()
  | succ turns ih =>
      apply keepsBoard_bind keepsBoard_get
      intro s
      split
      · exact keepsBoard_bind (keepsBoard_generatePowerup builds env depth) fun _ ↦ ih
      · exact keepsBoard_pure ()

theorem keepsBoard_deletePowerup (builds : Builds M) (depth : ℕ) {powerup : PowerupData}
    (hmsg : M (powerupEatenMsg powerup)) (ignoreClient : Option ConnRef) :
    KeepsBoard M (deletePowerup depth powerup ignoreClient) := by
  apply keepsBoard_bind
  · exact keepsBoard_modify fun s h ↦
      ⟨h.players, fun p hp ↦ h.powerups p (List.mem_of_mem_eraseP hp), h.spawnpoints, h.sent⟩
  · exact fun _ ↦ keepsBoard_messageAllClients builds hmsg depth ignoreClient

theorem keepsBoard_headOf (clientID : UInt32) : KeepsBoard M (headOf clientID) := by
  intro s h
  have hlooked := (h.players.subscript clientID
    (show ∀ pos ∈ (default : PlayerData).tail, pos.OnBoard from fun pos hpos ↦ by cases hpos)).2
  rw [run_headOf]
  split
  · exact ⟨fun hfault ↦ (by cases hfault), hlooked, h.powerups, h.spawnpoints, h.sent⟩
  · exact ⟨hlooked, h.powerups, h.spawnpoints, h.sent⟩

theorem keepsBoard_hitsCell (clientID : UInt32) (cells : List Position) :
    KeepsBoard M (hitsCell clientID cells) := by
  induction cells with
  | nil => exact keepsBoard_pure false
  | cons pos cells ih =>
      apply keepsBoard_bind (keepsBoard_headOf clientID)
      intro head
      split
      · exact keepsBoard_pure true
      · exact ih

theorem keepsBoard_playerCollision (builds : Builds M) (env : Env) (depth : ℕ) (clientID : Int32) :
    KeepsBoard M (playerCollision env depth clientID) := by
  apply keepsBoard_bind keepsBoard_get
  intro s
  generalize env.iteration s.players = entries
  induction entries with
  | nil => exact keepsBoard_pure ()
  | cons entry rest ih =>
      apply keepsBoard_bind (keepsBoard_hitsCell _ _)
      intro hit
      split
      · apply keepsBoard_bind
        · exact keepsBoard_record fun r m heq ↦ by cases heq
        · exact fun _ ↦ keepsBoard_messageAllClients builds (builds.killPlayer clientID) depth none
      · exact ih

theorem keepsBoard_setPlayer (id : UInt32) {player : PlayerData}
    (h : ∀ pos ∈ player.tail, pos.OnBoard) : KeepsBoard M (setPlayer id player) :=
  keepsBoard_modify fun _ hs ↦ ⟨hs.players.insert id h, hs.powerups, hs.spawnpoints, hs.sent⟩

/-- The game state and the news of a player that starts on a spawnpoint. -/
theorem keepsBoard_onClientValidated (builds : Builds M) (platform : Platform) (env : Env)
    (depth : ℕ) (r : ConnRef) {s : Server} (h : s.OnBoard M)
    (hstate : ∀ spawnpoint ∈ s.spawnpoints.getLast?, M (s.snapshotMsg platform env r spawnpoint))
    (hnew : ∀ (player : PlayerData) (id : UInt32), (∀ pos ∈ player.tail, pos.OnBoard) →
      M (newPlayerMsg platform player id)) :
    Ends (OnBoard M) (fun fault t ↦ fault ≠ .gridIndex ∧ t.OnBoard M)
      ((onClientValidated platform env depth r).run s) := by
  apply ends_onClientValidated
  · intro _
    exact ⟨fun hfault ↦ (by cases hfault), h.logged fun r' msg hmem ↦ by simp at hmem⟩
  · intro spawnpoint hspawn
    have hmem : spawnpoint ∈ s.spawnpoints := List.mem_of_getLast? hspawn
    have htail : ∀ pos ∈ [spawnpoint], pos.OnBoard := by
      intro pos hpos
      rw [List.mem_singleton.mp hpos]
      exact h.spawnpoints spawnpoint hmem
    have hwelcomed : (s.welcomed platform env r spawnpoint).OnBoard M := by
      refine ⟨h.players.insert _ htail, h.powerups,
        fun pos hpos ↦ h.spawnpoints pos (List.mem_of_mem_dropLast hpos), fun r' msg hsent ↦ ?_⟩
      rcases List.mem_append.mp hsent with hsent | hsent
      · exact h.sent r' msg hsent
      · simp only [List.mem_cons, Effect.sent.injEq, reduceCtorEq, List.not_mem_nil, or_false,
          false_or] at hsent
        rw [hsent.2]
        exact hstate spawnpoint hspawn
    have hannounce : KeepsBoard M (announce platform env depth r (s.getID r)
        { direction := .up, tail := [spawnpoint], color := env.color }) := by
      apply keepsBoard_bind (keepsBoard_messageAllClients builds (hnew _ _ htail) _ _)
      intro _
      apply keepsBoard_bind keepsBoard_get
      exact fun _ ↦ keepsBoard_generatePowerups builds _ _ _ _
    exact hannounce _ hwelcomed

/-- The positions that `OnMessage` stores of an `UpdatePlayer`. -/
def storedPositions (platform : Platform) (msg : Msg) : List Position :=
  let popped : Except Fault (List Position) := do
    let (_, msg) ← readField Int32 msg
    let (_, msg) ← readField Direction msg
    let (tailLength, msg) ← readField (SizeT platform) msg
    return poppedPositions (tailTurns tailLength.toNat msg) msg
  popped.toOption.getD []

theorem storedPositions_of_popUpdate {platform : Platform} {msg rest : Msg} {clientID : Int32}
    {direction : Direction} {tail : List Position}
    (hpop : popUpdate platform msg = .ok ((clientID, direction, tail), rest)) :
    storedPositions platform msg = tail.reverse := by
  obtain ⟨⟨_, afterID⟩, hreadID, hpop⟩ := bind_eq_ok.mp hpop
  obtain ⟨⟨_, afterDirection⟩, hreadDirection, hpop⟩ := bind_eq_ok.mp hpop
  obtain ⟨⟨tailLength, afterLength⟩, hreadLength, hpop⟩ := bind_eq_ok.mp hpop
  obtain ⟨⟨_, afterTail⟩, hpopTail, hpop⟩ := bind_eq_ok.mp hpop
  cases hpop
  obtain ⟨hcount, hpopTail⟩ := popUnsignedTail_eq_ok.mp hpopTail
  simp only [storedPositions, hreadID, hreadDirection, hreadLength, bind, Except.bind, pure,
    Except.pure, Except.toOption, Option.getD_some, tailTurns, if_pos hcount,
    eq_of_popTail hpopTail, List.append_nil, List.reverse_reverse]

theorem keepsBoard_storeTail (id : UInt32) {turns : ℕ} {player : PlayerData} {msg : Msg}
    (htail : ∀ pos ∈ player.tail, pos.OnBoard)
    (hpopped : ∀ pos ∈ poppedPositions turns msg, pos.OnBoard) :
    KeepsBoard M (storeTail id turns player msg) := by
  induction turns generalizing player msg with
  | zero => exact keepsBoard_pure ()
  | succ turns ih =>
      apply keepsBoard_readMsg_bind
      · intro fault hfault
        rw [eq_shortBody_of_readField hfault]
        exact fun heq ↦ by cases heq
      rintro ⟨pos, rest⟩ hread
      rw [poppedPositions, hread] at hpopped
      have htail' : ∀ cell ∈ pos :: player.tail, cell.OnBoard := by
        intro cell hcell
        rcases List.mem_cons.mp hcell with rfl | hcell
        · exact hpopped cell List.mem_cons_self
        · exact htail cell hcell
      apply keepsBoard_bind (keepsBoard_setPlayer id htail')
      exact fun _ ↦ ih htail' fun cell hcell ↦ hpopped cell (List.mem_cons_of_mem _ hcell)

/-- A message whose positions are on the board, as far as they are stored. -/
theorem keepsBoard_onMessage (builds : Builds M) (platform : Platform) (env : Env) (depth : ℕ)
    (r : ConnRef) {msg : Msg}
    (hrelay : msg.header.id = .updatePlayer ∨ msg.header.id = .startGame → M msg)
    (heaten : ∀ powerup rest, msg.header.id = .powerupEaten →
      readField PowerupData msg = .ok (powerup, rest) → M (powerupEatenMsg powerup))
    (hstored : msg.header.id = .updatePlayer →
      ∀ pos ∈ storedPositions platform msg, pos.OnBoard) :
    KeepsBoard M (onMessage platform env depth r msg) := by
  have hread : ∀ {α : Type} [StandardLayout α] {m : Msg} fault,
      readField α m = .error fault → fault ≠ .gridIndex := by
    intro α _ m fault hfault
    rw [eq_shortBody_of_readField hfault]
    exact fun heq ↦ by cases heq
  unfold onMessage
  split
  · next hid =>
      apply keepsBoard_readMsg_bind hread
      rintro ⟨powerup, rest⟩ hpowerup
      apply keepsBoard_bind (keepsBoard_deletePowerup builds _ (heaten powerup rest hid hpowerup) _)
      exact fun _ ↦ keepsBoard_generatePowerup builds env depth
  · next hid =>
      apply keepsBoard_bind (keepsBoard_messageAllClients builds (hrelay (.inl hid)) _ _)
      intro _
      apply keepsBoard_readMsg_bind hread
      rintro ⟨clientID, afterID⟩ hreadID
      apply keepsBoard_bind keepsBoard_get
      intro s
      simp only
      split
      · exact keepsBoard_throw fun hfault ↦ by cases hfault
      · apply keepsBoard_bind (keepsBoard_setPlayer _ fun pos hpos ↦ by cases hpos)
        intro _
        apply keepsBoard_readMsg_bind hread
        rintro ⟨direction, afterDirection⟩ hreadDirection
        apply keepsBoard_bind (keepsBoard_setPlayer _ fun pos hpos ↦ by cases hpos)
        intro _
        apply keepsBoard_readMsg_bind hread
        rintro ⟨tailLength, afterLength⟩ hreadLength
        apply keepsBoard_bind
        · apply keepsBoard_storeTail _ fun pos hpos ↦ by cases hpos
          have hpositions := hstored hid
          simpa only [storedPositions, hreadID, hreadDirection, hreadLength, bind, Except.bind,
            pure, Except.pure, Except.toOption, Option.getD_some] using hpositions
        · exact fun _ ↦ keepsBoard_playerCollision builds _ _ _
  · next hid =>
      apply keepsBoard_bind
      · exact keepsBoard_modify fun s h ↦ ⟨h.players, h.powerups, h.spawnpoints, h.sent⟩
      · exact fun _ ↦ keepsBoard_messageAllClients builds (hrelay (.inr hid)) _ _
  · exact keepsBoard_pure ()

theorem onBoard_init : init.OnBoard M where
  players := .empty
  powerups _ h := by cases h
  spawnpoints := by decide
  sent _ _ h := by cases h

theorem OnBoard.onAccept {s : Server} (h : s.OnBoard M) : s.onAccept.OnBoard M := by
  unfold Server.onAccept
  split
  · exact ⟨h.players, h.powerups, h.spawnpoints, h.sent⟩
  · exact h

end Handlers

end Server

namespace Process

variable {platform : Platform} {depth : ℕ} {S S' : Process}

/-- An `UpdatePlayer` that is handled and can be decoded has cells of the grid. -/
def ReportsBoard (platform : Platform) (S : Process) : Event → Prop
  | .update _ => ∀ received ∈ S.server.m_qMessagesIn.head?,
      received.2.header.id = .updatePlayer →
        ∀ update ∈ (Server.popUpdate platform received.2).toOption, ∀ pos ∈ update.1.2.2, pos.OnBoard
  | _ => True

instance (platform : Platform) (S : Process) (e : Event) : Decidable (ReportsBoard platform S e) := by
  rcases e <;> unfold ReportsBoard <;> infer_instance

theorem ends_onMessage_of_reportsBoard {r : ConnRef} {msg : Msg} {rest : List (ConnRef × Msg)}
    {env : Env} (hqueue : S.server.m_qMessagesIn = (r, msg) :: rest)
    (hallowed : ReportsBoard platform S (.update env)) {s : Server}
    (h : s.OnBoard fun _ ↦ True) :
    Server.Ends (Server.OnBoard fun _ ↦ True)
      (fun fault t ↦ fault ≠ .gridIndex ∧ ∀ powerup ∈ t.powerups, powerup.position.OnBoard)
      ((Server.onMessage platform env depth r msg).run s) := by
  have hkeeps (hstored : msg.header.id = .updatePlayer →
      ∀ pos ∈ Server.storedPositions platform msg, pos.OnBoard) :
      Server.KeepsBoard (fun _ ↦ True) (Server.onMessage platform env depth r msg) :=
    Server.keepsBoard_onMessage ⟨fun _ ↦ trivial, fun _ ↦ trivial, fun _ _ ↦ trivial⟩ platform env
      depth r (fun _ ↦ trivial) (fun _ _ _ _ ↦ trivial) hstored
  by_cases hid : msg.header.id = .updatePlayer
  · cases hpop : Server.popUpdate platform msg with
    | ok result =>
        obtain ⟨⟨clientID, direction, tail⟩, left⟩ := result
        refine (hkeeps (fun _ ↦ ?_) s h).mono (fun _ ht ↦ ht) fun _ _ ht ↦ ⟨ht.1, ht.2.powerups⟩
        rw [Server.storedPositions_of_popUpdate hpop]
        intro pos hpos
        apply hallowed (r, msg) (by rw [hqueue]; rfl) hid ((clientID, direction, tail), left)
        · rw [hpop]
          rfl
        · exact List.mem_reverse.mp hpos
    | error fault =>
        -- The positions before the one that is missing may be anywhere.
        have hends := Server.keepsPowerups_onUpdatePlayer platform env depth r msg s
        obtain ⟨fault', t, hrun⟩ := @Server.exists_error_of_popUpdate_error _ s r env depth _ hid _ hpop
        rw [hrun]
        rw [Server.onMessage, hid] at hrun
        rw [hrun] at hends
        exact ⟨hends.1, hends.2.2 ▸ h.powerups⟩
  · exact (hkeeps (fun h ↦ absurd h hid) s h).mono (fun _ ht ↦ ht)
      fun _ _ ht ↦ ⟨ht.1, ht.2.powerups⟩

theorem rules_board : Rules platform depth (ReportsBoard platform)
    (fun s _ ↦ s.OnBoard fun _ ↦ True)
    (fun fault s ↦ fault ≠ .gridIndex ∧ ∀ powerup ∈ s.powerups, powerup.position.OnBoard) where
  accept h _ _ := ⟨[], h.onAccept⟩
  fields h _ _ := ⟨h.players, h.powerups, h.spawnpoints, h.sent⟩
  validate := by
    intro S refs r env ec bytes c h _ _ _ _
    have hset : (S.setConnection r c).server.OnBoard fun _ ↦ True :=
      ⟨h.players, h.powerups, h.spawnpoints, h.sent⟩
    exact (Server.keepsBoard_onClientValidated ⟨fun _ ↦ trivial, fun _ ↦ trivial,
      fun _ _ ↦ trivial⟩ platform env depth r hset (fun _ _ ↦ trivial)
        fun _ _ _ ↦ trivial).mono (fun _ ht ↦ ⟨[], ht⟩) fun _ _ hE ↦ ⟨hE.1, hE.2.powerups⟩
  update := by
    intro S refs r msg rest env h _ hqueue hallowed
    have hpopped : Server.OnBoard (fun _ ↦ True) { S.server with m_qMessagesIn := rest } :=
      ⟨h.players, h.powerups, h.spawnpoints, h.sent⟩
    exact (ends_onMessage_of_reportsBoard hqueue hallowed hpopped).mono
      (fun _ ht ↦ ⟨[], ht⟩) fun _ _ hE ↦ hE

theorem onBoard_of_reportsBoard (h : Reaches (step platform depth) (ReportsBoard platform) {} S)
    (hup : S.fault = none) : S.server.OnBoard fun _ ↦ True := by
  obtain ⟨refs, hboard⟩ := (Holds.of_reaches rules_board Server.onBoard_init h).up hup
  exact hboard

/-- Also after a fault. -/
theorem powerups_of_reportsBoard (h : Reaches (step platform depth) (ReportsBoard platform) {} S) :
    ∀ powerup ∈ S.server.powerups, powerup.position.OnBoard := by
  have hholds := Holds.of_reaches rules_board Server.onBoard_init h
  cases hfault : S.fault with
  | none => exact (onBoard_of_reportsBoard h hfault).powerups
  | some fault => exact (hholds.down fault hfault).2

/-- If the reports are about cells of the grid, no index is out of bounds. -/
theorem gridIndex_of_reportsBoard (h : Reaches (step platform depth) (ReportsBoard platform) {} S) :
    S.fault ≠ some .gridIndex := by
  intro hfault
  exact ((Holds.of_reaches rules_board Server.onBoard_init h).down _ hfault).1 rfl

/-- A client joins, reports the cells and eats a powerup. -/
def reportsThenEats (cells : List Position) : List Event :=
  let report := SnakeClient.updatePlayerMsg .x64 cells .up 10000
  let eaten := Server.powerupEatenMsg ⟨0, 0⟩
  [.accept 5, .validationWritten 0 false,
    .validationRead 0 .plain false (StandardLayout.toBytes (Endpoint.scramble 5)),
    .read 0 false (StandardLayout.toBytes report.header), .read 0 false report.body,
    .read 0 false (StandardLayout.toBytes eaten.header), .read 0 false eaten.body,
    .update .plain, .update .plain]

theorem gridIndex_of_reportsBoard_corner :
    ∃ S, run (guarded (step .x64 2) (ReportsBoard .x64)) {} (reportsThenEats [⟨39, 29⟩]) = some S ∧
      S.fault ≠ some .gridIndex := by
  obtain ⟨S, hrun⟩ : ∃ S, run (guarded (step .x64 2) (ReportsBoard .x64)) {}
      (reportsThenEats [⟨39, 29⟩]) = some S := Option.isSome_iff_exists.mp (by decide +kernel)
  exact ⟨S, hrun, gridIndex_of_reportsBoard (reaches_of_guarded hrun)⟩

/-- Every message that is handled is a complete `UpdatePlayer` or `PowerupEaten`. -/
def HandlesDecodable (platform : Platform) (S : Process) : Event → Prop
  | .update _ => ∀ received ∈ S.server.m_qMessagesIn.head?,
      received.2.header.id = .updatePlayer ∧
          (Server.popUpdate platform received.2).isOk = true ∨
        received.2.header.id = .powerupEaten ∧ (readField PowerupData received.2).isOk = true
  | _ => True

instance (platform : Platform) (S : Process) (e : Event) :
    Decidable (HandlesDecodable platform S e) := by
  rcases e <;> unfold HandlesDecodable <;> infer_instance

theorem not_gridIndex_beside :
    ¬ ∀ S, Reaches (step .x64 2) (HandlesDecodable .x64) {} S → S.fault ≠ some .gridIndex := by
  intro hbounds
  obtain ⟨S, hrun, hfault⟩ := (Option.any_eq_true _ _).mp
    (show (run (guarded (step .x64 2) (HandlesDecodable .x64)) {}
      (reportsThenEats [⟨40, 0⟩])).any (fun S ↦ S.fault = some .gridIndex) = true by decide +kernel)
  exact hbounds S (reaches_of_guarded hrun) (of_decide_eq_true hfault)

end Process

end SnekCpp
