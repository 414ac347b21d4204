import SnekCpp.Lib.AssocMap
import SnekCpp.Snek.Common

/-!
# The server program

`Server` and the part of `ServerInterface` under it.  A handler runs on the
server's state until it returns or meets a fault, and a fault keeps the state
it was met in: what was sent before it stays sent.

`MessageAllClients` calls `OnClientDisconnect`, which calls `MessageAllClients`
again.  The depth of the call stack that is left is a parameter, and a call
with no stack left is a fault.
-/

namespace SnekCpp

open Lib Networking

/-- The identity of a connection object: `shared_ptr`s are compared by it. -/
abbrev ConnRef := ℕ

/-- What an observer of the server's calls sees, in order. -/
inductive Effect
  /-- `msg` is passed to `Send` of `client`. -/
  | sent (client : ConnRef) (msg : Msg)
  /-- `OnClientDisconnect` is called. -/
  | disconnected (client : Option ConnRef)
  /-- `OnClientValidated` is called. -/
  | validated (client : ConnRef)
  /-- `PlayerCollision` found the head of `clientID` on a cell of `owner`'s tail. -/
  | collided (clientID owner : UInt32)
  deriving DecidableEq

/-- The messages passed to `Send` of one connection of the server. -/
def sentTo (log : List Effect) (r : ConnRef) : List Msg :=
  log.filterMap fun
    | .sent ref msg => if ref = r then some msg else none
    | _ => none

theorem sentTo_append (xs ys : List Effect) (r : ConnRef) :
    sentTo (xs ++ ys) r = sentTo xs r ++ sentTo ys r :=
  List.filterMap_append

theorem mem_sentTo {log : List Effect} {r : ConnRef} {msg : Msg} :
    msg ∈ sentTo log r ↔ .sent r msg ∈ log := by
  simp only [sentTo, List.mem_filterMap]
  constructor
  · rintro ⟨e, he, hmsg⟩
    cases e with
    | sent client m =>
        by_cases heq : client = r
        · simp only [heq, if_true, Option.some.injEq] at hmsg
          rw [← heq, ← hmsg] at *
          exact he
        · simp [heq] at hmsg
    | _ => cases hmsg
  · intro hmem
    exact ⟨_, hmem, by simp⟩

structure Server where
  players : AssocMap UInt32 PlayerData := ∅
  powerups : List PowerupData := []
  spawnpoints : List Position := []
  gameStarted : Bool := false
  m_deqConnections : List (Option ConnRef) := []
  m_qMessagesIn : List (ConnRef × Msg) := []
  IDCounter : UInt32 := 10000
  /-- The connections approved so far; the next one is identified by their number. -/
  approved : ℕ := 0
  /-- `GetID` of each connection. -/
  getID : ConnRef → UInt32 := fun _ ↦ 0
  /-- `IsConnected` of each connection. -/
  isConnected : ConnRef → Bool := fun _ ↦ false
  log : List Effect := []

/-- The choices that the language and the random device leave open. -/
structure Env where
  /-- The iteration order of `players`. -/
  iteration : AssocMap UInt32 PlayerData → List (UInt32 × PlayerData)
  iteration_perm : ∀ players : AssocMap UInt32 PlayerData,
    (iteration players).Perm (players.entries.map fun entry ↦ (entry.1, entry.2))
  /-- The index drawn for a list of positions. -/
  draw : List Position → ℕ
  draw_lt : ∀ positions, positions ≠ [] → draw positions < positions.length
  color : ImU32

theorem Env.mem_iteration (env : Env) {players : AssocMap UInt32 PlayerData}
    {entry : UInt32 × PlayerData} :
    entry ∈ env.iteration players ↔ players.lookup entry.1 = some entry.2 := by
  rw [(env.iteration_perm players).mem_iff, List.mem_map, ← AssocMap.mem_entries_iff]
  constructor
  · rintro ⟨e, he, rfl⟩
    exact he
  · exact fun h ↦ ⟨_, h, rfl⟩

/-- Iterates in the order of the entries and draws the first position. -/
def Env.plain : Env where
  iteration players := players.entries.map fun entry ↦ (entry.1, entry.2)
  iteration_perm _ := .refl _
  draw _ := 0
  draw_lt _ h := List.length_pos_iff.mpr h
  color := 0

abbrev ServerM := EStateM Fault Server

namespace Server

/-- `GenerateSpawnpoints`: the vector starts with six value-initialized elements. -/
def generateSpawnpoints : List Position :=
  let width := Int32.ofNat gridWidth
  let height := Int32.ofNat gridHeight
  List.replicate 6 default ++
    [⟨width / 4, height / 3⟩, ⟨2 * width / 4, height / 3⟩, ⟨3 * width / 4, height / 3⟩,
      ⟨width / 4, 2 * height / 3⟩, ⟨2 * width / 4, 2 * height / 3⟩, ⟨3 * width / 4, 2 * height / 3⟩]

/-- The server as its constructor leaves it. -/
def init : Server := { spawnpoints := generateSpawnpoints }

def Validated (s : Server) (r : ConnRef) : Prop := .validated r ∈ s.log

instance (s : Server) (r : ConnRef) : Decidable (s.Validated r) :=
  inferInstanceAs (Decidable (_ ∈ _))

/-- `OnClientDisconnect` has run for the connection. -/
def Left (s : Server) (r : ConnRef) : Prop := .disconnected (some r) ∈ s.log

instance (s : Server) (r : ConnRef) : Decidable (s.Left r) :=
  inferInstanceAs (Decidable (_ ∈ _))

/-! ## Messages to clients -/

def record (effect : Effect) : ServerM Unit :=
  modify fun s ↦ { s with log := s.log ++ [effect] }

/-- `client->Send(msg)` -/
def send (client : ConnRef) (msg : Msg) : ServerM Unit :=
  record (.sent client msg)

def removePlayerMsg (id : Int32) : Msg := Message.new .removePlayer <<< id

/-- `OnClientDisconnect`, given the broadcast that it calls. -/
def onClientDisconnectWith (messageAllClients : Msg → Option ConnRef → ServerM Unit)
    (client : Option ConnRef) : ServerM Unit := do
  record (.disconnected client)
  match client with
  | none => throw .nullPointer
  | some ref =>
      let s ← get
      let id := (s.getID ref).toInt32
      messageAllClients (removePlayerMsg id) client
      modify fun s ↦ { s with players := s.players.erase id.toUInt32 }

/-- The loop of `MessageAllClients` from index `i` on; `left` elements are left
and the result says whether an invalid client exists. -/
def messageClientsFrom (onClientDisconnect : Option ConnRef → ServerM Unit) (msg : Msg)
    (ignoreClient : Option ConnRef) (i : ℕ) : ℕ → Bool → ServerM Bool
  | 0, invalidClientExists => pure invalidClientExists
  | left + 1, invalidClientExists => do
      let s ← get
      let client := s.m_deqConnections.getD i none
      if client = ignoreClient then
        messageClientsFrom onClientDisconnect msg ignoreClient (i + 1) left invalidClientExists
      else
        match client.filter s.isConnected with
        | some ref =>
            send ref msg
            messageClientsFrom onClientDisconnect msg ignoreClient (i + 1) left invalidClientExists
        | none =>
            onClientDisconnect client
            modify fun s ↦ { s with m_deqConnections := s.m_deqConnections.set i none }
            messageClientsFrom onClientDisconnect msg ignoreClient (i + 1) left true

def messageAllClients : ℕ → Msg → Option ConnRef → ServerM Unit
  | 0, _, _ => throw .stackOverflow
  | depth + 1, msg, ignoreClient => do
      let s ← get
      let invalidClientExists ←
        messageClientsFrom (onClientDisconnectWith (messageAllClients depth)) msg ignoreClient 0
          s.m_deqConnections.length false
      if invalidClientExists then
        modify fun s ↦ { s with m_deqConnections := s.m_deqConnections.filter (· ≠ none) }

def onClientDisconnect (depth : ℕ) (client : Option ConnRef) : ServerM Unit :=
  onClientDisconnectWith (messageAllClients depth) client

/-! ## Players and powerups -/

/-- `GetFreeGrid`: the cells of the grid that no tail and no powerup covers. -/
def getFreeGrid : ServerM (List Position) := do
  let s ← get
  let marked := s.players.entries.flatMap (fun entry ↦ entry.2.tail) ++
    s.powerups.map PowerupData.position
  let inBounds (pos : Position) : Bool :=
    0 ≤ pos.x.toInt && pos.x.toInt < gridWidth && 0 ≤ pos.y.toInt && pos.y.toInt < gridHeight
  if marked.all inBounds then
    let cells := (List.range gridWidth).flatMap fun x ↦
      (List.range gridHeight).map fun y ↦ (⟨Int32.ofNat x, Int32.ofNat y⟩ : Position)
    return cells.filter fun cell ↦ !marked.contains cell
  else throw .gridIndex

def newPowerupMsg (powerup : PowerupData) : Msg := Message.new .newPowerup <<< powerup

def generatePowerup (env : Env) (depth : ℕ) : ServerM Unit := do
  let freeGrid ← getFreeGrid
  match freeGrid[env.draw freeGrid]? with
  | none => throw .emptyFreeGrid
  | some spawnPos =>
      let powerup : PowerupData := ⟨spawnPos.x, spawnPos.y⟩
      modify fun s ↦ { s with powerups := s.powerups ++ [powerup] }
      messageAllClients depth (newPowerupMsg powerup) none

def powerupEatenMsg (powerup : PowerupData) : Msg := Message.new .powerupEaten <<< powerup

def deletePowerup (depth : ℕ) (powerup : PowerupData) (ignoreClient : Option ConnRef) :
    ServerM Unit := do
  modify fun s ↦ { s with
    powerups := s.powerups.eraseP fun p ↦ p.x == powerup.x && p.y == powerup.y }
  messageAllClients depth (powerupEatenMsg powerup) ignoreClient

def killPlayerMsg (clientID : Int32) : Msg := Message.new .killPlayer <<< clientID

def sendKillMessage (depth : ℕ) (clientID : Int32) : ServerM Unit :=
  messageAllClients depth (killPlayerMsg clientID) none

/-- `players[clientID].tail[0]` -/
def headOf (clientID : UInt32) : ServerM Position := do
  let s ← get
  let (player, players) := s.players.subscript clientID default
  set { s with players }
  match player.tail with
  | [] => throw .emptyTail
  | head :: _ => return head

/-- The inner loops of `PlayerCollision`: is one of the cells the head of `clientID`? -/
def hitsCell (clientID : UInt32) : List Position → ServerM Bool
  | [] => return false
  | pos :: cells => do
      let head ← headOf clientID
      if pos = head then return true else hitsCell clientID cells

/-- The cells of an entry that `PlayerCollision` compares with the head: of the
client's own tail only those from index 4 on. -/
def collisionCells (clientID : UInt32) (entry : UInt32 × PlayerData) : List Position :=
  if entry.1 = clientID then entry.2.tail.drop 4 else entry.2.tail

def playerCollisionOver (depth : ℕ) (clientID : Int32) : List (UInt32 × PlayerData) → ServerM Unit
  | [] => return
  | entry :: rest => do
      if ← hitsCell clientID.toUInt32 (collisionCells clientID.toUInt32 entry) then
        record (.collided clientID.toUInt32 entry.1)
        sendKillMessage depth clientID
      else playerCollisionOver depth clientID rest

def playerCollision (env : Env) (depth : ℕ) (clientID : Int32) : ServerM Unit := do
  let s ← get
  playerCollisionOver depth clientID (env.iteration s.players)

variable (platform : Platform)

def addPlayerToMsg (msg : Msg) (player : PlayerData) : Msg :=
  pushTail msg player.tail <<< SizeT.ofLength platform player.tail.length

/-! ## Connections -/

/-- `OnClientConnect`: allow the client if spawnpoints are available. -/
def onClientConnect (s : Server) : Bool :=
  if 0 < s.spawnpoints.length then !s.gameStarted else false

/-- The lambda of `WaitForClientConnection`, for a connection without error. -/
def onAccept (s : Server) : Server :=
  if s.onClientConnect then
    { s with
      m_deqConnections := s.m_deqConnections ++ [some s.approved]
      IDCounter := s.IDCounter + 1
      approved := s.approved + 1
      getID := Function.update s.getID s.approved s.IDCounter
      isConnected := Function.update s.isConnected s.approved true }
  else s

@[simp] theorem log_onAccept (s : Server) : s.onAccept.log = s.log := by
  unfold onAccept
  split <;> rfl

@[simp] theorem queue_onAccept (s : Server) : s.onAccept.m_qMessagesIn = s.m_qMessagesIn := by
  unfold onAccept
  split <;> rfl

/-- The game state that `OnClientValidated` sends to the new client. -/
def stateMsg (roster : List (UInt32 × PlayerData)) (powerups : List PowerupData) (id : UInt32) :
    Msg :=
  let msgState := roster.foldl (fun msg otherPlayer ↦
    addPlayerToMsg platform msg otherPlayer.2 <<< otherPlayer.2.color <<< otherPlayer.1)
    (.new .serverValidation)
  let msgState := msgState <<< SizeT.ofLength platform roster.length
  let msgState := powerups.foldl (fun msg powerup ↦ msg <<< powerup) msgState
  msgState <<< SizeT.ofLength platform powerups.length <<< id

def newPlayerMsg (player : PlayerData) (id : UInt32) : Msg :=
  addPlayerToMsg platform (.new .newPlayer) player <<< player.color <<< id

/-- `while (powerups.size() < powerupCount) GeneratePowerup();`.  Every turn adds
a powerup, so there are at most `powerupCount` of them. -/
def generatePowerups (env : Env) (depth powerupCount : ℕ) : ℕ → ServerM Unit
  | 0 => return
  | turns + 1 => do
      let s ← get
      if s.powerups.length < powerupCount then
        generatePowerup env depth
        generatePowerups env depth powerupCount turns

def onClientValidated (env : Env) (depth : ℕ) (client : ConnRef) : ServerM Unit := do
  record (.validated client)
  let s ← get
  match s.spawnpoints.getLast? with
  | none => throw .emptySpawnpoints
  | some spawnpoint =>
      let id := s.getID client
      let player : PlayerData := { direction := .up, tail := [spawnpoint], color := env.color }
      let players := s.players.insert id player
      set { s with spawnpoints := s.spawnpoints.dropLast, players }
      send client (stateMsg platform (env.iteration players) s.powerups id)
      messageAllClients depth (newPlayerMsg platform player id) (some client)
      let s ← get
      let size := s.players.entries.length
      let powerupCount := size % 2 * size / 2 + 1
      generatePowerups env depth powerupCount powerupCount

/-! ## Messages from clients -/

/-- `operator >>` on the server. -/
def readMsg {α : Type} (result : Except Fault α) : ServerM α :=
  match result with
  | .ok a => return a
  | .error fault => throw fault

def setPlayer (id : UInt32) (player : PlayerData) : ServerM Unit :=
  modify fun s ↦ { s with players := s.players.insert id player }

/-- The turns of the tail loop.  Its counter is an `unsigned int` and never
reaches a longer length: the loop then goes on until the body is used up. -/
def tailTurns (tailLength : ℕ) (msg : Msg) : ℕ :=
  if tailLength < 2 ^ 32 then tailLength else msg.body.length + 1

/-- The tail loop: a position is in the tail of the player before the next one
is popped. -/
def storeTail (id : UInt32) : ℕ → PlayerData → Msg → ServerM Unit
  | 0, _, _ => return
  | turns + 1, player, msg => do
      let (pos, msg) ← readMsg (readField Position msg)
      let player := { player with tail := pos :: player.tail }
      setPlayer id player
      storeTail id turns player msg

def onPowerupEaten (env : Env) (depth : ℕ) (client : ConnRef) (msg : Msg) : ServerM Unit := do
  let (eatenPowerup, _) ← readMsg (readField PowerupData msg)
  deletePowerup depth eatenPowerup (some client)
  generatePowerup env depth

def onUpdatePlayer (env : Env) (depth : ℕ) (client : ConnRef) (msg : Msg) : ServerM Unit := do
  messageAllClients depth msg (some client)
  let (clientID, msg) ← readMsg (readField Int32 msg)
  let s ← get
  let id := s.getID client
  match s.players.lookup id with
  | none => throw .outOfRange
  | some player =>
      let player := { player with tail := [] }
      setPlayer id player
      let (direction, msg) ← readMsg (readField Direction msg)
      let player := { player with direction }
      setPlayer id player
      let (tailLength, msg) ← readMsg (readField (SizeT platform) msg)
      storeTail id (tailTurns tailLength.toNat msg) player msg
      playerCollision env depth clientID

def onStartGame (depth : ℕ) (msg : Msg) : ServerM Unit := do
  modify fun s ↦ { s with gameStarted := true }
  messageAllClients depth msg none

def onMessage (env : Env) (depth : ℕ) (client : ConnRef) (msg : Msg) : ServerM Unit :=
  match msg.header.id with
  | .powerupEaten => onPowerupEaten env depth client msg
  | .updatePlayer => onUpdatePlayer platform env depth client msg
  | .startGame => onStartGame depth msg
  | _ => return

/-- One turn of the loop of `Update`, on a queue that is not empty. -/
def update (env : Env) (depth : ℕ) : ServerM Unit := do
  let s ← get
  match s.m_qMessagesIn with
  | [] => return
  | (remote, msg) :: rest =>
      set { s with m_qMessagesIn := rest }
      onMessage platform env depth remote msg

end Server

end SnekCpp
