import SnekCpp.Lib.AssocMap
import SnekCpp.Snek.Player

/-!
# The client program

The state that `main`, `key_callback` and `SnakeClient` share, and what each of
their functions does to it.  A function that sends returns the message; whether
the socket takes it is not its concern.
-/

namespace SnekCpp

open Lib Networking

structure Powerup where
  x : Int32
  y : Int32
  color : ImU32
  deriving DecidableEq

/-- A value-initialized element of a sized vector. -/
instance : Inhabited Powerup := ⟨⟨0, 0, 0⟩⟩

namespace Powerup

def position (powerup : Powerup) : Position := ⟨powerup.x, powerup.y⟩

def checkCollision (powerup : Powerup) (pos : Position) : Bool :=
  powerup.x == pos.x && powerup.y == pos.y

end Powerup

/-- `ImColor(1.0f, 0.1f, 0.1f, 1.0f)` -/
def powerupColor : ImU32 := 0xFF1A1AFF

def Powerup.ofData (powerup : PowerupData) : Powerup := ⟨powerup.x, powerup.y, powerupColor⟩

structure SnakeClient where
  clientID : Int32 := -1
  powerups : List Powerup := []
  players : AssocMap UInt32 Player := ∅
  gridPointer : Grid := mainGrid
  gameStarted : Bool := false

namespace SnakeClient

variable (platform : Platform)

/-! ## Sending -/

/-- The message of `UpdateServer`, for a player and the id pushed on top. -/
def updatePlayerMsg (tail : List Position) (direction : Direction) (id : Int32) : Msg :=
  pushTail (.new .updatePlayer) tail <<< SizeT.ofLength platform tail.length <<< direction <<< id

def updateServer (client : SnakeClient) : SnakeClient × Msg :=
  let (player, players) := client.players.subscript client.clientID.toUInt32 default
  ({ client with players },
    updatePlayerMsg platform player.tail player.direction client.clientID)

/-- `EatPowerup(c)`, with the element at index `c`. -/
def eatPowerup (client : SnakeClient) (c : ℕ) (eaten : Powerup) : SnakeClient × Msg :=
  let powerupEaten : PowerupData := ⟨eaten.x, eaten.y⟩
  let (player, players) := client.players.subscript client.clientID.toUInt32 default
  ({ client with
      players := players.insert client.clientID.toUInt32 (player.addLength 1)
      powerups := client.powerups.eraseIdx c },
    Message.new .powerupEaten <<< powerupEaten)

def attemptGameStart (client : SnakeClient) : Option Msg :=
  if !client.gameStarted then some (.new .startGame) else none

/-! ## `HandleMessages` -/

/-- The loop that appends `count` powerups to a vector. -/
def popPowerups : ℕ → List Powerup → Msg → Except Fault (List Powerup × Msg)
  | 0, powerups, msg => .ok (powerups, msg)
  | count + 1, powerups, msg => do
      let (powerup, msg) ← readField PowerupData msg
      popPowerups count (powerups ++ [.ofData powerup]) msg

/-- A tail with its size on top, decoded in front of an empty tail. -/
def popSizedTail (msg : Msg) : Except Fault (List Position × Msg) := do
  let (tailSize, msg) ← readField (SizeT platform) msg
  countInt tailSize.toNat
  popTail tailSize.toNat [] msg

def popPlayers (grid : Grid) :
    ℕ → AssocMap UInt32 Player → Msg → Except Fault (AssocMap UInt32 Player × Msg)
  | 0, players, msg => .ok (players, msg)
  | count + 1, players, msg => do
      let (playerID, msg) ← readField Int32 msg
      let (color, msg) ← readField ImU32 msg
      let (tail, msg) ← popSizedTail platform msg
      let player := { Player.create grid color with tail }
      popPlayers grid count (players.insert playerID.toUInt32 player) msg

def handleServerValidation (client : SnakeClient) (msg : Msg) : Except Fault SnakeClient := do
  let (clientID, msg) ← readField Int32 msg
  let (powerupCount, msg) ← readField (SizeT platform) msg
  -- The vector is created with `powerupCount` elements before the loop appends to it.
  let sized := List.replicate powerupCount.toNat default
  countInt powerupCount.toNat
  let (powerups, msg) ← popPowerups powerupCount.toNat sized msg
  let (playerCount, msg) ← readField (SizeT platform) msg
  countInt playerCount.toNat
  let (players, _) ← popPlayers platform client.gridPointer playerCount.toNat client.players msg
  return { client with clientID, powerups, players }

def handleNewPlayer (client : SnakeClient) (msg : Msg) : Except Fault SnakeClient := do
  let (newClientID, msg) ← readField UInt32 msg
  let (color, msg) ← readField ImU32 msg
  let (tail, _) ← popSizedTail platform msg
  let newPlayer := { Player.create client.gridPointer color with tail }
  return { client with players := client.players.insert newClientID newPlayer }

def handleRemovePlayer (client : SnakeClient) (msg : Msg) : Except Fault SnakeClient := do
  let (id, _) ← readField Int32 msg
  return { client with players := client.players.erase id.toUInt32 }

def handleNewPowerup (client : SnakeClient) (msg : Msg) : Except Fault SnakeClient := do
  let (powerup, _) ← readField PowerupData msg
  return { client with powerups := client.powerups ++ [.ofData powerup] }

def handleUpdatePlayer (client : SnakeClient) (msg : Msg) : Except Fault SnakeClient := do
  let (newClientID, msg) ← readField Int32 msg
  let (player, players) := client.players.subscript newClientID.toUInt32 default
  let (dir, msg) ← readField Direction msg
  let (tail, _) ← popSizedTail platform msg
  let updated := { player.setDirection dir with tail }
  return { client with players := players.insert newClientID.toUInt32 updated }

def handlePowerupEaten (client : SnakeClient) (msg : Msg) : Except Fault SnakeClient := do
  let (powerup, _) ← readField PowerupData msg
  return { client with
    powerups := client.powerups.eraseP fun p ↦ p.x == powerup.x && p.y == powerup.y }

def handleKillPlayer (client : SnakeClient) (msg : Msg) : Except Fault SnakeClient := do
  let (playerKilledID, _) ← readField Int32 msg
  let (player, players) := client.players.subscript playerKilledID.toUInt32 default
  return { client with players := players.insert playerKilledID.toUInt32 player.kill }

/-- One turn of the loop of `HandleMessages`. -/
def handleMessage (client : SnakeClient) (msg : Msg) : Except Fault SnakeClient :=
  match msg.header.id with
  | .serverValidation => client.handleServerValidation platform msg
  | .newPlayer => client.handleNewPlayer platform msg
  | .removePlayer => client.handleRemovePlayer msg
  | .newPowerup => client.handleNewPowerup msg
  | .updatePlayer => client.handleUpdatePlayer platform msg
  | .powerupEaten => client.handlePowerupEaten msg
  | .startGame => .ok { client with gameStarted := true }
  | .killPlayer => client.handleKillPlayer msg
  | .unnamed _ _ => .ok client

/-! ## The game loop of `main` -/

/-- `for (player : players) player.second.Move();` -/
def moveAll (client : SnakeClient) : Except Fault SnakeClient := do
  let players ← client.players.update Player.move
  return { client with players }

/-- The loop over the powerups: the head is looked up for each of them, and the
first one that it collides with is eaten. -/
def checkPowerups (client : SnakeClient) : Except Fault (SnakeClient × Option Msg) :=
  match client.powerups with
  | [] => .ok (client, none)
  | _ :: _ => do
      let (player, players) := client.players.subscript client.clientID.toUInt32 default
      let client := { client with players }
      let head ← player.getHead
      match client.powerups.zipIdx.find? fun p ↦ p.1.checkCollision head with
      | none => return (client, none)
      | some (powerup, c) =>
          let (client, msg) := client.eatPowerup c powerup
          return (client, some msg)

/-- The part of a frame before `HandleMessages`. -/
def frame (client : SnakeClient) : Except Fault (SnakeClient × Option Msg) := do
  let client ← client.moveAll
  client.checkPowerups

/-! ## `key_callback` -/

inductive Key
  | w
  | a
  | s
  | d
  | up
  | left
  | down
  | right
  | p
  | other
  deriving DecidableEq

/-- One of the four movement tests: the key turns the player unless it would
turn it around. -/
def steer (client : SnakeClient) (pressed : Bool) (opposite newDirection : Direction) :
    SnakeClient :=
  if pressed then
    let (player, players) := client.players.subscript client.clientID.toUInt32 default
    if player.direction ≠ opposite then
      { client with
        players := players.insert client.clientID.toUInt32 (player.setDirection newDirection) }
    else { client with players }
  else client

/-- `key_callback`, for a key and whether the action is `GLFW_PRESS`. -/
def keyCallback (client : SnakeClient) (key : Key) (press : Bool) : SnakeClient × Option Msg :=
  if client.clientID < 0 then (client, none)
  else
    let msg := if key = .p ∧ press then client.attemptGameStart else none
    let client := client.steer ((key = .w ∨ key = .up) ∧ press) .down .up
    let client := client.steer ((key = .a ∨ key = .left) ∧ press) .right .left
    let client := client.steer ((key = .s ∨ key = .down) ∧ press) .up .down
    let client := client.steer ((key = .d ∨ key = .right) ∧ press) .left .right
    (client, msg)

end SnakeClient

end SnekCpp
