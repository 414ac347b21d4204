import SnekCpp.Snek.Common

/-!
# A snake on a client
-/

namespace SnekCpp

open Lib Networking

/-- What a `Player` uses of the grid: its two counts. -/
structure Grid where
  cols : Int32
  rows : Int32
  cols_pos : 0 < cols.toInt
  rows_pos : 0 < rows.toInt
  deriving DecidableEq

def Grid.getRowCount (grid : Grid) : Int32 := grid.rows
def Grid.getColCount (grid : Grid) : Int32 := grid.cols

/-- The grid that `main` creates. -/
def mainGrid : Grid where
  cols := Int32.ofNat gridWidth
  rows := Int32.ofNat gridHeight
  cols_pos := by decide
  rows_pos := by decide

structure Player where
  tail : List Position := []
  alive : Bool := true
  food : Int32 := 0
  direction : Direction
  grid : Option Grid
  color : ImU32
  deriving DecidableEq

/-- The value-initialized entry that `operator []` inserts: its grid pointer is null. -/
instance : Inhabited Player := ⟨{ direction := .up, grid := none, color := 0 }⟩

namespace Player

/-- `Player(Grid* _grid, ImU32 _color)` -/
def create (grid : Grid) (color : ImU32) : Player :=
  { direction := .up, grid := some grid, color }

/-- Remove the last tail piece if no food has been eaten. -/
def updateTail (player : Player) : Player :=
  if 0 < player.food then { player with food := player.food - 1 }
  else { player with tail := player.tail.dropLast }

/-- What the four cases of `Move` do with the cell that they compute. -/
def emplaceHead (player : Player) (next : Grid → Position → Position) : Except Fault Player :=
  match player.tail, player.grid with
  | [], _ => .error .emptyTail
  | _ :: _, none => .error .nullGrid
  | head :: tail, some grid =>
      .ok { player with tail := next grid head :: head :: tail }.updateTail

def moveUp (grid : Grid) (head : Position) : Position :=
  ⟨head.x, ((head.y - 1) + grid.getRowCount) % grid.getRowCount⟩

def moveRight (grid : Grid) (head : Position) : Position :=
  ⟨((head.x + 1) + grid.getColCount) % grid.getColCount, head.y⟩

def moveDown (grid : Grid) (head : Position) : Position :=
  ⟨head.x, ((head.y + 1) + grid.getRowCount) % grid.getRowCount⟩

def moveLeft (grid : Grid) (head : Position) : Position :=
  ⟨((head.x - 1) + grid.getColCount) % grid.getColCount, head.y⟩

def move (player : Player) : Except Fault Player :=
  if !player.alive then .ok player
  else
    match player.direction with
    | .up => player.emplaceHead moveUp
    | .right => player.emplaceHead moveRight
    | .down => player.emplaceHead moveDown
    | .left => player.emplaceHead moveLeft
    | .unnamed _ _ => .ok player

def addLength (player : Player) (l : Int32) : Player :=
  { player with food := player.food + l }

def setDirection (player : Player) (newDirection : Direction) : Player :=
  { player with direction := newDirection }

def kill (player : Player) : Player :=
  { player with alive := false, tail := [] }

def getHead (player : Player) : Except Fault Position :=
  match player.tail with
  | [] => .error .emptyTail
  | head :: _ => .ok head

@[simp] theorem addLength_tail (player : Player) (l : Int32) :
    (player.addLength l).tail = player.tail := rfl
@[simp] theorem addLength_alive (player : Player) (l : Int32) :
    (player.addLength l).alive = player.alive := rfl
@[simp] theorem addLength_grid (player : Player) (l : Int32) :
    (player.addLength l).grid = player.grid := rfl
@[simp] theorem setDirection_tail (player : Player) (direction : Direction) :
    (player.setDirection direction).tail = player.tail := rfl
@[simp] theorem setDirection_alive (player : Player) (direction : Direction) :
    (player.setDirection direction).alive = player.alive := rfl
@[simp] theorem setDirection_grid (player : Player) (direction : Direction) :
    (player.setDirection direction).grid = player.grid := rfl
@[simp] theorem kill_tail (player : Player) : player.kill.tail = [] := rfl
@[simp] theorem kill_alive (player : Player) : player.kill.alive = false := rfl

/-- All that a move does: nothing, or one new head and an update of the tail. -/
theorem move_cases {player player' : Player} (h : player.move = .ok player') :
    player' = player ∨
      player.alive = true ∧ ∃ head tail grid next,
        player.tail = head :: tail ∧ player.grid = some grid ∧
          player' = { player with tail := next :: head :: tail }.updateTail := by
  have hemplace : ∀ next, player.emplaceHead next = .ok player' →
      ∃ head tail grid next, player.tail = head :: tail ∧ player.grid = some grid ∧
        player' = { player with tail := next :: head :: tail }.updateTail := by
    intro next hnext
    unfold emplaceHead at hnext
    split at hnext
    · cases hnext
    · cases hnext
    · next head tail grid htail hgrid =>
        cases hnext
        exact ⟨head, tail, grid, _, htail, hgrid, rfl⟩
  unfold move at h
  split at h
  · exact .inl (by simpa using h.symm)
  · next halive =>
      have halive' : player.alive = true := by simpa using halive
      split at h
      · exact .inr ⟨halive', hemplace _ h⟩
      · exact .inr ⟨halive', hemplace _ h⟩
      · exact .inr ⟨halive', hemplace _ h⟩
      · exact .inr ⟨halive', hemplace _ h⟩
      · exact .inl (by simpa using h.symm)

theorem updateTail_tail_ne_nil {player : Player} {next head : Position} {tail : List Position}
    (h : player.tail = next :: head :: tail) : player.updateTail.tail ≠ [] := by
  unfold updateTail
  split
  · simp [h]
  · simp [h]

@[simp] theorem updateTail_alive (player : Player) : player.updateTail.alive = player.alive := by
  unfold updateTail
  split <;> rfl

@[simp] theorem updateTail_grid (player : Player) : player.updateTail.grid = player.grid := by
  unfold updateTail
  split <;> rfl

@[simp] theorem updateTail_color (player : Player) : player.updateTail.color = player.color := by
  unfold updateTail
  split <;> rfl

/-- The tail of a moved player is empty only if it was empty before. -/
theorem tail_eq_nil_of_move {player player' : Player} (h : player.move = .ok player') :
    player'.tail = [] ↔ player.tail = [] := by
  rcases move_cases h with rfl | ⟨-, head, tail, grid, next, htail, -, rfl⟩
  · rfl
  · constructor
    · exact fun hempty ↦ absurd hempty (updateTail_tail_ne_nil rfl)
    · simp [htail]

theorem alive_of_move {player player' : Player} (h : player.move = .ok player') :
    player'.alive = player.alive := by
  rcases move_cases h with rfl | ⟨-, head, tail, grid, next, -, -, rfl⟩
  · rfl
  · simp

theorem grid_of_move {player player' : Player} (h : player.move = .ok player') :
    player'.grid = player.grid := by
  rcases move_cases h with rfl | ⟨-, head, tail, grid, next, -, -, rfl⟩
  · rfl
  · simp

theorem color_of_move {player player' : Player} (h : player.move = .ok player') :
    player'.color = player.color := by
  rcases move_cases h with rfl | ⟨-, head, tail, grid, next, -, -, rfl⟩
  · rfl
  · simp

end Player

end SnekCpp
