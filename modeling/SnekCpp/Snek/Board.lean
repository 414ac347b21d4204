import SnekCpp.Snek.FrameLoop

/-!
# The board

A snake that leaves the grid on one side comes in on the other, so a client
whose players and powerups are on the grid keeps them there.
-/

namespace SnekCpp

open Lib Networking

namespace Position

/-- A cell of the grid. -/
structure OnBoard (pos : Position) : Prop where
  x_nonneg : 0 ≤ pos.x.toInt
  x_lt : pos.x.toInt < gridWidth
  y_nonneg : 0 ≤ pos.y.toInt
  y_lt : pos.y.toInt < gridHeight

theorem onBoard_iff (pos : Position) : pos.OnBoard ↔
    0 ≤ pos.x.toInt ∧ pos.x.toInt < gridWidth ∧ 0 ≤ pos.y.toInt ∧ pos.y.toInt < gridHeight :=
  ⟨fun h ↦ ⟨h.x_nonneg, h.x_lt, h.y_nonneg, h.y_lt⟩, fun ⟨hx, hx', hy, hy'⟩ ↦ ⟨hx, hx', hy, hy'⟩⟩

instance (pos : Position) : Decidable pos.OnBoard := decidable_of_iff _ pos.onBoard_iff.symm

theorem onBoard_default : (default : Position).OnBoard := by decide

end Position

/-! ## Moves -/

theorem toInt_add_of_small {a b : Int32} (hlo : -2 ^ 31 ≤ a.toInt + b.toInt)
    (hhi : a.toInt + b.toInt < 2 ^ 31) : (a + b).toInt = a.toInt + b.toInt := by
  rw [Int32.toInt_add, Int.bmod_eq_emod]
  split <;> omega

theorem toInt_sub_of_small {a b : Int32} (hlo : -2 ^ 31 ≤ a.toInt - b.toInt)
    (hhi : a.toInt - b.toInt < 2 ^ 31) : (a - b).toInt = a.toInt - b.toInt := by
  rw [Int32.toInt_sub, Int.bmod_eq_emod]
  split <;> omega

/-- One count is added so that the remainder is taken of a number that is not negative. -/
theorem toInt_wrap {a count : Int32} (hlo : -count.toInt ≤ a.toInt) (hhi : a.toInt ≤ count.toInt)
    (hpos : 0 < count.toInt) (hcount : count.toInt < 2 ^ 30) :
    ((a + count) % count).toInt = a.toInt % count.toInt := by
  have hsum : (a + count).toInt = a.toInt + count.toInt :=
    toInt_add_of_small (by omega) (by omega)
  rw [Int32.toInt_mod, hsum, Int.tmod_eq_emod_of_nonneg (by omega), Int.add_emod_right]

theorem toInt_wrap_sub_one {a count : Int32} (hlo : -count.toInt < a.toInt) (hhi : a.toInt < count.toInt)
    (hcount : count.toInt < 2 ^ 30) :
    (((a - 1) + count) % count).toInt = (a.toInt - 1) % count.toInt := by
  have hone : (1 : Int32).toInt = 1 := rfl
  have hstep : (a - 1).toInt = a.toInt - 1 := by
    rw [toInt_sub_of_small (by rw [hone]; omega) (by rw [hone]; omega), hone]
  rw [toInt_wrap (by omega) (by omega) (by omega) hcount, hstep]

theorem toInt_wrap_add_one {a count : Int32} (hlo : -count.toInt < a.toInt) (hhi : a.toInt < count.toInt)
    (hcount : count.toInt < 2 ^ 30) :
    (((a + 1) + count) % count).toInt = (a.toInt + 1) % count.toInt := by
  have hone : (1 : Int32).toInt = 1 := rfl
  have hstep : (a + 1).toInt = a.toInt + 1 := by
    rw [toInt_add_of_small (by rw [hone]; omega) (by rw [hone]; omega), hone]
  rw [toInt_wrap (by omega) (by omega) (by omega) hcount, hstep]

theorem wrap_sub_one_mem {a count : Int32} (hlo : 0 ≤ a.toInt) (hhi : a.toInt < count.toInt)
    (hcount : count.toInt < 2 ^ 30) :
    0 ≤ (((a - 1) + count) % count).toInt ∧ (((a - 1) + count) % count).toInt < count.toInt := by
  rw [toInt_wrap_sub_one (by omega) hhi hcount]
  exact ⟨Int.emod_nonneg _ (by omega), Int.emod_lt_of_pos _ (by omega)⟩

theorem wrap_add_one_mem {a count : Int32} (hlo : 0 ≤ a.toInt) (hhi : a.toInt < count.toInt)
    (hcount : count.toInt < 2 ^ 30) :
    0 ≤ (((a + 1) + count) % count).toInt ∧ (((a + 1) + count) % count).toInt < count.toInt := by
  rw [toInt_wrap_add_one (by omega) hhi hcount]
  exact ⟨Int.emod_nonneg _ (by omega), Int.emod_lt_of_pos _ (by omega)⟩

theorem toInt_cols : mainGrid.getColCount.toInt = gridWidth := by decide

theorem toInt_rows : mainGrid.getRowCount.toInt = gridHeight := by decide

namespace Player

theorem onBoard_moveUp {head : Position} (h : head.OnBoard) : (moveUp mainGrid head).OnBoard := by
  have hwrap := wrap_sub_one_mem h.y_nonneg (toInt_rows ▸ h.y_lt) (by decide)
  rw [toInt_rows] at hwrap
  exact ⟨h.x_nonneg, h.x_lt, hwrap.1, hwrap.2⟩

theorem onBoard_moveRight {head : Position} (h : head.OnBoard) :
    (moveRight mainGrid head).OnBoard := by
  have hwrap := wrap_add_one_mem h.x_nonneg (toInt_cols ▸ h.x_lt) (by decide)
  rw [toInt_cols] at hwrap
  exact ⟨hwrap.1, hwrap.2, h.y_nonneg, h.y_lt⟩

theorem onBoard_moveDown {head : Position} (h : head.OnBoard) :
    (moveDown mainGrid head).OnBoard := by
  have hwrap := wrap_add_one_mem h.y_nonneg (toInt_rows ▸ h.y_lt) (by decide)
  rw [toInt_rows] at hwrap
  exact ⟨h.x_nonneg, h.x_lt, hwrap.1, hwrap.2⟩

theorem onBoard_moveLeft {head : Position} (h : head.OnBoard) :
    (moveLeft mainGrid head).OnBoard := by
  have hwrap := wrap_sub_one_mem h.x_nonneg (toInt_cols ▸ h.x_lt) (by decide)
  rw [toInt_cols] at hwrap
  exact ⟨hwrap.1, hwrap.2, h.y_nonneg, h.y_lt⟩

/-- The snake is on the grid that `main` creates. -/
structure OnBoard (player : Player) : Prop where
  tail : ∀ pos ∈ player.tail, pos.OnBoard
  grid : ∀ grid ∈ player.grid, grid = mainGrid

theorem OnBoard.updateTail {player : Player} (h : player.OnBoard) : player.updateTail.OnBoard := by
  unfold Player.updateTail
  split
  · exact ⟨h.tail, h.grid⟩
  · exact ⟨fun pos hpos ↦ h.tail pos (List.mem_of_mem_dropLast hpos), h.grid⟩

theorem OnBoard.emplaceHead {player player' : Player} (h : player.OnBoard)
    {next : Grid → Position → Position}
    (hnext : ∀ head : Position, head.OnBoard → (next mainGrid head).OnBoard)
    (hmove : player.emplaceHead next = .ok player') : player'.OnBoard := by
  unfold Player.emplaceHead at hmove
  split at hmove
  · cases hmove
  · cases hmove
  · next head tail grid htail hgrid =>
      cases hmove
      apply OnBoard.updateTail
      refine ⟨fun pos hpos ↦ ?_, h.grid⟩
      rcases List.mem_cons.mp hpos with rfl | hpos
      · rw [h.grid grid hgrid]
        exact hnext head (h.tail head (by rw [htail]; exact List.mem_cons_self ..))
      · exact h.tail pos (by rw [htail]; exact hpos)

theorem OnBoard.move {player player' : Player} (h : player.OnBoard)
    (hmove : player.move = .ok player') : player'.OnBoard := by
  unfold Player.move at hmove
  split at hmove
  · cases hmove
    exact h
  · split at hmove
    · exact h.emplaceHead (fun _ ↦ onBoard_moveUp) hmove
    · exact h.emplaceHead (fun _ ↦ onBoard_moveRight) hmove
    · exact h.emplaceHead (fun _ ↦ onBoard_moveDown) hmove
    · exact h.emplaceHead (fun _ ↦ onBoard_moveLeft) hmove
    · cases hmove
      exact h

theorem OnBoard.default : (default : Player).OnBoard where
  tail _ hpos := by cases hpos
  grid _ hgrid := by cases hgrid

theorem OnBoard.create {color : ImU32} {tail : List Position} (h : ∀ pos ∈ tail, pos.OnBoard) :
    { Player.create mainGrid color with tail }.OnBoard where
  tail := h
  grid grid hgrid := by
    cases hgrid
    rfl

theorem OnBoard.kill {player : Player} (h : player.OnBoard) : player.kill.OnBoard :=
  ⟨fun pos hpos ↦ (by cases hpos), h.grid⟩

end Player

/-! ## Packets and clients -/

def Packet.OnBoard : Packet → Prop
  | .serverValidation _ powerups roster =>
      (∀ powerup ∈ powerups, powerup.position.OnBoard) ∧
        ∀ entry ∈ roster, ∀ pos ∈ entry.2.2, pos.OnBoard
  | .newPlayer _ _ tail | .updatePlayer _ _ tail => ∀ pos ∈ tail, pos.OnBoard
  | .newPowerup powerup | .powerupEaten powerup => powerup.position.OnBoard
  | _ => True

namespace SnakeClient

structure OnBoard (client : SnakeClient) : Prop where
  players : client.players.All Player.OnBoard
  powerups : ∀ powerup ∈ client.powerups, powerup.position.OnBoard
  grid : client.gridPointer = mainGrid

namespace OnBoard

variable {client client' : SnakeClient}

theorem start : ({} : SnakeClient).OnBoard where
  players := .empty
  powerups _ h := by cases h
  grid := rfl

theorem insertEntries {players : AssocMap UInt32 Player} (h : players.All Player.OnBoard)
    {roster : List RosterEntry} (hroster : ∀ entry ∈ roster, ∀ pos ∈ entry.2.2, pos.OnBoard) :
    (roster.foldl (insertEntry mainGrid) players).All Player.OnBoard := by
  induction roster generalizing players with
  | nil => exact h
  | cons entry roster ih =>
      apply ih
      · exact h.insert _ (.create (hroster entry (List.mem_cons_self ..)))
      · exact fun e he ↦ hroster e (List.mem_cons_of_mem _ he)

theorem handlePacket (h : client.OnBoard) {packet : Packet} (hpacket : packet.OnBoard) :
    (client.handlePacket packet).OnBoard := by
  cases packet with
  | serverValidation clientID powerups roster =>
      refine ⟨?_, fun powerup hpowerup ↦ ?_, h.grid⟩
      · simp only [SnakeClient.handlePacket, h.grid]
        exact insertEntries h.players hpacket.2
      · rcases List.mem_append.mp hpowerup with hsized | hpopped
        · rw [List.eq_of_mem_replicate hsized]
          exact Position.onBoard_default
        · obtain ⟨data, hdata, rfl⟩ := List.mem_map.mp hpopped
          exact hpacket.1 data hdata
  | newPlayer id color tail =>
      refine ⟨?_, h.powerups, h.grid⟩
      simp only [SnakeClient.handlePacket, h.grid]
      exact h.players.insert _ (.create hpacket)
  | removePlayer id => exact ⟨h.players.erase _, h.powerups, h.grid⟩
  | startGame => exact ⟨h.players, h.powerups, h.grid⟩
  | updatePlayer id direction tail =>
      obtain ⟨hplayer, hplayers⟩ := h.players.subscript id Player.OnBoard.default
      exact ⟨hplayers.insert _ ⟨hpacket, hplayer.grid⟩, h.powerups, h.grid⟩
  | newPowerup powerup =>
      refine ⟨h.players, fun p hp ↦ ?_, h.grid⟩
      rcases List.mem_append.mp hp with hp | hp
      · exact h.powerups p hp
      · rw [List.mem_singleton] at hp
        rw [hp]
        exact hpacket
  | powerupEaten powerup =>
      exact ⟨h.players, fun p hp ↦ h.powerups p (List.mem_of_mem_eraseP hp), h.grid⟩
  | killPlayer id =>
      obtain ⟨hplayer, hplayers⟩ := h.players.subscript id Player.OnBoard.default
      exact ⟨hplayers.insert _ hplayer.kill, h.powerups, h.grid⟩
  | unnamed => exact h

/-- A frame keeps the client on the board, and so is the powerup that it eats. -/
theorem frame (h : client.OnBoard) {msg : Option Msg} (hframe : client.frame = .ok (client', msg)) :
    client'.OnBoard ∧ ∀ m ∈ msg, ∃ powerup : PowerupData,
      powerup.position.OnBoard ∧ m = powerupEatenMsg powerup := by
  obtain ⟨players, hmoved, hcheck⟩ := frame_cases hframe
  have hplayers : players.All Player.OnBoard :=
    h.players.update (fun _ _ hplayer hmove ↦ hplayer.move hmove) hmoved
  cases hcheck with
  | noPowerups => exact ⟨⟨hplayers, h.powerups, h.grid⟩, fun m hm ↦ by cases hm⟩
  | @missed player looked hown _ =>
      have hlooked := (hplayers.subscript client.ownID Player.OnBoard.default).2
      rw [show players.subscript client.ownID default = (player, looked) from hown] at hlooked
      exact ⟨⟨hlooked, h.powerups, h.grid⟩, fun m hm ↦ by cases hm⟩
  | @ate player looked head tail before after eaten hown _ hpowerups _ _ =>
      obtain ⟨hplayer, hlooked⟩ := hplayers.subscript client.ownID Player.OnBoard.default
      rw [show players.subscript client.ownID default = (player, looked) from hown] at hplayer hlooked
      have hold : ∀ powerup ∈ before ++ eaten :: after, powerup.position.OnBoard := by
        rw [← show client.powerups = before ++ eaten :: after from hpowerups]
        exact h.powerups
      refine ⟨⟨hlooked.insert _ ⟨hplayer.tail, hplayer.grid⟩, fun powerup hpowerup ↦ ?_, h.grid⟩,
        fun m hm ↦ ⟨eaten.data, ?_, ?_⟩⟩
      · apply hold
        exact (List.perm_middle.mem_iff).mpr (List.mem_cons_of_mem _ hpowerup)
      · exact hold eaten (List.mem_append_right _ (List.mem_cons_self ..))
      · exact (Option.mem_some_iff.mp hm).symm

theorem steer (h : client.OnBoard) (pressed : Bool) (opposite direction : Direction) :
    (client.steer pressed opposite direction).OnBoard := by
  rcases steer_cases client pressed opposite direction with hsame | ⟨player, players, hown, hturned⟩
  · rw [hsame]
    exact h
  · obtain ⟨hplayer, hplayers⟩ := h.players.subscript client.ownID Player.OnBoard.default
    rw [hown] at hplayer hplayers
    rcases hturned with heq | heq
    · rw [heq]
      exact ⟨hplayers, h.powerups, h.grid⟩
    · rw [heq]
      exact ⟨hplayers.insert _ ⟨hplayer.tail, hplayer.grid⟩, h.powerups, h.grid⟩

theorem keyCallback (h : client.OnBoard) (key : Key) (press : Bool) :
    (client.keyCallback key press).1.OnBoard := by
  unfold SnakeClient.keyCallback
  split
  · exact h
  · exact (((h.steer _ _ _).steer _ _ _).steer _ _ _).steer _ _ _

/-- The report of a client on the board, which may be about a player that it inserts. -/
theorem updateServer (h : client.OnBoard) (platform : Platform) :
    (client.updateServer platform).1.OnBoard ∧ ∃ tail direction,
      (∀ pos ∈ tail, pos.OnBoard) ∧ (client.updateServer platform).2 =
        updatePlayerMsg platform tail direction client.clientID := by
  obtain ⟨hplayer, hplayers⟩ := h.players.subscript client.ownID Player.OnBoard.default
  exact ⟨⟨hplayers, h.powerups, h.grid⟩, _, _, hplayer.tail, rfl⟩

end OnBoard

end SnakeClient

end SnekCpp
