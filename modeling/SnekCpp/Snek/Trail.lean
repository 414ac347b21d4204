import SnekCpp.Lib.Torus
import SnekCpp.Snek.Board

/-!
# The trail of a snake

The tail of a living snake is the trace of its head.  The cells that the head
has been on and the steps that it took are kept as a history beside the player.
-/

namespace SnekCpp

open Lib Networking

/-! ## One step on the grid -/

/-- `b` is one step from `a`, around the border if need be. -/
def OneStep (count a b : Int32) : Prop :=
  b.toInt ≡ a.toInt + 1 [ZMOD count.toInt] ∨ b.toInt ≡ a.toInt - 1 [ZMOD count.toInt]

theorem cast_emod (z : ℤ) {count : ℤ} (h : 0 ≤ count) :
    ((z % count : ℤ) : ZMod count.toNat) = z := by
  rw [ZMod.intCast_eq_intCast_iff, Int.toNat_of_nonneg h]
  exact Int.mod_modEq z count

section Coordinate

variable {a count : Int32} (hlo : 0 ≤ a.toInt) (hhi : a.toInt < count.toInt)
  (hcount : count.toInt < 2 ^ 30)

include hlo hhi hcount

theorem oneStep_wrap_sub_one : OneStep count (((a - 1) + count) % count) a := by
  left
  rw [toInt_wrap_sub_one (by omega) hhi hcount]
  have hback := (Int.mod_modEq (a.toInt - 1) count.toInt).add_right 1
  rw [Int.sub_add_cancel] at hback
  exact hback.symm

theorem oneStep_wrap_add_one : OneStep count (((a + 1) + count) % count) a := by
  right
  rw [toInt_wrap_add_one (by omega) hhi hcount]
  have hback := (Int.mod_modEq (a.toInt + 1) count.toInt).sub_right 1
  rw [Int.add_sub_cancel] at hback
  exact hback.symm

theorem cast_wrap_sub_one :
    (((((a - 1) + count) % count).toInt : ℤ) : ZMod count.toInt.toNat) = a.toInt - 1 := by
  rw [toInt_wrap_sub_one (by omega) hhi hcount, cast_emod _ (by omega), Int.cast_sub, Int.cast_one]

theorem cast_wrap_add_one :
    (((((a + 1) + count) % count).toInt : ℤ) : ZMod count.toInt.toNat) = a.toInt + 1 := by
  rw [toInt_wrap_add_one (by omega) hhi hcount, cast_emod _ (by omega), Int.cast_add, Int.cast_one]

end Coordinate

namespace Grid

/-- The cell that `Move` puts in front of the tail. -/
def go (grid : Grid) : Heading → Position → Position
  | .up => Player.moveUp grid
  | .right => Player.moveRight grid
  | .down => Player.moveDown grid
  | .left => Player.moveLeft grid

/-- A cell of this grid. -/
structure Contains (grid : Grid) (pos : Position) : Prop where
  x_nonneg : 0 ≤ pos.x.toInt
  x_lt : pos.x.toInt < grid.getColCount.toInt
  y_nonneg : 0 ≤ pos.y.toInt
  y_lt : pos.y.toInt < grid.getRowCount.toInt

/-- The sums that `Move` computes for the cells of this grid are no larger than
the largest `int`. -/
structure FitsInt (grid : Grid) : Prop where
  cols : grid.getColCount.toInt < 2 ^ 30
  rows : grid.getRowCount.toInt < 2 ^ 30

theorem fitsInt_mainGrid : mainGrid.FitsInt := ⟨by decide, by decide⟩

theorem contains_mainGrid {pos : Position} (h : pos.OnBoard) : mainGrid.Contains pos :=
  ⟨h.x_nonneg, toInt_cols ▸ h.x_lt, h.y_nonneg, toInt_rows ▸ h.y_lt⟩

/-- The cells differ by one step in one coordinate. -/
def Adjacent (grid : Grid) (a b : Position) : Prop :=
  OneStep grid.getColCount a.x b.x ∧ a.y = b.y ∨ a.x = b.x ∧ OneStep grid.getRowCount a.y b.y

/-- The cell on the torus. -/
def cell (grid : Grid) (pos : Position) :
    ZMod grid.getColCount.toInt.toNat × ZMod grid.getRowCount.toInt.toNat :=
  (pos.x.toInt, pos.y.toInt)

variable {grid : Grid} {pos : Position}

theorem contains_go (hfits : grid.FitsInt) (h : grid.Contains pos) (heading : Heading) :
    grid.Contains (grid.go heading pos) := by
  cases heading with
  | up =>
      have hwrap := wrap_sub_one_mem h.y_nonneg h.y_lt hfits.rows
      exact ⟨h.x_nonneg, h.x_lt, hwrap.1, hwrap.2⟩
  | right =>
      have hwrap := wrap_add_one_mem h.x_nonneg h.x_lt hfits.cols
      exact ⟨hwrap.1, hwrap.2, h.y_nonneg, h.y_lt⟩
  | down =>
      have hwrap := wrap_add_one_mem h.y_nonneg h.y_lt hfits.rows
      exact ⟨h.x_nonneg, h.x_lt, hwrap.1, hwrap.2⟩
  | left =>
      have hwrap := wrap_sub_one_mem h.x_nonneg h.x_lt hfits.cols
      exact ⟨hwrap.1, hwrap.2, h.y_nonneg, h.y_lt⟩

theorem adjacent_go (hfits : grid.FitsInt) (h : grid.Contains pos) (heading : Heading) :
    grid.Adjacent (grid.go heading pos) pos := by
  cases heading with
  | up => exact .inr ⟨rfl, oneStep_wrap_sub_one h.y_nonneg h.y_lt hfits.rows⟩
  | right => exact .inl ⟨oneStep_wrap_add_one h.x_nonneg h.x_lt hfits.cols, rfl⟩
  | down => exact .inr ⟨rfl, oneStep_wrap_add_one h.y_nonneg h.y_lt hfits.rows⟩
  | left => exact .inl ⟨oneStep_wrap_sub_one h.x_nonneg h.x_lt hfits.cols, rfl⟩

/-- A step of the snake is a step on the torus. -/
theorem cell_go (hfits : grid.FitsInt) (h : grid.Contains pos) (heading : Heading) :
    grid.cell (grid.go heading pos) = heading.vector _ _ + grid.cell pos := by
  rw [add_comm]
  cases heading with
  | up =>
      refine Prod.ext (add_zero _).symm ?_
      exact (cast_wrap_sub_one h.y_nonneg h.y_lt hfits.rows).trans (sub_eq_add_neg _ _)
  | right => exact Prod.ext (cast_wrap_add_one h.x_nonneg h.x_lt hfits.cols) (add_zero _).symm
  | down => exact Prod.ext (add_zero _).symm (cast_wrap_add_one h.y_nonneg h.y_lt hfits.rows)
  | left =>
      refine Prod.ext ?_ (add_zero _).symm
      exact (cast_wrap_sub_one h.x_nonneg h.x_lt hfits.cols).trans (sub_eq_add_neg _ _)

end Grid

/-! ## The trail -/

/-- The step of a move in this direction, none for a value without a name. -/
def Direction.heading : Direction → Option Heading
  | .up => some .up
  | .right => some .right
  | .down => some .down
  | .left => some .left
  | .unnamed _ _ => none

/-- The cells that a head was on and the steps between them, newest first. -/
inductive Trail (grid : Grid) : List Position → List Heading → Prop
  | start {pos : Position} (h : grid.Contains pos) : Trail grid [pos] []
  | step {head : Position} {heads : List Position} {headings : List Heading} (heading : Heading)
      (h : Trail grid (head :: heads) headings) :
      Trail grid (grid.go heading head :: head :: heads) (heading :: headings)

namespace Trail

variable {grid : Grid} {heads : List Position} {headings : List Heading}

theorem contains (hfits : grid.FitsInt) (h : Trail grid heads headings) :
    ∀ pos ∈ heads, grid.Contains pos := by
  induction h with
  | start h => simpa using h
  | step heading h ih =>
      intro pos hpos
      rcases List.mem_cons.mp hpos with rfl | hpos
      · exact Grid.contains_go hfits (ih _ (by simp)) heading
      · exact ih pos hpos

theorem adjacent (hfits : grid.FitsInt) (h : Trail grid heads headings) :
    heads.IsChain grid.Adjacent := by
  induction h with
  | start h => exact .singleton _
  | step heading h ih =>
      exact ih.cons_cons (Grid.adjacent_go hfits (h.contains hfits _ (by simp)) heading)

/-- The newest cell is as far from an older one as the steps between them lead. -/
theorem cell_head (hfits : grid.FitsInt) {head pos : Position} {rest : List Position} {i : ℕ}
    (h : Trail grid (head :: rest) headings) (hpos : (head :: rest)[i]? = some pos) :
    i ≤ headings.length ∧
      grid.cell head = displacement _ _ (headings.take i) + grid.cell pos := by
  induction i generalizing head rest headings with
  | zero =>
      obtain rfl : head = pos := by simpa using hpos
      simp
  | succ i ih =>
      cases h with
      | start h => simp at hpos
      | @step before heads headings heading h =>
          obtain ⟨hle, hcell⟩ := ih h (by simpa using hpos)
          refine ⟨by simpa using hle, ?_⟩
          rw [Grid.cell_go hfits (h.contains hfits _ (by simp)), hcell, List.take_succ_cons,
            displacement_cons, add_assoc]

/-- The steps since a cell that the head has come back to lead nowhere. -/
theorem displacement_eq_zero (hfits : grid.FitsInt) {head : Position} {rest : List Position}
    {i : ℕ} (h : Trail grid (head :: rest) headings) (hback : (head :: rest)[i]? = some head) :
    displacement grid.getColCount.toInt.toNat grid.getRowCount.toInt.toNat (headings.take i) = 0 := by
  obtain ⟨-, hcell⟩ := h.cell_head hfits hback
  simpa using hcell.symm

end Trail

/-! ## The history of a player -/

/-- What the client does to a player between its creation and its death. -/
inductive Action
  | setDirection (direction : Direction)
  | addLength (l : Int32)
  | move

/-- A player with the cells that its head was on and the steps of its moves, newest first. -/
structure Traced where
  player : Player
  heads : List Position
  headings : List Heading

namespace Traced

/-- A player as `HandleMessages` creates it, with one cell. -/
def start (grid : Grid) (color : ImU32) (pos : Position) : Traced where
  player := { Player.create grid color with tail := [pos] }
  heads := [pos]
  headings := []

def act (t : Traced) : Action → Except Fault Traced
  | .setDirection direction => .ok { t with player := t.player.setDirection direction }
  | .addLength l => .ok { t with player := t.player.addLength l }
  | .move => do
      let player ← t.player.move
      match t.player.direction.heading with
      | some heading => return ⟨player, (← player.getHead) :: t.heads, heading :: t.headings⟩
      -- a value without a name is no case of the switch, and the head stays where it is
      | none => return { t with player }

def perform (t : Traced) (actions : List Action) : Except Fault Traced :=
  actions.foldlM act t

end Traced

namespace Player

theorem move_of_alive {player : Player} {grid : Grid} {head : Position} {rest : List Position}
    (halive : player.alive = true) (hgrid : player.grid = some grid)
    (htail : player.tail = head :: rest) :
    player.move =
      match player.direction.heading with
      | some heading => .ok { player with tail := grid.go heading head :: head :: rest }.updateTail
      | none => .ok player := by
  unfold move emplaceHead
  rw [halive, hgrid, htail]
  cases player.direction <;> rfl

/-- What is left of the tail after a move is the new head and the newest of the old cells. -/
theorem updateTail_prefix (player : Player) : player.updateTail.tail <+: player.tail := by
  unfold updateTail
  split
  · exact List.prefix_rfl
  · exact List.dropLast_prefix _

theorem getHead_updateTail {player : Player} {next head : Position} {rest : List Position}
    (h : player.tail = next :: head :: rest) : player.updateTail.getHead = .ok next := by
  by_cases hfood : 0 < player.food <;> simp [updateTail, getHead, hfood, h]

end Player

namespace Traced

variable {grid : Grid} {t t' : Traced}

/-- The tail is the newest part of the trail. -/
structure Follows (grid : Grid) (t : Traced) : Prop where
  alive : t.player.alive = true
  onGrid : t.player.grid = some grid
  trail : Trail grid t.heads t.headings
  tail_ne : t.player.tail ≠ []
  recent : t.player.tail <+: t.heads

theorem Follows.start {pos : Position} (h : grid.Contains pos) (color : ImU32) :
    (Traced.start grid color pos).Follows grid :=
  ⟨rfl, rfl, .start h, by simp [Traced.start], List.prefix_rfl⟩

theorem Follows.exists_head (h : t.Follows grid) :
    ∃ head rest older, t.player.tail = head :: rest ∧ t.heads = head :: older ∧
      rest <+: older := by
  obtain ⟨head, rest, htail⟩ := List.exists_cons_of_ne_nil h.tail_ne
  obtain ⟨older, holder⟩ := h.recent
  rw [htail] at holder
  exact ⟨head, rest, rest ++ older, htail, holder.symm, List.prefix_append ..⟩

/-- What a move does to a player that follows its trail. -/
theorem Follows.act_move (h : t.Follows grid) {head : Position} {rest : List Position}
    (htail : t.player.tail = head :: rest) :
    t.act .move =
      match t.player.direction.heading with
      | some heading => .ok
          ⟨{ t.player with tail := grid.go heading head :: head :: rest }.updateTail,
            grid.go heading head :: t.heads, heading :: t.headings⟩
      | none => .ok t := by
  rw [act, Player.move_of_alive h.alive h.onGrid htail]
  cases hheading : t.player.direction.heading with
  | none => rfl
  | some heading =>
      simp only [bind, Except.bind]
      rw [Player.getHead_updateTail rfl]
      rfl

theorem Follows.act (h : t.Follows grid) (action : Action) :
    ∃ t', t.act action = .ok t' ∧ t'.Follows grid := by
  cases action with
  | setDirection direction => exact ⟨_, rfl, h.alive, h.onGrid, h.trail, h.tail_ne, h.recent⟩
  | addLength l => exact ⟨_, rfl, h.alive, h.onGrid, h.trail, h.tail_ne, h.recent⟩
  | move =>
      obtain ⟨head, rest, older, htail, hheads, hrecent⟩ := h.exists_head
      rw [h.act_move htail]
      cases t.player.direction.heading with
      | none => exact ⟨t, rfl, h⟩
      | some heading =>
          have htrail := h.trail
          rw [hheads] at htrail
          refine ⟨_, rfl, ?_, ?_, ?_, Player.updateTail_tail_ne_nil rfl, ?_⟩
          · simp [h.alive]
          · simp [h.onGrid]
          · simpa only [hheads] using htrail.step heading
          · refine (Player.updateTail_prefix _).trans ?_
            simp only [hheads]
            exact (List.prefix_cons_inj _).mpr ((List.prefix_cons_inj _).mpr hrecent)

/-- No action fails, and the tail keeps following the head. -/
theorem Follows.perform (h : t.Follows grid) (actions : List Action) :
    ∃ t', t.perform actions = .ok t' ∧ t'.Follows grid := by
  induction actions generalizing t with
  | nil => exact ⟨t, rfl, h⟩
  | cons action actions ih =>
      obtain ⟨next, hact, hnext⟩ := h.act action
      obtain ⟨t', hperform, ht'⟩ := ih hnext
      refine ⟨t', ?_, ht'⟩
      simp only [Traced.perform, List.foldlM_cons, hact, bind, Except.bind]
      exact hperform

end Traced

/-! ## Growth -/

/-- The length that an action grants. -/
def Action.amount : Action → ℤ
  | .addLength l => l.toInt
  | _ => 0

def granted (actions : List Action) : ℤ := (actions.map Action.amount).sum

@[simp] theorem granted_nil : granted [] = 0 := rfl

@[simp] theorem granted_cons (action : Action) (actions : List Action) :
    granted (action :: actions) = action.amount + granted actions := by
  simp [granted]

theorem granted_nonneg {actions : List Action} (h : ∀ action ∈ actions, 0 ≤ action.amount) :
    0 ≤ granted actions :=
  List.sum_nonneg (by simpa using h)

/-- A longer tail is paid for with food. -/
theorem Player.length_updateTail {player : Player} (hfood : 0 ≤ player.food.toInt)
    (htail : player.tail ≠ []) :
    0 ≤ player.updateTail.food.toInt ∧
      (player.updateTail.tail.length : ℤ) + player.updateTail.food.toInt + 1 =
        player.tail.length + player.food.toInt ∧
      player.tail.length ≤ player.updateTail.tail.length + 1 := by
  have hlength : 0 < player.tail.length := List.length_pos_iff.mpr htail
  have hone : (1 : Int32).toInt = 1 := rfl
  have hmax := player.food.toInt_lt
  unfold updateTail
  split
  · next hpos =>
      have hpos' : 0 < player.food.toInt := Int32.lt_iff_toInt_lt.mp hpos
      have hless : (player.food - 1).toInt = player.food.toInt - 1 := by
        rw [toInt_sub_of_small (by rw [hone]; omega) (by rw [hone]; omega), hone]
      simp only [hless]
      omega
  · next hpos =>
      have hzero : player.food.toInt = 0 := by
        have hle : ¬ (0 : Int32).toInt < player.food.toInt := fun hlt ↦
          hpos (Int32.lt_iff_toInt_lt.mpr hlt)
        have hrfl : (0 : Int32).toInt = 0 := rfl
        omega
      simp only [List.length_dropLast]
      omega

namespace Traced

variable {grid : Grid} {t t' : Traced} {before : ℤ}

/-- What was granted is in the tail or still to come, and there was one cell to begin with. -/
structure Fed (granted : ℤ) (t : Traced) : Prop where
  food_nonneg : 0 ≤ t.player.food.toInt
  balance : (t.player.tail.length : ℤ) + t.player.food.toInt = 1 + granted

theorem Fed.act (h : t.Fed before) (hfollows : t.Follows grid) {action : Action}
    (hamount : 0 ≤ action.amount) (hsum : before + action.amount < 2 ^ 31)
    (hact : t.act action = .ok t') :
    t'.Fed (before + action.amount) ∧ t.player.tail.length ≤ t'.player.tail.length := by
  have hbalance := h.balance
  cases action with
  | setDirection direction =>
      cases hact
      exact ⟨⟨h.food_nonneg, by simpa [Action.amount, Player.setDirection] using hbalance⟩, le_rfl⟩
  | addLength l =>
      cases hact
      have hfood := h.food_nonneg
      have hlength : 0 < t.player.tail.length := List.length_pos_iff.mpr hfollows.tail_ne
      simp only [Action.amount] at hamount hsum ⊢
      have hmore : (t.player.food + l).toInt = t.player.food.toInt + l.toInt :=
        toInt_add_of_small (by omega) (by omega)
      refine ⟨⟨?_, ?_⟩, le_rfl⟩
      · simp only [Player.addLength, hmore]
        omega
      · simp only [Player.addLength, hmore]
        omega
  | move =>
      obtain ⟨head, rest, older, htail, -, -⟩ := hfollows.exists_head
      rw [hfollows.act_move htail] at hact
      cases hheading : t.player.direction.heading with
      | none =>
          rw [hheading] at hact
          cases hact
          exact ⟨⟨h.food_nonneg, by simpa [Action.amount] using hbalance⟩, le_rfl⟩
      | some heading =>
          rw [hheading] at hact
          cases hact
          obtain ⟨hfood, hpaid, hgrown⟩ := @Player.length_updateTail
            { t.player with tail := grid.go heading head :: head :: rest } h.food_nonneg (by simp)
          rw [htail] at hbalance ⊢
          simp only [List.length_cons, Nat.cast_add, Nat.cast_one] at hbalance hpaid hgrown
          refine ⟨⟨hfood, ?_⟩, by simpa using hgrown⟩
          simp only [Action.amount]
          omega

theorem Fed.perform (h : t.Fed before) (hfollows : t.Follows grid) {actions : List Action}
    (hamounts : ∀ action ∈ actions, 0 ≤ action.amount) (hsum : before + granted actions < 2 ^ 31)
    (hperform : t.perform actions = .ok t') :
    t'.Fed (before + granted actions) ∧ t.player.tail.length ≤ t'.player.tail.length := by
  induction actions generalizing t before with
  | nil =>
      cases hperform
      exact ⟨by simpa using h, le_rfl⟩
  | cons action actions ih =>
      rw [List.forall_mem_cons] at hamounts
      have hrest := granted_nonneg hamounts.2
      rw [granted_cons] at hsum ⊢
      obtain ⟨next, hact, hnext⟩ := hfollows.act action
      obtain ⟨hfed, hgrown⟩ := h.act hfollows hamounts.1 (by omega) hact
      simp only [Traced.perform, List.foldlM_cons, hact, bind, Except.bind] at hperform
      obtain ⟨hfed', hgrown'⟩ := ih hfed hnext hamounts.2 (by omega) hperform
      rw [add_assoc] at hfed'
      exact ⟨hfed', hgrown.trans hgrown'⟩

theorem perform_append (t : Traced) (first second : List Action) :
    t.perform (first ++ second) = t.perform first >>= fun t' ↦ t'.perform second := by
  rw [perform, List.foldlM_append]
  rfl

/-- The tail is the trace of the head: the newest of its cells, as many as were
granted and have come out, each one step from the next. -/
theorem tail_is_trace (hfits : grid.FitsInt) {pos : Position} (hpos : grid.Contains pos)
    (color : ImU32) {actions : List Action} (hamounts : ∀ action ∈ actions, 0 ≤ action.amount)
    (hsum : granted actions < 2 ^ 31) :
    ∃ t, (start grid color pos).perform actions = .ok t ∧
      t.player.tail = t.heads.take t.player.tail.length ∧
      (t.player.tail.length : ℤ) + t.player.food.toInt = 1 + granted actions ∧
      t.player.tail.IsChain grid.Adjacent ∧
      ∀ first second, actions = first ++ second → ∃ t', (start grid color pos).perform first = .ok t' ∧
        t'.player.tail.length ≤ t.player.tail.length := by
  have hstart := Follows.start hpos color
  have hfed : (start grid color pos).Fed 0 := ⟨le_rfl, rfl⟩
  obtain ⟨t, hperform, hfollows⟩ := hstart.perform actions
  obtain ⟨hbalance, -⟩ := hfed.perform hstart hamounts (by omega) hperform
  have hrecent := List.prefix_iff_eq_take.mp hfollows.recent
  refine ⟨t, hperform, hrecent, ?_, ?_, ?_⟩
  · simpa using hbalance.balance
  · rw [hrecent]
    exact (hfollows.trail.adjacent hfits).take _
  · rintro first second rfl
    obtain ⟨t', hfirst, hfollows'⟩ := hstart.perform first
    rw [List.forall_mem_append] at hamounts
    have hsplit : granted (first ++ second) = granted first + granted second := by
      simp [granted]
    have hsecond := granted_nonneg hamounts.2
    obtain ⟨hfed', -⟩ := hfed.perform hstart hamounts.1 (by omega) hfirst
    rw [perform_append, hfirst] at hperform
    exact ⟨t', hfirst, (hfed'.perform hfollows' hamounts.2 (by omega) hperform).2⟩

/-- One point of growth, granted at the left border and taken up two moves later. -/
theorem tail_is_trace_border :
    ∃ t, (start mainGrid 0 ⟨0, 10⟩).perform [.setDirection .left, .addLength 1, .move, .move] = .ok t ∧
      t.player.tail = t.heads.take t.player.tail.length ∧
      (t.player.tail.length : ℤ) + t.player.food.toInt = 1 + 1 ∧
      t.player.tail.IsChain mainGrid.Adjacent := by
  obtain ⟨t, hperform, htail, hbalance, hchain, -⟩ := @tail_is_trace mainGrid
    Grid.fitsInt_mainGrid ⟨0, 10⟩ (Grid.contains_mainGrid (by decide)) 0
    [.setDirection .left, .addLength 1, .move, .move] (by decide) (by decide)
  exact ⟨t, hperform, htail, hbalance, hchain⟩

end Traced

end SnekCpp
