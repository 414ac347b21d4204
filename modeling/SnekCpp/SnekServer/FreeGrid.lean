import SnekCpp.Snek.Board
import SnekCpp.SnekServer.Server

/-!
# The free cells of the grid

`GetFreeGrid` marks an array at every cell of a tail and of a powerup and then
collects the unmarked cells.  Its loops find every cell that nothing covers, and
each of them once.
-/

namespace SnekCpp

open Lib Networking

/-- The cells of the grid, column by column. -/
def gridCells : List Position :=
  (List.range gridWidth).flatMap fun x ↦
    (List.range gridHeight).map fun y ↦ ⟨Int32.ofNat x, Int32.ofNat y⟩

theorem toInt_ofNat_of_lt_width {x : ℕ} (hx : x < gridWidth) : (Int32.ofNat x).toInt = x :=
  Int32.toInt_ofNat_of_lt (hx.trans (by decide))

theorem toInt_ofNat_of_lt_height {y : ℕ} (hy : y < gridHeight) : (Int32.ofNat y).toInt = y :=
  Int32.toInt_ofNat_of_lt (hy.trans (by decide))

theorem exists_nat_of_bounds {a : Int32} {bound : ℕ} (hlo : 0 ≤ a.toInt) (hhi : a.toInt < bound) :
    ∃ n < bound, Int32.ofNat n = a := by
  refine ⟨a.toInt.toNat, by omega, ?_⟩
  rw [← Int32.ofInt_eq_ofNat, Int.toNat_of_nonneg hlo, Int32.ofInt_toInt]

theorem mem_gridCells {pos : Position} : pos ∈ gridCells ↔ pos.OnBoard := by
  simp only [gridCells, List.mem_flatMap, List.mem_map, List.mem_range]
  constructor
  · rintro ⟨x, hx, y, hy, rfl⟩
    refine ⟨?_, ?_, ?_, ?_⟩
    · simp [toInt_ofNat_of_lt_width hx]
    · simpa [toInt_ofNat_of_lt_width hx] using hx
    · simp [toInt_ofNat_of_lt_height hy]
    · simpa [toInt_ofNat_of_lt_height hy] using hy
  · intro hpos
    obtain ⟨x, hx, hxeq⟩ := exists_nat_of_bounds hpos.x_nonneg hpos.x_lt
    obtain ⟨y, hy, hyeq⟩ := exists_nat_of_bounds hpos.y_nonneg hpos.y_lt
    exact ⟨x, hx, y, hy, by rw [hxeq, hyeq]⟩

theorem nodup_gridCells : gridCells.Nodup := by
  have hinj : ∀ {bound : ℕ}, bound < 2 ^ 31 → ∀ m < bound, ∀ n < bound,
      Int32.ofNat m = Int32.ofNat n → m = n := by
    intro bound hbound m hm n hn heq
    have htoInt := congrArg Int32.toInt heq
    rw [Int32.toInt_ofNat_of_lt (hm.trans hbound), Int32.toInt_ofNat_of_lt (hn.trans hbound)]
      at htoInt
    exact Int.ofNat_inj.mp htoInt
  refine List.nodup_flatMap.mpr ⟨fun x _ ↦ ?_, ?_⟩
  · refine List.nodup_range.map_on fun m hm n hn heq ↦ ?_
    rw [List.mem_range] at hm hn
    exact hinj (by decide) m hm n hn (congrArg Position.y heq)
  · refine List.nodup_range.imp_of_mem fun {m n} hm hn hne ↦ ?_
    rw [List.mem_range] at hm hn
    intro pos hm' hn'
    obtain ⟨y, -, rfl⟩ := List.mem_map.mp hm'
    obtain ⟨y', -, heq⟩ := List.mem_map.mp hn'
    exact hne (hinj (by decide) m hm n hn (congrArg Position.x heq.symm))

namespace Server

/-! ## The loops -/

/-- `freeGridArray[pos.x][pos.y] = 1` -/
def markCell (freeGridArray : Position → Int32) (pos : Position) :
    Except Fault (Position → Int32) :=
  if pos.OnBoard then .ok (Function.update freeGridArray pos 1) else .error .gridIndex

def markTail (freeGridArray : Position → Int32) (player : UInt32 × PlayerData) :
    Except Fault (Position → Int32) :=
  player.2.tail.foldlM markCell freeGridArray

def collectFree (freeGridArray : Position → Int32) : List Position :=
  (List.range gridWidth).foldl (fun freeGrid x ↦
    (List.range gridHeight).foldl (fun freeGrid y ↦
      let pos : Position := ⟨Int32.ofNat x, Int32.ofNat y⟩
      if freeGridArray pos = 0 then freeGrid ++ [pos] else freeGrid) freeGrid) []

/-- `GetFreeGrid`, loop by loop. -/
def getFreeGridLoops (env : Env) (s : Server) : Except Fault (List Position) := do
  let freeGridArray ← (env.iteration s.players).foldlM markTail fun _ ↦ 0
  let freeGridArray ← s.powerups.foldlM (fun freeGridArray powerup ↦
    markCell freeGridArray powerup.position) freeGridArray
  return collectFree freeGridArray

/-- The cells of the tails and of the powerups. -/
def covered (s : Server) : List Position :=
  s.players.entries.flatMap (fun entry ↦ entry.2.tail) ++ s.powerups.map PowerupData.position

def freeGrid (s : Server) : List Position :=
  gridCells.filter fun cell ↦ !s.covered.contains cell

theorem mem_covered {s : Server} {pos : Position} : pos ∈ s.covered ↔
    (∃ id player, s.players.lookup id = some player ∧ pos ∈ player.tail) ∨
      ∃ powerup ∈ s.powerups, powerup.position = pos := by
  simp only [covered, List.mem_append, List.mem_flatMap, List.mem_map]
  refine or_congr_left ⟨?_, ?_⟩
  · rintro ⟨⟨id, player⟩, hentry, hpos⟩
    exact ⟨id, player, (AssocMap.mem_entries_iff _ _ _).mp hentry, hpos⟩
  · rintro ⟨id, player, hlookup, hpos⟩
    exact ⟨⟨id, player⟩, (AssocMap.mem_entries_iff _ _ _).mpr hlookup, hpos⟩

theorem mem_freeGrid {s : Server} {pos : Position} :
    pos ∈ s.freeGrid ↔ pos.OnBoard ∧ pos ∉ s.covered := by
  simp [freeGrid, mem_gridCells]

theorem nodup_freeGrid (s : Server) : s.freeGrid.Nodup := nodup_gridCells.filter _

theorem foldlM_markCell (freeGridArray : Position → Int32) (cells : List Position) :
    cells.foldlM markCell freeGridArray =
      if ∀ pos ∈ cells, pos.OnBoard then
        .ok fun pos ↦ if pos ∈ cells then 1 else freeGridArray pos
      else .error .gridIndex := by
  induction cells generalizing freeGridArray with
  | nil => simp [pure, Except.pure]
  | cons cell cells ih =>
      rw [List.foldlM_cons, markCell]
      by_cases hcell : cell.OnBoard
      · have hupdate : (fun pos ↦ if pos ∈ cells then 1 else Function.update freeGridArray cell 1 pos) =
            fun pos ↦ if pos ∈ cell :: cells then 1 else freeGridArray pos := by
          funext pos
          by_cases hpos : pos = cell
          · simp [hpos]
          · simp [hpos]
        simp only [hcell, if_true, bind, Except.bind, ih, List.forall_mem_cons, true_and, hupdate]
      · simp [hcell, bind, Except.bind]

theorem foldlM_markTail (freeGridArray : Position → Int32) (players : List (UInt32 × PlayerData)) :
    players.foldlM markTail freeGridArray =
      (players.flatMap fun player ↦ player.2.tail).foldlM markCell freeGridArray := by
  induction players generalizing freeGridArray with
  | nil => rfl
  | cons player players ih =>
      rw [List.foldlM_cons, List.flatMap_cons, List.foldlM_append]
      exact congrArg _ (funext ih)

theorem collectFree_eq (freeGridArray : Position → Int32) :
    collectFree freeGridArray = gridCells.filter fun cell ↦ freeGridArray cell = 0 := by
  have hfilter : ∀ cells freeGrid : List Position,
      cells.foldl (fun freeGrid cell ↦
        if freeGridArray cell = 0 then freeGrid ++ [cell] else freeGrid) freeGrid =
        freeGrid ++ cells.filter fun cell ↦ freeGridArray cell = 0 := by
    intro cells
    induction cells with
    | nil => simp
    | cons cell cells ih =>
        intro freeGrid
        rw [List.foldl_cons, ih]
        by_cases hfree : freeGridArray cell = 0
        · simp [hfree]
        · simp [hfree]
  have hloops : collectFree freeGridArray = gridCells.foldl (fun freeGrid cell ↦
      if freeGridArray cell = 0 then freeGrid ++ [cell] else freeGrid) [] := by
    simp only [collectFree, gridCells, List.foldl_flatMap, List.foldl_map]
  rw [hloops, hfilter, List.nil_append]

/-- Whatever the order of the players, the loops end with the cells that nothing covers. -/
theorem getFreeGridLoops_eq (env : Env) (s : Server) :
    s.getFreeGridLoops env =
      if ∀ pos ∈ s.covered, pos.OnBoard then .ok s.freeGrid else .error .gridIndex := by
  let marked := (env.iteration s.players).flatMap (fun player ↦ player.2.tail) ++
    s.powerups.map PowerupData.position
  have hmem : ∀ pos, pos ∈ marked ↔ pos ∈ s.covered := by
    intro pos
    rw [mem_covered]
    simp only [marked, List.mem_append, List.mem_flatMap, List.mem_map]
    refine or_congr_left ⟨?_, ?_⟩
    · rintro ⟨⟨id, player⟩, hentry, hpos⟩
      exact ⟨id, player, env.mem_iteration.mp hentry, hpos⟩
    · rintro ⟨id, player, hlookup, hpos⟩
      exact ⟨(id, player), env.mem_iteration.mpr hlookup, hpos⟩
  have hloops : s.getFreeGridLoops env =
      (marked.foldlM markCell fun _ ↦ 0).map collectFree := by
    simp only [getFreeGridLoops, marked, foldlM_markTail, List.foldlM_append, List.foldlM_map]
    cases List.foldlM markCell (fun _ ↦ 0)
        ((env.iteration s.players).flatMap fun player ↦ player.2.tail) with
    | error fault => rfl
    | ok freeGridArray =>
        simp only [bind, Except.bind]
        cases s.powerups.foldlM (fun freeGridArray powerup ↦
            markCell freeGridArray powerup.position) freeGridArray <;> rfl
  rw [hloops, foldlM_markCell]
  simp only [hmem]
  split
  · simp only [Except.map, collectFree_eq, freeGrid]
    congr 1
    refine List.filter_congr fun cell _ ↦ ?_
    by_cases hcell : cell ∈ s.covered
    · simp [hcell]
    · simp [hcell]
  · rfl

theorem run_getFreeGrid_eq (s : Server) :
    getFreeGrid.run s =
      if ∀ pos ∈ s.covered, pos.OnBoard then .ok s.freeGrid s else .error .gridIndex s := by
  have hall : s.covered.all (fun pos ↦
      decide (0 ≤ pos.x.toInt) && decide (pos.x.toInt < gridWidth) &&
        decide (0 ≤ pos.y.toInt) && decide (pos.y.toInt < gridHeight)) = true ↔
          ∀ pos ∈ s.covered, pos.OnBoard := by
    rw [List.all_eq_true]
    refine forall₂_congr fun pos _ ↦ ?_
    simp [Position.onBoard_iff, and_assoc]
  by_cases hcovered : ∀ pos ∈ s.covered, pos.OnBoard
  · have hin := hall.mpr hcovered
    rw [if_pos hcovered]
    simp only [covered] at hin
    simp only [getFreeGrid, EStateM.run_bind, EStateM.run_get, hin, if_true]
    rfl
  · have hout : ¬ _ = true := fun hin ↦ hcovered (hall.mp hin)
    rw [if_neg hcovered]
    simp only [covered] at hout
    simp only [getFreeGrid, EStateM.run_bind, EStateM.run_get, if_neg hout]
    rfl

/-- The definition of `getFreeGrid` and the loops agree. -/
theorem run_getFreeGrid_eq_loops (env : Env) (s : Server) :
    getFreeGrid.run s =
      match s.getFreeGridLoops env with
      | .ok freeGrid => .ok freeGrid s
      | .error fault => .error fault s := by
  rw [run_getFreeGrid_eq, getFreeGridLoops_eq]
  split <;> rfl

end Server

end SnekCpp
