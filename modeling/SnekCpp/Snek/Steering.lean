import SnekCpp.Snek.OwnPlayer
import SnekCpp.Snek.Trail

/-!
# Steering between two moves

Every key press is tested against the direction that the player has at that
time, which is the direction of its last move only for the first press.  Two
presses in one frame, one to the side and one against the last move, turn the
snake around.
-/

namespace SnekCpp

open Lib Networking

/-! ## Headings and presses -/

namespace Lib.Heading

/-- The heading after a press: the pressed one, unless it would turn around. -/
def press (current key : Heading) : Heading :=
  if current = key.opposite then current else key

/-- On the other axis. -/
def Across (a b : Heading) : Prop := a ≠ b ∧ a ≠ b.opposite

instance (a b : Heading) : Decidable (Across a b) := inferInstanceAs (Decidable (_ ∧ _))

theorem across_press_iff (last current key : Heading) :
    (current.press key).Across last ↔ key.Across last := by
  cases last <;> cases current <;> cases key <;> decide

theorem press_eq_opposite_iff (last current key : Heading) :
    current.press key = last.opposite ↔
      (current = last.opposite ∧ ¬ key.Across last) ∨
        (current.Across last ∧ key = last.opposite) := by
  cases last <;> cases current <;> cases key <;> decide

/-- The first press on the axis of the last move after the last press across it
is against the last move. -/
def TurnsBack (last : Heading) (presses : List Heading) : Prop :=
  ∃ before side after, presses = before ++ side :: last.opposite :: after ∧
    side.Across last ∧ ∀ key ∈ after, ¬ key.Across last

theorem across_foldl_press_iff (last : Heading) (presses : List Heading) :
    (presses.foldl press last).Across last ↔
      ∃ before side, presses = before ++ [side] ∧ side.Across last := by
  cases presses using List.reverseRecOn with
  | nil => simp [Across]
  | append_singleton presses key =>
      rw [List.foldl_append, List.foldl_cons, List.foldl_nil, across_press_iff]
      constructor
      · exact fun h ↦ ⟨presses, key, rfl, h⟩
      · rintro ⟨before, side, heq, h⟩
        obtain ⟨-, rfl⟩ := List.append_singleton_inj.mp heq
        exact h

/-- A snake is turned around by its presses exactly when the last side step of
the presses is followed by a press against its last move. -/
theorem foldl_press_eq_opposite_iff (last : Heading) (presses : List Heading) :
    presses.foldl press last = last.opposite ↔ TurnsBack last presses := by
  induction presses using List.reverseRecOn with
  | nil =>
      have hne : last ≠ last.opposite := by cases last <;> decide
      simp [TurnsBack, hne]
  | append_singleton presses key ih =>
      rw [List.foldl_append, List.foldl_cons, List.foldl_nil, press_eq_opposite_iff, ih,
        across_foldl_press_iff]
      constructor
      · rintro (⟨⟨before, side, after, rfl, hside, hafter⟩, hkey⟩ | ⟨⟨before, side, rfl, hside⟩, rfl⟩)
        · refine ⟨before, side, after ++ [key], by simp, hside, fun k hk ↦ ?_⟩
          rcases List.mem_append.mp hk with hk | hk
          · exact hafter k hk
          · rwa [List.mem_singleton.mp hk]
        · exact ⟨before, side, [], by simp, hside, by simp⟩
      · rintro ⟨before, side, after, heq, hside, hafter⟩
        cases after using List.reverseRecOn with
        | nil =>
            have hsplit : presses ++ [key] = (before ++ [side]) ++ [last.opposite] := by
              simpa using heq
            obtain ⟨rfl, rfl⟩ := List.append_singleton_inj.mp hsplit
            exact .inr ⟨⟨before, side, rfl, hside⟩, rfl⟩
        | append_singleton after k =>
            have hsplit : presses ++ [key] = (before ++ side :: last.opposite :: after) ++ [k] := by
              simpa using heq
            obtain ⟨rfl, rfl⟩ := List.append_singleton_inj.mp hsplit
            rw [List.forall_mem_append] at hafter
            exact .inl ⟨⟨before, side, after, rfl, hside, hafter.1⟩, hafter.2 key (by simp)⟩

/-! ## Presses on the client -/

def direction : Heading → Direction
  | up => .up
  | right => .right
  | down => .down
  | left => .left

@[simp] theorem heading_direction (heading : Heading) :
    heading.direction.heading = some heading := by
  cases heading <;> rfl

theorem direction_injective : Function.Injective direction := by
  intro a b h
  have hheading := congrArg Direction.heading h
  simpa using hheading

end Lib.Heading

theorem Direction.eq_direction {direction : Direction} {heading : Heading}
    (h : direction.heading = some heading) : direction = heading.direction := by
  cases direction <;> cases h <;> rfl

def SnakeClient.Key.heading : SnakeClient.Key → Option Heading
  | .w | .up => some .up
  | .a | .left => some .left
  | .s | .down => some .down
  | .d | .right => some .right
  | .p | .other => none

namespace SnakeClient

/-- `key_callback` for one event after the other. -/
def keyCallbacks (client : SnakeClient) (events : List (Key × Bool)) : SnakeClient :=
  events.foldl (fun client event ↦ (client.keyCallback event.1 event.2).1) client

/-- The headings that the events press. -/
def presses (events : List (Key × Bool)) : List Heading :=
  events.filterMap fun event ↦ if event.2 then event.1.heading else none

/-- Of the four movement tests at most one is for the key. -/
theorem keyCallback_fst (client : SnakeClient) (key : Key) (press : Bool) :
    (client.keyCallback key press).1 =
      if client.clientID < 0 then client
      else
        match if press then key.heading else none with
        | some heading => client.steer true heading.opposite.direction heading.direction
        | none => client := by
  unfold keyCallback
  split
  · rfl
  · cases key <;> cases press <;> rfl

theorem lookup_steer_own {client : SnakeClient} {player : Player}
    (hown : client.players.lookup client.ownID = some player) {current : Heading}
    (hcurrent : player.direction = current.direction) (heading : Heading) :
    (client.steer true heading.opposite.direction heading.direction).players.lookup client.ownID =
      some (player.setDirection (current.press heading).direction) := by
  have hsubscript := AssocMap.subscript_of_lookup hown default
  unfold ownID at hown hsubscript ⊢
  simp only [steer, if_true, hsubscript]
  by_cases hback : current = heading.opposite
  · have hsame : player.setDirection current.direction = player := by
      rw [← hcurrent]
      rfl
    rw [Heading.press, if_pos hback, hsame, hcurrent, hback, if_neg (not_not.mpr rfl)]
    exact hown
  · have hturn : player.direction ≠ heading.opposite.direction := fun heq ↦
      hback (Heading.direction_injective (hcurrent.symm.trans heq))
    rw [Heading.press, if_neg hback, if_pos hturn]
    exact AList.lookup_insert _

theorem lookup_steer_ne (client : SnakeClient) (pressed : Bool) (opposite direction : Direction)
    {id : UInt32} (hne : id ≠ client.ownID) :
    (client.steer pressed opposite direction).players.lookup id = client.players.lookup id := by
  rcases steer_cases client pressed opposite direction with
    heq | ⟨player, players, hown, hplayers⟩
  · rw [heq]
  · have hlooked : players.lookup id = client.players.lookup id := by
      have hsame := AssocMap.lookup_subscript_ne client.players default hne
      rwa [hown] at hsame
    rcases hplayers with heq | heq
    · rw [heq, ← hlooked]
    · rw [heq, ← hlooked]
      exact AList.lookup_insert_ne hne

theorem clientID_keyCallback (client : SnakeClient) (key : Key) (press : Bool) :
    (client.keyCallback key press).1.clientID = client.clientID :=
  (@Plays.keyCallback client _ key press _ rfl).clientID

/-- Presses turn the own player one after the other. -/
theorem lookup_keyCallbacks_own {client : SnakeClient} (hplaying : ¬ client.clientID < 0)
    {player : Player} (hown : client.players.lookup client.ownID = some player) {current : Heading}
    (hcurrent : player.direction = current.direction) (events : List (Key × Bool)) :
    (client.keyCallbacks events).players.lookup client.ownID =
      some (player.setDirection ((presses events).foldl Heading.press current).direction) := by
  induction events generalizing client player current with
  | nil =>
      have hsame : player.setDirection current.direction = player := by
        rw [← hcurrent]
        rfl
      simpa [keyCallbacks, presses, hsame] using hown
  | cons event events ih =>
      have hID := clientID_keyCallback client event.1 event.2
      have hplaying' : ¬ (client.keyCallback event.1 event.2).1.clientID < 0 := by rwa [hID]
      have hownID : (client.keyCallback event.1 event.2).1.ownID = client.ownID := by
        rw [ownID, hID, ownID]
      have hstep := keyCallback_fst client event.1 event.2
      rw [if_neg hplaying] at hstep
      rw [← hownID]
      cases hheading : (if event.2 then event.1.heading else none) with
      | none =>
          rw [hheading] at hstep
          have hpresses : presses (event :: events) = presses events := by
            simp [presses, hheading]
          rw [hpresses]
          refine ih hplaying' ?_ hcurrent
          rwa [hownID, hstep]
      | some heading =>
          rw [hheading] at hstep
          have hpresses : presses (event :: events) = heading :: presses events := by
            simp [presses, hheading]
          rw [hpresses, List.foldl_cons]
          have hown' : (client.keyCallback event.1 event.2).1.players.lookup
              (client.keyCallback event.1 event.2).1.ownID =
                some (player.setDirection (current.press heading).direction) := by
            rw [hownID, hstep]
            exact lookup_steer_own hown hcurrent heading
          exact ih hplaying' hown' rfl

theorem lookup_keyCallbacks_ne (client : SnakeClient) (events : List (Key × Bool)) {id : UInt32}
    (hne : id ≠ client.ownID) :
    (client.keyCallbacks events).players.lookup id = client.players.lookup id := by
  induction events generalizing client with
  | nil => rfl
  | cons event events ih =>
      have hownID : (client.keyCallback event.1 event.2).1.ownID = client.ownID := by
        rw [ownID, clientID_keyCallback, ownID]
      have hstep : (client.keyCallback event.1 event.2).1.players.lookup id =
          client.players.lookup id := by
        rw [keyCallback_fst]
        split
        · rfl
        · split
          · exact lookup_steer_ne client _ _ _ hne
          · rfl
      exact (ih _ (hownID.symm ▸ hne)).trans hstep

theorem keyCallbacks_of_neg {client : SnakeClient} (h : client.clientID < 0)
    (events : List (Key × Bool)) : client.keyCallbacks events = client := by
  induction events with
  | nil => rfl
  | cons event events ih =>
      have hstep : (client.keyCallback event.1 event.2).1 = client := by
        rw [keyCallback_fst, if_pos h]
      rw [keyCallbacks, List.foldl_cons, hstep]
      exact ih

end SnakeClient

/-! ## Two moves -/

/-- `b` is `a` moved by `step` on an axis of `count` cells, and is on the axis or
mirrored to below it. -/
structure Wraps (count : Int32) (step : ℤ) (a b : Int32) : Prop where
  lo : -count.toInt < b.toInt
  hi : b.toInt < count.toInt
  modEq : -count.toInt < a.toInt → a.toInt < count.toInt →
    b.toInt ≡ a.toInt + step [ZMOD count.toInt]

namespace Wraps

variable {count a b : Int32} {step : ℤ}

theorem remainder_mem (hpos : 0 < count.toInt) (a : Int32) :
    -count.toInt < (a % count).toInt ∧ (a % count).toInt < count.toInt := by
  rw [Int32.toInt_mod]
  exact ⟨Int.lt_tmod_of_pos _ hpos, Int.tmod_lt_of_pos _ hpos⟩

theorem add_one (hpos : 0 < count.toInt) (hcount : count.toInt < 2 ^ 30) (a : Int32) :
    Wraps count 1 a (((a + 1) + count) % count) := by
  obtain ⟨hlo, hhi⟩ := remainder_mem hpos ((a + 1) + count)
  refine ⟨hlo, hhi, fun halo hahi ↦ ?_⟩
  rw [toInt_wrap_add_one halo hahi hcount]
  exact Int.mod_modEq _ _

theorem sub_one (hpos : 0 < count.toInt) (hcount : count.toInt < 2 ^ 30) (a : Int32) :
    Wraps count (-1) a (((a - 1) + count) % count) := by
  obtain ⟨hlo, hhi⟩ := remainder_mem hpos ((a - 1) + count)
  refine ⟨hlo, hhi, fun halo hahi ↦ ?_⟩
  rw [toInt_wrap_sub_one halo hahi hcount, ← sub_eq_add_neg]
  exact Int.mod_modEq _ _

theorem ne (h : Wraps count step a b) (hstep : ¬ count.toInt ∣ step) : b ≠ a := by
  rintro rfl
  apply hstep
  have hsame := (Int.modEq_iff_dvd.mp (h.modEq h.lo h.hi))
  rwa [add_sub_cancel_left] at hsame

theorem ne_of_twice {c : Int32} (h : Wraps count step a b) (h' : Wraps count step b c)
    (hstep : ¬ count.toInt ∣ step + step) : c ≠ a := by
  rintro rfl
  apply hstep
  have hfirst := (h.modEq h'.lo h'.hi).add_right step
  have hback := Int.modEq_iff_dvd.mp ((h'.modEq h.lo h.hi).trans hfirst)
  rwa [add_assoc, add_sub_cancel_left] at hback

end Wraps

theorem mainGrid_go_go_ne {last next : Heading} (h : next ≠ last.opposite) (pos : Position) :
    mainGrid.go next (mainGrid.go last pos) ≠ pos := by
  have hx (a : Int32) := @Wraps.add_one mainGrid.getColCount (by decide) (by decide) a
  have hx' (a : Int32) := @Wraps.sub_one mainGrid.getColCount (by decide) (by decide) a
  have hy (a : Int32) := @Wraps.add_one mainGrid.getRowCount (by decide) (by decide) a
  have hy' (a : Int32) := @Wraps.sub_one mainGrid.getRowCount (by decide) (by decide) a
  intro heq
  obtain ⟨hcol, hrow⟩ := Position.mk.inj heq
  cases last with
  | up =>
      cases next with
      | up => exact (hy' pos.y).ne_of_twice (hy' _) (by decide) hrow
      | right => exact (hy' pos.y).ne (by decide) hrow
      | down => exact h rfl
      | left => exact (hy' pos.y).ne (by decide) hrow
  | right =>
      cases next with
      | up => exact (hx pos.x).ne (by decide) hcol
      | right => exact (hx pos.x).ne_of_twice (hx _) (by decide) hcol
      | down => exact (hx pos.x).ne (by decide) hcol
      | left => exact h rfl
  | down =>
      cases next with
      | up => exact h rfl
      | right => exact (hy pos.y).ne (by decide) hrow
      | down => exact (hy pos.y).ne_of_twice (hy _) (by decide) hrow
      | left => exact (hy pos.y).ne (by decide) hrow
  | left =>
      cases next with
      | up => exact (hx' pos.x).ne (by decide) hcol
      | right => exact h rfl
      | down => exact (hx' pos.x).ne (by decide) hcol
      | left => exact (hx' pos.x).ne_of_twice (hx' _) (by decide) hcol

/-- What a move in a named direction leaves in front. -/
theorem Player.move_eq {player moved : Player} {grid : Grid} {heading : Heading}
    (halive : player.alive = true) (hgrid : player.grid = some grid)
    (hheading : player.direction.heading = some heading) (hmove : player.move = .ok moved) :
    ∃ head rest, player.tail = head :: rest ∧
      moved = { player with tail := grid.go heading head :: head :: rest }.updateTail := by
  cases htail : player.tail with
  | nil =>
      unfold move emplaceHead at hmove
      rw [halive, htail] at hmove
      cases hdirection : player.direction with
      | unnamed value h =>
          rw [hdirection] at hheading
          cases hheading
      | _ =>
          rw [hdirection] at hmove
          cases hmove
  | cons head rest =>
      rw [move_of_alive halive hgrid htail, hheading] at hmove
      cases hmove
      exact ⟨head, rest, rfl, rfl⟩

theorem Player.head_updateTail {player : Player} {next head : Position} {rest : List Position}
    (h : player.tail = next :: head :: rest) : player.updateTail.tail.head? = some next := by
  by_cases hfood : 0 < player.food <;> simp [updateTail, hfood, h]

@[simp] theorem Player.updateTail_direction (player : Player) :
    player.updateTail.direction = player.direction := by
  unfold updateTail
  split <;> rfl

namespace SnakeClient

/-- The next move of the player does not go back on the last one, and does not
put its head on the cell that was the second one before. -/
def KeepsAhead (client : SnakeClient) (id : UInt32) (last : Heading) (second : Position) : Prop :=
  ∃ player next moved, client.players.lookup id = some player ∧
    player.direction.heading = some next ∧ player.move = .ok moved ∧
      next ≠ last.opposite ∧ moved.tail.head? ≠ some second

/-- A player that has just moved keeps ahead with any heading but the opposite one. -/
theorem keepsAhead_iff_heading {client : SnakeClient} {id : UInt32} {player : Player}
    {last next : Heading} {second : Position} {rest : List Position}
    (hplayer : client.players.lookup id = some player) (halive : player.alive = true)
    (hgrid : player.grid = some mainGrid) (hnext : player.direction.heading = some next)
    (htail : player.tail = mainGrid.go last second :: second :: rest) :
    client.KeepsAhead id last second ↔ next ≠ last.opposite := by
  constructor
  · rintro ⟨player', next', moved, hplayer', hnext', -, hne, -⟩
    rw [hplayer] at hplayer'
    cases hplayer'
    rw [hnext] at hnext'
    cases hnext'
    exact hne
  · intro hne
    have hmove := Player.move_of_alive halive hgrid htail
    rw [hnext] at hmove
    refine ⟨player, next, _, hplayer, hnext, hmove, hne, ?_⟩
    rw [Player.head_updateTail rfl]
    exact fun heq ↦ mainGrid_go_go_ne hne second (Option.some.inj heq)

/-- Between two moves of a player its snake keeps ahead exactly when the presses
do not turn it back. -/
theorem keepsAhead_iff {client : SnakeClient} {id : UInt32} {before player : Player}
    {last : Heading} {head second : Position} {rest : List Position}
    (halive : before.alive = true) (hgrid : before.grid = some mainGrid)
    (hlast : before.direction.heading = some last) (hmove : before.move = .ok player)
    (htail : player.tail = head :: second :: rest)
    (hplayer : client.players.lookup id = some player) (events : List (Key × Bool)) :
    (client.keyCallbacks events).KeepsAhead id last second ↔
      client.clientID < 0 ∨ id ≠ client.ownID ∨ ¬ last.TurnsBack (presses events) := by
  obtain ⟨pos, tail, -, hmoved⟩ := Player.move_eq halive hgrid hlast hmove
  have hdirection : player.direction = last.direction := by
    rw [hmoved, Player.updateTail_direction]
    exact Direction.eq_direction hlast
  have hprefix : head :: second :: rest <+: mainGrid.go last pos :: pos :: tail := by
    rw [← htail, hmoved]
    exact Player.updateTail_prefix _
  obtain ⟨rfl, hrest⟩ := List.cons_prefix_cons.mp hprefix
  obtain ⟨rfl, -⟩ := List.cons_prefix_cons.mp hrest
  have halive' : player.alive = true := by simp [hmoved, halive]
  have hgrid' : player.grid = some mainGrid := by simp [hmoved, hgrid]
  have hstays : (client.keyCallbacks events).players.lookup id = some player →
      (client.keyCallbacks events).KeepsAhead id last second := by
    intro hsame
    have hheading : player.direction.heading = some last := by
      rw [hdirection, Heading.heading_direction]
    have hne : last ≠ last.opposite := by cases last <;> decide
    exact (keepsAhead_iff_heading hsame halive' hgrid' hheading htail).mpr hne
  by_cases hplaying : client.clientID < 0
  · refine iff_of_true (hstays ?_) (.inl hplaying)
    rwa [keyCallbacks_of_neg hplaying]
  by_cases hid : id = client.ownID
  · subst hid
    have hown := lookup_keyCallbacks_own hplaying hplayer hdirection events
    rw [keepsAhead_iff_heading hown halive' hgrid' (Heading.heading_direction _) htail, ne_eq,
      Heading.foldl_press_eq_opposite_iff]
    simp [hplaying]
  · refine iff_of_true (hstays ?_) (.inr (.inl hid))
    rwa [lookup_keyCallbacks_ne client events hid]

/-- A client whose own snake has just gone up. -/
def goingUp : Player :=
  { tail := [⟨10, 10⟩], food := 1, direction := .up, grid := some mainGrid, color := 0 }

def goneUp : Player :=
  { tail := [⟨10, 9⟩, ⟨10, 10⟩], direction := .up, grid := some mainGrid, color := 0 }

def steered : SnakeClient :=
  { clientID := 10000, players := (∅ : AssocMap UInt32 Player).insert 10000 goneUp }

theorem keepsAhead_iff_left : (steered.keyCallbacks [(.a, true)]).KeepsAhead 10000 .up ⟨10, 10⟩ ↔
    steered.clientID < 0 ∨ 10000 ≠ steered.ownID ∨ ¬ Heading.up.TurnsBack (presses [(.a, true)]) :=
  @keepsAhead_iff steered 10000 goingUp goneUp .up ⟨10, 9⟩ ⟨10, 10⟩ [] (by decide) (by decide)
    (by decide) (by decide) (by decide) (by decide) [(.a, true)]

/-- Left and then down within one frame. -/
theorem not_keepsAhead_left_down :
    goingUp.move = .ok goneUp ∧ steered.players.lookup 10000 = some goneUp ∧
      ¬ (steered.keyCallbacks [(.a, true), (.s, true)]).KeepsAhead 10000 .up ⟨10, 10⟩ := by
  refine ⟨by decide, by decide, ?_⟩
  have hown := @lookup_keyCallbacks_own steered (by decide) goneUp (by decide) .up (by decide)
    [(.a, true), (.s, true)]
  have hiff := @keepsAhead_iff_heading _ steered.ownID _ .up .down ⟨10, 10⟩ [] hown (by decide)
    (by decide) (by decide) (by decide)
  exact fun h ↦ hiff.mp h rfl

end SnakeClient

end SnekCpp
