import SnekCpp.Snek.Steering

/-!
# A snake and its copy

The food of a snake is not transmitted.  A copy that has none moves like the
original as far as its own length goes: what the original grows by is behind it.
On a client only its own player eats.
-/

namespace SnekCpp

open Lib Networking

namespace Player

/-- `n` moves, with nothing else done to the player. -/
def moves (player : Player) (n : ℕ) : Except Fault Player := times move n player

/-- After any number of moves the copy has the first cells of the original. -/
def KeepsUp (length : ℕ) (original copy : Player) : Prop :=
  ∀ n, ∃ original' copy', original.moves n = .ok original' ∧ copy.moves n = .ok copy' ∧
    copy'.tail = original'.tail.take length ∧ copy'.tail.length = length ∧
      ∃ head, original'.getHead = .ok head ∧ copy'.getHead = .ok head

theorem updateTail_of_food_eq_zero {player : Player} (h : player.food = 0) :
    player.updateTail = { player with tail := player.tail.dropLast } := by
  rw [updateTail, h]
  rfl

theorem food_updateTail {player : Player} (h : player.food = 0) : player.updateTail.food = 0 := by
  rw [updateTail_of_food_eq_zero h]
  exact h

theorem food_of_move {player player' : Player} (h : player.move = .ok player')
    (hfood : player.food = 0) : player'.food = 0 := by
  rcases move_cases h with rfl | ⟨-, head, tail, grid, next, -, -, rfl⟩
  · exact hfood
  · exact food_updateTail hfood

/-- Only the last cell of a tail depends on the food. -/
theorem take_updateTail {player : Player} {n : ℕ} (h : n < player.tail.length) :
    player.updateTail.tail.take n = player.tail.take n ∧ n ≤ player.updateTail.tail.length := by
  unfold updateTail
  split
  · exact ⟨rfl, h.le⟩
  · rw [List.dropLast_eq_take, List.take_take, List.length_take]
    have hmin : min n (player.tail.length - 1) = n := by omega
    exact ⟨by rw [hmin], by omega⟩

theorem dropLast_cons_take {rest : List Position} {n : ℕ} (h : n ≤ rest.length)
    (next head : Position) :
    (next :: head :: rest.take n).dropLast = (next :: head :: rest).take (n + 1) := by
  have hlast : (head :: rest.take n).dropLast = (head :: rest).take n := by
    rw [List.dropLast_eq_take, List.length_cons, List.length_take, min_eq_left h,
      Nat.add_sub_cancel, ← List.take_succ_cons, List.take_take, min_eq_left (Nat.le_succ n)]
  rw [List.dropLast_cons_of_ne_nil (by simp), hlast, List.take_succ_cons]

/-- The copy has the first cells of the original and nothing to grow from. -/
structure Shadows (grid : Grid) (length : ℕ) (original copy : Player) : Prop where
  alive : original.alive = true ∧ copy.alive = true
  onGrid : original.grid = some grid ∧ copy.grid = some grid
  direction : copy.direction = original.direction
  food : copy.food = 0
  pos : 0 < length
  long : length ≤ original.tail.length
  tail : copy.tail = original.tail.take length

namespace Shadows

variable {grid : Grid} {length : ℕ} {original copy : Player}

theorem exists_head (h : Shadows grid length original copy) : ∃ head rest,
    original.tail = head :: rest ∧ copy.tail = head :: rest.take (length - 1) := by
  have hlong := h.long
  have hpos := h.pos
  cases htail : original.tail with
  | nil =>
      rw [htail, List.length_nil] at hlong
      omega
  | cons head rest =>
      refine ⟨head, rest, rfl, ?_⟩
      obtain ⟨more, rfl⟩ := Nat.exists_eq_succ_of_ne_zero hpos.ne'
      rw [h.tail, htail]
      rfl

theorem length_tail (h : Shadows grid length original copy) : copy.tail.length = length := by
  rw [h.tail, List.length_take, min_eq_left h.long]

/-- Both heads go to the same cell, and the copy gives up the cell that it may not keep. -/
theorem move (h : Shadows grid length original copy) : ∃ original' copy',
    original.move = .ok original' ∧ copy.move = .ok copy' ∧
      Shadows grid length original' copy' := by
  obtain ⟨head, rest, horiginal, hcopy⟩ := h.exists_head
  rw [move_of_alive h.alive.1 h.onGrid.1 horiginal, move_of_alive h.alive.2 h.onGrid.2 hcopy]
  cases hheading : original.direction.heading with
  | none =>
      rw [show copy.direction.heading = none by rw [h.direction, hheading]]
      exact ⟨original, copy, rfl, rfl, h⟩
  | some heading =>
      rw [show copy.direction.heading = some heading by rw [h.direction, hheading]]
      have hlong := h.long
      have hpos := h.pos
      rw [horiginal, List.length_cons] at hlong
      let next := grid.go heading head
      let grown : Player := { original with tail := next :: head :: rest }
      let shifted : Player := { copy with tail := next :: head :: rest.take (length - 1) }
      have hlength : length < grown.tail.length := by
        change length < rest.length + 1 + 1
        omega
      obtain ⟨htake, hrest⟩ := take_updateTail hlength
      have hfood : shifted.food = 0 := h.food
      refine ⟨grown.updateTail, shifted.updateTail, rfl, rfl, ?_, ?_, ?_, food_updateTail hfood,
        hpos, hrest, ?_⟩
      · rw [updateTail_alive, updateTail_alive]
        exact h.alive
      · rw [updateTail_grid, updateTail_grid]
        exact h.onGrid
      · rw [updateTail_direction, updateTail_direction]
        exact h.direction
      · calc shifted.updateTail.tail
          _ = (next :: head :: rest.take (length - 1)).dropLast :=
            congrArg Player.tail (updateTail_of_food_eq_zero hfood)
          _ = (next :: head :: rest).take (length - 1 + 1) := dropLast_cons_take (by omega) _ _
          _ = grown.tail.take length := by rw [Nat.sub_add_cancel hpos]
          _ = grown.updateTail.tail.take length := htake.symm

theorem keepsUp (h : Shadows grid length original copy) : KeepsUp length original copy := by
  intro n
  obtain ⟨original', copy', horiginal, hcopy, hshadows⟩ :=
    times_of_lockstep (fun _ _ ↦ Shadows.move) h n
  obtain ⟨head, rest, htail, htail'⟩ := hshadows.exists_head
  refine ⟨original', copy', horiginal, hcopy, hshadows.tail, hshadows.length_tail, head, ?_, ?_⟩
  · rw [getHead, htail]
  · rw [getHead, htail']

end Shadows

end Player

/-! ## Food on a client -/

/-- No player but `own` has food. -/
def Foodless (own : UInt32) (players : AssocMap UInt32 Player) : Prop :=
  ∀ id player, players.lookup id = some player → id ≠ own → player.food = 0

namespace Foodless

variable {own : UInt32} {players players' : AssocMap UInt32 Player}

theorem empty (own : UInt32) : Foodless own ∅ := fun _ _ h ↦ by cases h

theorem insert (h : Foodless own players) {key : UInt32} {player : Player}
    (hfood : key ≠ own → player.food = 0) : Foodless own (players.insert key player) := by
  intro id found hfound hid
  rw [AssocMap.lookup_insert_eq] at hfound
  split at hfound
  · next heq =>
      cases hfound
      exact hfood (heq ▸ hid)
  · exact h id found hfound hid

theorem erase (h : Foodless own players) (key : UInt32) : Foodless own (players.erase key) := by
  intro id found hfound hid
  rw [AssocMap.lookup_erase_eq] at hfound
  split at hfound
  · cases hfound
  · exact h id found hfound hid

theorem subscript (h : Foodless own players) {key : UInt32} {player : Player}
    (hlooked : players.subscript key default = (player, players')) :
    (key ≠ own → player.food = 0) ∧ Foodless own players' := by
  cases hlookup : players.lookup key with
  | some found =>
      obtain ⟨rfl, rfl⟩ := Prod.mk.inj ((AssocMap.subscript_of_lookup hlookup _).symm.trans hlooked)
      exact ⟨h key _ hlookup, h⟩
  | none =>
      obtain ⟨rfl, rfl⟩ :=
        Prod.mk.inj ((AssocMap.subscript_of_lookup_none hlookup _).symm.trans hlooked)
      exact ⟨fun _ ↦ rfl, h.insert fun _ ↦ rfl⟩

theorem update (h : Foodless own players) (hupdate : players.update Player.move = .ok players') :
    Foodless own players' := by
  intro id moved hmoved hid
  obtain ⟨player, hplayer, hmove⟩ := AssocMap.exists_of_lookup_update hupdate hmoved
  exact Player.food_of_move hmove (h id player hplayer hid)

theorem insertEntries (h : Foodless own players) (grid : Grid) (roster : List RosterEntry) :
    Foodless own (roster.foldl (SnakeClient.insertEntry grid) players) := by
  induction roster generalizing players with
  | nil => exact h
  | cons entry roster ih =>
      apply ih
      exact h.insert fun _ ↦ rfl

variable {client client' : SnakeClient}

/-- A player comes to a client without food, and no message feeds it. -/
theorem handlePacket (h : Foodless own client.players) (packet : Packet) :
    Foodless own (client.handlePacket packet).players := by
  cases packet with
  | serverValidation clientID powerups roster => exact h.insertEntries client.gridPointer roster
  | newPlayer id color tail => exact h.insertEntries client.gridPointer [(id, color, tail)]
  | removePlayer id => exact h.erase id
  | updatePlayer id direction tail =>
      obtain ⟨hfood, hplayers⟩ := @subscript own client.players _ h id _ rfl
      exact hplayers.insert hfood
  | killPlayer id =>
      obtain ⟨hfood, hplayers⟩ := @subscript own client.players _ h id _ rfl
      exact hplayers.insert hfood
  | _ => exact h

theorem frame {msg : Option Msg} (h : Foodless client.ownID client.players)
    (hframe : client.frame = .ok (client', msg)) : Foodless client.ownID client'.players := by
  obtain ⟨players, hupdate, hcheck⟩ := SnakeClient.frame_cases hframe
  have hmoved := h.update hupdate
  cases hcheck with
  | noPowerups => exact hmoved
  | missed hown => exact (hmoved.subscript hown).2
  | ate hown => exact (hmoved.subscript hown).2.insert fun hne ↦ absurd rfl hne

theorem updateServer {platform : Platform} {msg : Msg} (h : Foodless own client.players)
    (hupdate : client.updateServer platform = (client', msg)) : Foodless own client'.players := by
  cases hupdate
  exact (h.subscript rfl).2

theorem keyCallback {key : SnakeClient.Key} {press : Bool} {msg : Option Msg}
    (h : Foodless own client.players) (hkey : client.keyCallback key press = (client', msg)) :
    Foodless own client'.players := by
  have hclient : client' = (client.keyCallback key press).1 := by rw [hkey]
  rw [SnakeClient.keyCallback_fst] at hclient
  subst hclient
  split
  · exact h
  · split
    · next heading _ =>
        rcases SnakeClient.steer_cases client true heading.opposite.direction
          heading.direction with heq | ⟨player, players, hlooked, heq | heq⟩
        · rwa [heq]
        · rw [heq]
          exact (h.subscript hlooked).2
        · obtain ⟨hfood, hplayers⟩ := h.subscript hlooked
          rw [heq]
          exact hplayers.insert hfood
    · exact h

end Foodless

end SnekCpp
