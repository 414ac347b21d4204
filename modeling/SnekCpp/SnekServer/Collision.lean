import SnekCpp.SnekServer.Outcomes
import SnekCpp.Snek.Trail

/-!
# The collision rule

`PlayerCollision` stops at the first cell that it finds under the head, so which
cell that is depends on the order of the map.  What the clients and the server
see of it does not: the mark that the log keeps of the cell is all that differs.
-/

namespace SnekCpp.Server

open Lib Networking

/-! ## What is seen of a server -/

def IsMark : Effect → Prop
  | .collided .. => True
  | _ => False

instance : DecidablePred IsMark := fun e ↦ by
  unfold IsMark
  split <;> infer_instance

/-- The server without the marks of `PlayerCollision` in its log. -/
def seen (s : Server) : Server := { s with log := s.log.filter fun e ↦ ¬ IsMark e }

/-- The same for the end of a run. -/
def seenEnd {α : Type} : EStateM.Result Fault Server α → EStateM.Result Fault Server α
  | .ok a s => .ok a s.seen
  | .error fault s => .error fault s.seen

theorem seen_logged (s : Server) (effects : List Effect) :
    (s.logged effects).seen = s.seen.logged (effects.filter fun e ↦ ¬ IsMark e) := by
  simp [seen, logged]

theorem seen_logged_collided (s : Server) (id owner : UInt32) :
    (s.logged [.collided id owner]).seen = s.seen := by
  simp [seen_logged, IsMark]

/-- Servers that look the same go on to look the same. -/
def Blind {α : Type} (m : ServerM α) : Prop :=
  ∀ s t : Server, s.seen = t.seen → seenEnd (m.run s) = seenEnd (m.run t)

section Blind

variable {α β : Type}

theorem blind_pure (a : α) : Blind (pure a : ServerM α) := fun _ _ h ↦
  congrArg (EStateM.Result.ok a) h

theorem blind_throw (fault : Fault) : Blind (throw fault : ServerM α) := fun _ _ h ↦
  congrArg (EStateM.Result.error fault) h

theorem blind_bind {m : ServerM α} {f : α → ServerM β} (hm : Blind m) (hf : ∀ a, Blind (f a)) :
    Blind (m >>= f) := by
  intro s t h
  have hfirst := hm s t h
  rw [EStateM.run_bind, EStateM.run_bind]
  cases hs : m.run s with
  | ok a s' =>
      cases ht : m.run t with
      | ok b t' =>
          rw [hs, ht] at hfirst
          injection hfirst with hval hstate
          subst hval
          exact hf a s' t' hstate
      | error fault t' =>
          rw [hs, ht] at hfirst
          cases hfirst
  | error fault s' =>
      cases ht : m.run t with
      | ok b t' =>
          rw [hs, ht] at hfirst
          cases hfirst
      | error fault' t' =>
          rw [hs, ht] at hfirst
          injection hfirst with hfault hstate
          subst hfault
          exact congrArg (EStateM.Result.error fault) hstate

/-- What reads the state but not the marks. -/
theorem blind_get {f : Server → ServerM α} (hseen : ∀ s, f s = f s.seen) (hf : ∀ u, Blind (f u)) :
    Blind (get >>= f) := by
  intro s t h
  rw [EStateM.run_bind, EStateM.run_bind, EStateM.run_get, EStateM.run_get]
  change seenEnd ((f s).run s) = seenEnd ((f t).run t)
  rw [hseen s, hseen t, h]
  exact hf t.seen s t h

theorem blind_modify {f : Server → Server} (hf : ∀ s, (f s).seen = f s.seen) :
    Blind (modify f : ServerM Unit) := by
  intro s t h
  rw [EStateM.run_modify, EStateM.run_modify]
  refine congrArg (EStateM.Result.ok ()) ?_
  rw [hf, hf, h]

theorem blind_record (e : Effect) : Blind (record e) := by
  intro s t h
  rw [run_record, run_record]
  refine congrArg (EStateM.Result.ok ()) ?_
  rw [seen_logged, seen_logged, h]

theorem blind_messageClientsFrom {disconnect : Option ConnRef → ServerM Unit}
    (hdisconnect : ∀ client, Blind (disconnect client)) (msg : Msg)
    (ignoreClient : Option ConnRef) (i left : ℕ) (invalid : Bool) :
    Blind (messageClientsFrom disconnect msg ignoreClient i left invalid) := by
  induction left generalizing i invalid with
  | zero => exact blind_pure invalid
  | succ left ih =>
      refine blind_get (fun _ ↦ rfl) fun u ↦ ?_
      simp only
      split
      · exact ih (i + 1) invalid
      · split
        · exact blind_bind (blind_record _) fun _ ↦ ih (i + 1) invalid
        · exact blind_bind (hdisconnect _) fun _ ↦
            blind_bind (blind_modify fun _ ↦ rfl) fun _ ↦ ih (i + 1) true

theorem blind_onClientDisconnectWith {messageAllClients : Msg → Option ConnRef → ServerM Unit}
    (h : ∀ msg ignoreClient, Blind (messageAllClients msg ignoreClient))
    (client : Option ConnRef) : Blind (onClientDisconnectWith messageAllClients client) := by
  apply blind_bind (blind_record _)
  intro _
  cases client with
  | none => exact blind_throw _
  | some ref =>
      refine blind_get (fun _ ↦ rfl) fun u ↦ ?_
      exact blind_bind (h _ _) fun _ ↦ blind_modify fun _ ↦ rfl

theorem blind_messageAllClients (depth : ℕ) (msg : Msg) (ignoreClient : Option ConnRef) :
    Blind (messageAllClients depth msg ignoreClient) := by
  induction depth generalizing msg ignoreClient with
  | zero => exact blind_throw _
  | succ depth ih =>
      refine blind_get (fun _ ↦ rfl) fun u ↦ ?_
      refine blind_bind
        (blind_messageClientsFrom (blind_onClientDisconnectWith ih) msg ignoreClient 0 _ false) ?_
      intro invalid
      cases invalid with
      | false => exact blind_pure ()
      | true => exact blind_modify fun _ ↦ rfl

end Blind

/-! ## The rule -/

/-- The head of `id` is on one of its own cells from index 4 on, or on a cell of
another player. -/
def Collides (s : Server) (id : UInt32) : Prop :=
  ∃ head, (s.cells id).head? = some head ∧
    (head ∈ (s.cells id).drop 4 ∨ ∃ other, other ≠ id ∧ head ∈ s.cells other)

theorem cells_eq_of_lookup {s : Server} {id : UInt32} {player : PlayerData}
    (h : s.players.lookup id = some player) : s.cells id = player.tail := by
  simp [cells, h]

theorem lookup_of_mem_cells {s : Server} {id : UInt32} {pos : Position} (h : pos ∈ s.cells id) :
    ∃ player, s.players.lookup id = some player ∧ pos ∈ player.tail := by
  cases hcells : s.cells id with
  | nil => simp [hcells] at h
  | cons head tail =>
      obtain ⟨player, hlookup, htail⟩ := lookup_of_cells hcells
      rw [hcells, ← htail] at h
      exact ⟨player, hlookup, h⟩

/-- The rule, in terms of the entries that the loop goes over. -/
theorem collides_iff {s : Server} {id : UInt32} {head : Position} {tail : List Position}
    (hown : s.cells id = head :: tail) (env : Env) :
    s.Collides id ↔ ∃ entry ∈ env.iteration s.players, head ∈ collisionCells id entry := by
  constructor
  · rintro ⟨head', hhead, hhit⟩
    rw [hown, List.head?_cons, Option.some.injEq] at hhead
    subst hhead
    rcases hhit with hhit | ⟨other, hne, hhit⟩
    · obtain ⟨player, hlookup, htail⟩ := lookup_of_cells hown
      rw [hown, ← htail] at hhit
      exact ⟨(id, player), env.mem_iteration.mpr hlookup, by simpa [collisionCells] using hhit⟩
    · obtain ⟨player, hlookup, hmem⟩ := lookup_of_mem_cells hhit
      exact ⟨(other, player), env.mem_iteration.mpr hlookup, by simpa [collisionCells, hne] using hmem⟩
  · rintro ⟨entry, hentry, hhit⟩
    have hcells := cells_eq_of_lookup (env.mem_iteration.mp hentry)
    refine ⟨head, by rw [hown, List.head?_cons], ?_⟩
    unfold collisionCells at hhit
    split at hhit
    · next heq => exact .inl (by rwa [← heq, hcells])
    · next hne => exact .inr ⟨entry.1, hne, by rwa [hcells]⟩

theorem run_playerCollisionOver {s : Server} {clientID : Int32} {head : Position}
    {tail : List Position} (hown : s.cells clientID.toUInt32 = head :: tail) (depth : ℕ)
    (entries : List (UInt32 × PlayerData)) :
    ((∃ entry ∈ entries, head ∈ collisionCells clientID.toUInt32 entry) →
      ∃ owner, (playerCollisionOver depth clientID entries).run s =
        (sendKillMessage depth clientID).run (s.logged [.collided clientID.toUInt32 owner])) ∧
      ((¬ ∃ entry ∈ entries, head ∈ collisionCells clientID.toUInt32 entry) →
        (playerCollisionOver depth clientID entries).run s = .ok () s) := by
  induction entries with
  | nil => exact ⟨fun h ↦ (by simp at h), fun _ ↦ rfl⟩
  | cons entry entries ih =>
      rw [playerCollisionOver, EStateM.run_bind, run_hitsCell_of_head hown]
      by_cases hhit : head ∈ collisionCells clientID.toUInt32 entry
      · simp only [hhit, decide_true, if_true, EStateM.run_bind, run_record]
        exact ⟨fun _ ↦ ⟨entry.1, rfl⟩, fun h ↦ absurd ⟨entry, by simp, hhit⟩ h⟩
      · simpa [hhit] using ih

/-- A hit kills once and a miss does nothing, in every order of the map. -/
theorem run_playerCollision {s : Server} {clientID : Int32}
    (hown : s.cells clientID.toUInt32 ≠ []) (env : Env) (depth : ℕ) :
    (s.Collides clientID.toUInt32 → ∃ owner, (playerCollision env depth clientID).run s =
      (sendKillMessage depth clientID).run (s.logged [.collided clientID.toUInt32 owner])) ∧
      (¬ s.Collides clientID.toUInt32 → (playerCollision env depth clientID).run s = .ok () s) := by
  obtain ⟨head, tail, hcells⟩ := List.exists_cons_of_ne_nil hown
  rw [collides_iff hcells env]
  exact run_playerCollisionOver hcells depth (env.iteration s.players)

/-- What is seen of the collision check, whatever the order of the map. -/
theorem seenEnd_playerCollision {s : Server} {clientID : Int32}
    (hown : s.cells clientID.toUInt32 ≠ []) (env : Env) (depth : ℕ) :
    (s.Collides clientID.toUInt32 → seenEnd ((playerCollision env depth clientID).run s) =
      seenEnd ((sendKillMessage depth clientID).run s)) ∧
      (¬ s.Collides clientID.toUInt32 →
        seenEnd ((playerCollision env depth clientID).run s) = .ok () s.seen) := by
  obtain ⟨hhit, hmiss⟩ := run_playerCollision hown env depth
  refine ⟨fun hcollides ↦ ?_, fun hcollides ↦ ?_⟩
  · obtain ⟨owner, hrun⟩ := hhit hcollides
    rw [hrun]
    exact blind_messageAllClients _ _ _ _ _ (seen_logged_collided _ _ _)
  · rw [hmiss hcollides]
    rfl

theorem players_of_playerCollision_open {s : Server} {clientID : Int32} {refs : List ConnRef}
    (hown : s.cells clientID.toUInt32 ≠ []) (hdeque : s.m_deqConnections = refs.map some)
    (hopen : ∀ ref ∈ refs, s.IsOpen ref) (env : Env) (depth : ℕ) :
    ∃ s', (playerCollision env (depth + 1) clientID).run s = .ok () s' ∧ s'.players = s.players := by
  obtain ⟨hhit, hmiss⟩ := run_playerCollision hown env (depth + 1)
  by_cases hcollides : s.Collides clientID.toUInt32
  · obtain ⟨owner, hrun⟩ := hhit hcollides
    have hdelivered := @run_messageAllClients_of_open
      (s.logged [.collided clientID.toUInt32 owner]) refs hdeque none
      (fun ref href ↦ hopen ref (mem_addressed.mp href).1) depth (killPlayerMsg clientID)
    exact ⟨_, hrun.trans hdelivered, rfl⟩
  · exact ⟨s, hmiss hcollides, rfl⟩

/-- `PlayerCollision` decides the rule, changes no player while all connections
are open, and does not depend on the order of the map. -/
theorem playerCollision_exact {s : Server} {clientID : Int32} {player : PlayerData}
    (hplayer : s.players.lookup clientID.toUInt32 = some player) (htail : player.tail ≠ [])
    (env : Env) (depth : ℕ) :
    (s.Collides clientID.toUInt32 → ∃ owner, (playerCollision env depth clientID).run s =
      (sendKillMessage depth clientID).run (s.logged [.collided clientID.toUInt32 owner])) ∧
    (¬ s.Collides clientID.toUInt32 → (playerCollision env depth clientID).run s = .ok () s) ∧
    (∀ refs : List ConnRef, s.m_deqConnections = refs.map some → (∀ ref ∈ refs, s.IsOpen ref) →
      ∃ s', (playerCollision env (depth + 1) clientID).run s = .ok () s' ∧
        s'.players = s.players) ∧
    ∀ env' : Env, seenEnd ((playerCollision env depth clientID).run s) =
      seenEnd ((playerCollision env' depth clientID).run s) := by
  have hown : s.cells clientID.toUInt32 ≠ [] := by rwa [cells_eq_of_lookup hplayer]
  obtain ⟨hhit, hmiss⟩ := run_playerCollision hown env depth
  refine ⟨hhit, hmiss, fun refs hdeque hopen ↦
    players_of_playerCollision_open hown hdeque hopen env depth, fun env' ↦ ?_⟩
  obtain ⟨hseenHit, hseenMiss⟩ := seenEnd_playerCollision hown env depth
  obtain ⟨hseenHit', hseenMiss'⟩ := seenEnd_playerCollision hown env' depth
  by_cases hcollides : s.Collides clientID.toUInt32
  · rw [hseenHit hcollides, hseenHit' hcollides]
  · rw [hseenMiss hcollides, hseenMiss' hcollides]

/-- The head of the first player is on the only cell of the second one. -/
def headOn : Server :=
  { players := ((∅ : AssocMap UInt32 PlayerData).insert 10001
        { direction := .up, tail := [⟨10, 10⟩], color := 0 }).insert 10000
      { direction := .left, tail := [⟨10, 10⟩, ⟨11, 10⟩], color := 0 } }

theorem collides_headOn : headOn.Collides 10000 :=
  ⟨⟨10, 10⟩, by decide, .inr ⟨10001, by decide, by decide⟩⟩

theorem playerCollision_exact_headOn :
    (∃ owner, (playerCollision .plain 1 10000).run headOn =
      (sendKillMessage 1 10000).run (headOn.logged [.collided 10000 owner])) ∧
    (∀ refs : List ConnRef, headOn.m_deqConnections = refs.map some →
      (∀ ref ∈ refs, headOn.IsOpen ref) →
        ∃ s', (playerCollision .plain 2 10000).run headOn = .ok () s' ∧
          s'.players = headOn.players) ∧
    ∀ env : Env, seenEnd ((playerCollision .plain 1 10000).run headOn) =
      seenEnd ((playerCollision env 1 10000).run headOn) := by
  have hplayer : headOn.players.lookup (10000 : Int32).toUInt32 =
      some { direction := .left, tail := [⟨10, 10⟩, ⟨11, 10⟩], color := 0 } := by decide
  obtain ⟨hhit, -, hrest⟩ := playerCollision_exact hplayer (by decide) .plain 1
  exact ⟨hhit collides_headOn, hrest⟩

/-! ## The first four cells of the own tail -/

/-- A snake that does not turn around has its head on none of the three cells behind it. -/
theorem head_notMem_take_three {t : Traced} (h : t.Follows mainGrid)
    (hturns : NonReversing t.headings) {head : Position} {rest : List Position}
    (htail : t.player.tail = head :: rest) : head ∉ rest.take 3 := by
  intro hmem
  obtain ⟨i, hi, hget⟩ := List.mem_iff_getElem.mp hmem
  rw [List.length_take] at hi
  rw [List.getElem_take] at hget
  obtain ⟨head', rest', older, htail', hheads, hrecent⟩ := h.exists_head
  obtain ⟨rfl, rfl⟩ : head = head' ∧ rest = rest' := by simpa [htail] using htail'
  have holder : (head :: older)[i + 1]? = some head := by
    rw [List.getElem?_cons_succ, List.prefix_iff_getElem?.mp hrecent i (by omega), hget]
  have htrail := h.trail
  rw [hheads] at htrail
  -- the walk from that cell to the head has between one and three steps and comes back
  have hzero := htrail.displacement_eq_zero Grid.fitsInt_mainGrid holder
  obtain ⟨hle, -⟩ := htrail.cell_head Grid.fitsInt_mainGrid holder
  have hlength : (t.headings.take (i + 1)).length = i + 1 := by
    rw [List.length_take]
    omega
  refine displacement_ne_zero_of_lt_four (by decide) (by decide) (by decide) (by decide)
    (hturns.take (i + 1)) ?_ (by omega) hzero
  intro hnil
  rw [hnil] at hlength
  cases hlength

/-- The check of the own tail from index 4 on finds what a check of the whole
tail would find, for every snake that has never turned around. -/
theorem ownTailCheck_exact {pos : Position} (hpos : pos.OnBoard) (color : ImU32)
    (actions : List Action) :
    ∃ t head rest, (Traced.start mainGrid color pos).perform actions = .ok t ∧
      t.player.tail = head :: rest ∧
      (NonReversing t.headings → (∀ i < 3, rest[i]? ≠ some head) ∧
        ∀ (s : Server) (id : UInt32) (player : PlayerData), s.players.lookup id = some player →
          player.tail = head :: rest →
            (hitsCell id (collisionCells id (id, player))).run s =
              .ok (decide (head ∈ rest)) s) := by
  obtain ⟨t, hperform, hfollows⟩ :=
    (Traced.Follows.start (Grid.contains_mainGrid hpos) color).perform actions
  obtain ⟨head, rest, older, htail, -, -⟩ := hfollows.exists_head
  refine ⟨t, head, rest, hperform, htail, fun hturns ↦ ?_⟩
  have hnot := head_notMem_take_three hfollows hturns htail
  refine ⟨fun i hi hget ↦ hnot ?_, fun s id player hlookup hplayer ↦ ?_⟩
  · refine List.mem_iff_getElem?.mpr ⟨i, ?_⟩
    rw [List.getElem?_take_of_lt hi, hget]
  · have hcells : s.cells id = head :: rest := by rw [cells_eq_of_lookup hlookup, hplayer]
    have hown : collisionCells id (id, player) = rest.drop 3 := by
      rw [collisionCells, if_pos rfl, hplayer]
      rfl
    have hsame : head ∈ rest.drop 3 ↔ head ∈ rest := by
      constructor
      · exact List.mem_of_mem_drop
      · intro hmem
        rw [← List.take_append_drop 3 rest, List.mem_append] at hmem
        exact hmem.resolve_left hnot
    rw [hown, run_hitsCell_of_head hcells, decide_eq_decide.mpr hsame]

/-- A snake of five cells goes around once, and its head comes back to the oldest of them. -/
def goesAround : List Action :=
  [.addLength 4, .move, .setDirection .right, .move, .setDirection .down, .move,
    .setDirection .left, .move]

theorem ownTailCheck_exact_turn :
    ∃ t head rest, (Traced.start mainGrid 0 ⟨10, 10⟩).perform goesAround = .ok t ∧
      t.player.tail = head :: rest ∧ NonReversing t.headings ∧ (∀ i < 3, rest[i]? ≠ some head) ∧
        ∀ (s : Server) (id : UInt32) (player : PlayerData), s.players.lookup id = some player →
          player.tail = head :: rest →
            (hitsCell id (collisionCells id (id, player))).run s = .ok true s := by
  obtain ⟨t, head, rest, hperform, htail, hcheck⟩ := @ownTailCheck_exact ⟨10, 10⟩ (by decide) 0
    goesAround
  obtain ⟨t', hperform', hturns, hback⟩ : ∃ t',
      (Traced.start mainGrid 0 ⟨10, 10⟩).perform goesAround = .ok t' ∧
        NonReversing t'.headings ∧ t'.player.tail = [⟨10, 10⟩, ⟨11, 10⟩, ⟨11, 9⟩, ⟨10, 9⟩, ⟨10, 10⟩] :=
    ⟨_, rfl, by decide, rfl⟩
  cases hperform.symm.trans hperform'
  obtain ⟨rfl, rfl⟩ := List.cons.inj (htail.symm.trans hback)
  obtain ⟨hthree, hfinds⟩ := hcheck hturns
  exact ⟨t, _, _, hperform, htail, hturns, hthree, fun s id player hlookup hplayer ↦
    hfinds s id player hlookup hplayer⟩

end SnekCpp.Server
