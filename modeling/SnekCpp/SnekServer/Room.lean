import SnekCpp.SnekServer.Placement

/-!
# Room for powerups

Nothing keeps `GeneratePowerup` from being called when every cell of the grid is
covered.  What a handler needs can be counted beforehand, in the state in which
it is called: the cells that the tails and the powerups cover, without the
players of closed connections and the powerup that has been eaten, and the
powerups that it is going to add.
-/

namespace SnekCpp

open Lib Networking

namespace Server

/-- The connections that a broadcast finds closed. -/
def closedRefs (s : Server) (ignoreClient : Option ConnRef) : List ConnRef :=
  (s.m_deqConnections.filterMap id).filter fun ref ↦ some ref ≠ ignoreClient ∧ ¬ s.IsOpen ref

/-- The server without the players of those connections. -/
def lasting (s : Server) (ignoreClient : Option ConnRef) : Server :=
  { s with
    players := (s.closedRefs ignoreClient).foldl (fun players ref ↦ players.erase (s.getID ref))
      s.players }

/-- The number of powerups that `OnClientValidated` wants. -/
def powerupCount (s : Server) : ℕ :=
  let size := s.players.entries.length
  size % 2 * size / 2 + 1

/-- The cells of the grid that a tail or a powerup covers. -/
def coveredCells (s : Server) : Finset Position :=
  s.covered.toFinset.filter Position.OnBoard

/-- The covered cells and the missing powerups fit the grid.  The first powerup is
put before the broadcast that may remove the player of a closed connection, the
others after it. -/
structure HasRoom (s : Server) (powerupCount : ℕ) : Prop where
  missing : (s.lasting none).coveredCells.card + (powerupCount - s.powerups.length) ≤
    gridWidth * gridHeight
  first : s.powerups.length < powerupCount → s.coveredCells.card < gridWidth * gridHeight

theorem hasRoom_iff (s : Server) (powerupCount : ℕ) : s.HasRoom powerupCount ↔
    (s.lasting none).coveredCells.card + (powerupCount - s.powerups.length) ≤
        gridWidth * gridHeight ∧
      (s.powerups.length < powerupCount → s.coveredCells.card < gridWidth * gridHeight) :=
  ⟨fun h ↦ ⟨h.missing, h.first⟩, fun h ↦ ⟨h.1, h.2⟩⟩

instance (s : Server) (powerupCount : ℕ) : Decidable (s.HasRoom powerupCount) :=
  decidable_of_iff _ (s.hasRoom_iff powerupCount).symm

variable {s s' : Server} {refs refs' : List ConnRef} {msg : Msg} {ignoreClient : Option ConnRef}

/-! ## Covered and free cells -/

theorem length_gridCells : gridCells.length = gridWidth * gridHeight := by
  simp [gridCells, List.length_flatMap]

/-- A cell of the grid is covered or free. -/
theorem length_freeGrid_add_card (s : Server) :
    s.freeGrid.length + s.coveredCells.card = gridWidth * gridHeight := by
  have hcard : s.coveredCells.card =
      (gridCells.filter fun cell ↦ s.covered.contains cell).length := by
    rw [← List.toFinset_card_of_nodup (nodup_gridCells.filter _)]
    congr 1
    ext cell
    simp [coveredCells, mem_gridCells, and_comm]
  rw [hcard, add_comm, freeGrid, ← List.length_eq_length_filter_add, length_gridCells]

theorem freeGrid_ne_nil (h : s.coveredCells.card < gridWidth * gridHeight) : s.freeGrid ≠ [] := by
  intro hnone
  have hlength := s.length_freeGrid_add_card
  rw [hnone, List.length_nil] at hlength
  omega

theorem coveredCells_congr (hplayers : s'.players = s.players)
    (hpowerups : s'.powerups = s.powerups) : s'.coveredCells = s.coveredCells := by
  simp only [coveredCells, covered, hplayers, hpowerups]

theorem freeGrid_spawned (s : Server) (powerup : PowerupData) :
    (s.spawned powerup).freeGrid = s.freeGrid.erase powerup.position := by
  have hcovered : (s.spawned powerup).covered = s.covered ++ [powerup.position] := by
    simp [covered, spawned]
  rw [(nodup_freeGrid s).erase_eq_filter, freeGrid, freeGrid, List.filter_filter, hcovered]
  refine List.filter_congr fun cell _ ↦ ?_
  by_cases heq : cell = powerup.position
  · simp [heq]
  · simp [heq]

theorem length_freeGrid_spawned {powerup : PowerupData} (h : powerup.position ∈ s.freeGrid) :
    (s.spawned powerup).freeGrid.length + 1 = s.freeGrid.length := by
  have hpos : 0 < s.freeGrid.length := List.length_pos_of_mem h
  rw [freeGrid_spawned, List.length_erase_of_mem h]
  omega

theorem lookup_of_lasting {id : UInt32} {player : PlayerData}
    (h : (s.lasting ignoreClient).players.lookup id = some player) :
    s.players.lookup id = some player := by
  have hfold : ∀ (gone : List ConnRef) (players : AssocMap UInt32 PlayerData),
      (gone.foldl (fun players ref ↦ players.erase (s.getID ref)) players).lookup id = some player →
        players.lookup id = some player := by
    intro gone
    induction gone with
    | nil => exact fun _ hlookup ↦ hlookup
    | cons ref gone ih =>
        intro players hlookup
        have herased := ih _ hlookup
        rw [AssocMap.lookup_erase_eq] at herased
        split at herased
        · cases herased
        · exact herased
  exact hfold _ _ h

theorem freeGrid_subset_lasting (s : Server) (ignoreClient : Option ConnRef) :
    s.freeGrid ⊆ (s.lasting ignoreClient).freeGrid := by
  intro pos hpos
  obtain ⟨hboard, hfree⟩ := mem_freeGrid.mp hpos
  refine mem_freeGrid.mpr ⟨hboard, fun hmem ↦ hfree ?_⟩
  rcases mem_covered.mp hmem with ⟨id, player, hlookup, hcell⟩ | hpowerup
  · exact mem_covered.mpr (.inl ⟨id, player, lookup_of_lasting hlookup, hcell⟩)
  · exact mem_covered.mpr (.inr hpowerup)

theorem card_coveredCells_spawned {powerup : PowerupData} (h : powerup.position ∈ s.freeGrid) :
    (s.spawned powerup).coveredCells.card = s.coveredCells.card + 1 := by
  have hlength := length_freeGrid_spawned h
  have hbefore := s.length_freeGrid_add_card
  have hafter := (s.spawned powerup).length_freeGrid_add_card
  omega

theorem card_coveredCells_lasting (s : Server) (ignoreClient : Option ConnRef) :
    (s.lasting ignoreClient).coveredCells.card ≤ s.coveredCells.card := by
  have hlength := ((nodup_freeGrid s).subperm (freeGrid_subset_lasting s ignoreClient)).length_le
  have hbefore := s.length_freeGrid_add_card
  have hafter := (s.lasting ignoreClient).length_freeGrid_add_card
  omega

/-! ## Broadcasts -/

theorem closedRefs_of_open (hlisted : s.Listed refs)
    (hopen : ∀ ref ∈ addressed ignoreClient refs, s.IsOpen ref) : s.closedRefs ignoreClient = [] := by
  refine List.filter_eq_nil_iff.mpr fun ref href ↦ ?_
  have hmem : ref ∈ refs := by simpa [hlisted.deque] using href
  by_cases hne : some ref = ignoreClient
  · simp [hne]
  · have hopened := hopen ref (mem_addressed.mpr ⟨hmem, hne⟩)
    simp [hopened]

theorem closedRefs_of_departed {before after : List ConnRef} {gone : ConnRef}
    (hlisted : s.Listed (before ++ gone :: after)) (hgone : some gone ≠ ignoreClient)
    (hclosed : ¬ s.IsOpen gone) (hopen : ∀ ref ∈ before ++ after, s.IsOpen ref) :
    s.closedRefs ignoreClient = [gone] := by
  have hrest : ∀ others : List ConnRef, (∀ ref ∈ others, s.IsOpen ref) →
      others.filter (fun ref ↦ some ref ≠ ignoreClient ∧ ¬ s.IsOpen ref) = [] := by
    intro others hothers
    refine List.filter_eq_nil_iff.mpr fun ref href ↦ ?_
    have hopened := hothers ref href
    simp [hopened]
  have hdeque : s.m_deqConnections.filterMap id = before ++ gone :: after := by
    simp [hlisted.deque]
  rw [closedRefs, hdeque, List.filter_append, List.filter_cons_of_pos (by simp [hgone, hclosed]),
    hrest before fun ref href ↦ hopen ref (List.mem_append_left _ href),
    hrest after fun ref href ↦ hopen ref (List.mem_append_right _ href), List.nil_append]

theorem lasting_of_open (h : s.closedRefs ignoreClient = []) : s.lasting ignoreClient = s := by
  simp [lasting, h]

theorem players_lasting_of_closed {gone : ConnRef} (h : s.closedRefs ignoreClient = [gone]) :
    (s.lasting ignoreClient).players = s.players.erase (s.getID gone) := by
  simp [lasting, h]

theorem Told.players_eq (h : Told s refs msg ignoreClient s' refs') (hlisted : s.Listed refs) :
    s'.players = (s.lasting ignoreClient).players := by
  cases h with
  | delivered hopen =>
      rw [lasting_of_open (closedRefs_of_open hlisted hopen)]
      rfl
  | departed hrefs hgone hclosed hopen =>
      subst hrefs
      rw [players_lasting_of_closed (closedRefs_of_departed hlisted hgone hclosed hopen)]
      rfl

theorem Told.players_lasting (h : Told s refs msg ignoreClient s' refs') (hlisted : s.Listed refs) :
    (s'.lasting none).players = ((s.lasting ignoreClient).lasting none).players := by
  cases h with
  | delivered hopen =>
      rw [lasting_of_open (closedRefs_of_open hlisted hopen)]
      rfl
  | @departed before after gone hrefs hgone hclosed hopen =>
      subst hrefs
      have hleft : (s.departed msg ignoreClient before gone after).Listed (before ++ after) :=
        (Told.departed rfl hgone hclosed hopen).listed hlisted
      have hnone : (s.departed msg ignoreClient before gone after).closedRefs none = [] :=
        closedRefs_of_open hleft fun ref href ↦ hopen ref (mem_addressed.mp href).1
      have hagain : (s.lasting ignoreClient).closedRefs none = [gone] :=
        closedRefs_of_departed (s := s.lasting ignoreClient) ⟨hlisted.deque, hlisted.nodup⟩
          (by simp) hclosed hopen
      -- The second removal finds no player any more.
      have htwice : (s.players.erase (s.getID gone)).erase (s.getID gone) =
          s.players.erase (s.getID gone) := by
        apply AList.ext
        exact List.kerase_of_notMem_keys
          (List.notMem_keys_kerase (s.getID gone) s.players.nodupKeys)
      rw [lasting_of_open hnone, players_lasting_of_closed hagain,
        players_lasting_of_closed (closedRefs_of_departed hlisted hgone hclosed hopen)]
      exact htwice.symm

theorem Told.powerups_eq (h : Told s refs msg ignoreClient s' refs') : s'.powerups = s.powerups := by
  cases h with
  | delivered => rfl
  | departed => rfl

theorem Told.hasRoom (h : Told s refs msg ignoreClient s' refs') (hlisted : s.Listed refs)
    {powerupCount : ℕ} (hroom : (s.lasting ignoreClient).HasRoom powerupCount) :
    s'.HasRoom powerupCount := by
  have hpowerups : s'.powerups = (s.lasting ignoreClient).powerups := h.powerups_eq
  refine ⟨?_, ?_⟩
  · rw [hpowerups, coveredCells_congr (h.players_lasting hlisted) hpowerups]
    exact hroom.missing
  · rw [hpowerups, coveredCells_congr (h.players_eq hlisted) hpowerups]
    exact hroom.first

/-! ## Handlers that find a free cell -/

/-- The handler does not look for a free cell in vain. -/
def FindsCell {α : Type} (result : EStateM.Result Fault Server α) : Prop :=
  Ends (fun _ ↦ True) (fun fault _ ↦ fault ≠ .emptyFreeGrid) result

variable {env : Env} {depth : ℕ} {r : ConnRef} {platform : Platform}

theorem KeepsPowerups.findsCell {α : Type} {m : ServerM α} (h : KeepsPowerups m) (s : Server) :
    FindsCell (m.run s) :=
  (h s).mono (fun _ _ ↦ trivial) fun _ _ ht ↦ ht.2.1

theorem ends_told_findsCell (hlisted : s.Listed refs) :
    Ends (fun s' ↦ ∃ refs', Told s refs msg ignoreClient s' refs') (fun fault _ ↦ fault ≠ .emptyFreeGrid)
      ((messageAllClients depth msg ignoreClient).run s) :=
  ends_told hlisted fun _ _ heq ↦ by cases heq

theorem findsCell_generatePowerup (hcard : s.coveredCells.card < gridWidth * gridHeight) :
    FindsCell ((generatePowerup env depth).run s) := by
  rcases run_generatePowerup s env depth with ⟨-, hrun⟩ | ⟨-, ⟨hnone, -⟩ | ⟨powerup, -, hrun⟩⟩
  · rw [hrun]
    exact fun heq ↦ by cases heq
  · exact absurd hnone (freeGrid_ne_nil hcard)
  · rw [hrun]
    exact (keepsPowerups_messageAllClients depth _ none).findsCell _

theorem HasRoom.told {count : ℕ} {powerup : PowerupData} (hroom : s.HasRoom count)
    (hpos : powerup.position ∈ s.freeGrid) (hlisted : s.Listed refs)
    (h : Told (s.spawned powerup) refs msg none s' refs') : s'.HasRoom count := by
  refine h.hasRoom ⟨hlisted.deque, hlisted.nodup⟩ ?_
  have hcard : ((s.lasting none).spawned powerup).coveredCells.card =
      (s.lasting none).coveredCells.card + 1 :=
    card_coveredCells_spawned (freeGrid_subset_lasting s none hpos)
  have hpowerups : (s.spawned powerup).powerups.length = s.powerups.length + 1 := by
    simp [spawned]
  have hmissing := hroom.missing
  have hfewer := card_coveredCells_lasting ((s.spawned powerup).lasting none) none
  change _ ≤ ((s.lasting none).spawned powerup).coveredCells.card at hfewer
  have hboard := (((s.spawned powerup).lasting none).lasting none).length_freeGrid_add_card
  refine ⟨?_, fun hless ↦ ?_⟩
  · change _ + (count - (s.spawned powerup).powerups.length) ≤ _
    omega
  · change (s.spawned powerup).powerups.length < count at hless
    change ((s.lasting none).spawned powerup).coveredCells.card < _
    omega

theorem findsCell_generatePowerups {count : ℕ} (turns : ℕ) (hlisted : s.Listed refs)
    (hroom : s.HasRoom count) : FindsCell ((generatePowerups env depth count turns).run s) := by
  induction turns generalizing s refs with
  | zero => trivial
  | succ turns ih =>
      rw [generatePowerups, EStateM.run_bind, EStateM.run_get]
      by_cases hless : s.powerups.length < count
      · simp only [if_pos hless]
        have hfirst : Ends (fun s' ↦ ∃ refs', s'.Listed refs' ∧ s'.HasRoom count)
            (fun fault _ ↦ fault ≠ .emptyFreeGrid) ((generatePowerup env depth).run s) := by
          rcases run_generatePowerup s env depth with
            ⟨-, hrun⟩ | ⟨-, ⟨hnone, -⟩ | ⟨powerup, hdraw, hrun⟩⟩
          · rw [hrun]
            exact fun heq ↦ by cases heq
          · exact absurd hnone (freeGrid_ne_nil (hroom.first hless))
          · have hspawned : (s.spawned powerup).Listed refs := ⟨hlisted.deque, hlisted.nodup⟩
            rw [hrun]
            refine (ends_told_findsCell hspawned).mono ?_ fun _ _ hE ↦ hE
            rintro t ⟨refs', htold⟩
            exact ⟨refs', htold.listed hspawned,
              hroom.told (List.mem_of_getElem? hdraw) hlisted htold⟩
        refine Ends.bind hfirst ?_
        rintro _ t - ⟨refs', hlisted', hroom'⟩
        exact ih hlisted' hroom'
      · simp only [if_neg hless]
        trivial

theorem findsCell_onClientValidated (hlisted : s.Listed refs)
    (hroom : ∀ spawnpoint ∈ s.spawnpoints.getLast?,
      ((s.welcomed platform env r spawnpoint).lasting (some r)).HasRoom
        ((s.welcomed platform env r spawnpoint).lasting (some r)).powerupCount) :
    FindsCell ((onClientValidated platform env depth r).run s) := by
  apply ends_onClientValidated
  · exact fun _ heq ↦ by cases heq
  · intro spawnpoint hspawn
    have hwelcomed : (s.welcomed platform env r spawnpoint).Listed refs :=
      ⟨hlisted.deque, hlisted.nodup⟩
    refine Ends.bind (ends_told_findsCell hwelcomed) ?_
    rintro _ t - ⟨refs', htold⟩
    have hcount : t.powerupCount =
        ((s.welcomed platform env r spawnpoint).lasting (some r)).powerupCount := by
      simp only [powerupCount, htold.players_eq hwelcomed]
    rw [EStateM.run_bind, EStateM.run_get]
    apply findsCell_generatePowerups _ (htold.listed hwelcomed)
    change t.HasRoom t.powerupCount
    rw [hcount]
    exact htold.hasRoom hwelcomed (hroom spawnpoint hspawn)

/-- If the deletion has been told to the clients and nothing lies off the grid, the
number of covered cells decides. -/
theorem findsCell_powerupEaten_iff {t : Server} {powerup : PowerupData} {rest : Msg}
    (hlisted : s.Listed refs) (hid : msg.header.id = .powerupEaten)
    (hread : readField PowerupData msg = .ok (powerup, rest))
    (hdeleted : (messageAllClients depth (powerupEatenMsg powerup) (some r)).run (s.eaten powerup) =
      .ok () t)
    (hcovered : ∀ pos ∈ t.covered, pos.OnBoard) :
    FindsCell ((onMessage platform env depth r msg).run s) ↔
      ((s.eaten powerup).lasting (some r)).coveredCells.card < gridWidth * gridHeight := by
  have heaten : (s.eaten powerup).Listed refs := ⟨hlisted.deque, hlisted.nodup⟩
  have houtcome := broadcast_outcome heaten depth (powerupEatenMsg powerup) (some r)
  rw [hdeleted] at houtcome
  obtain ⟨refs', htold⟩ := houtcome.told
  have hcells : t.coveredCells = ((s.eaten powerup).lasting (some r)).coveredCells :=
    coveredCells_congr (htold.players_eq heaten) htold.powerups_eq
  rw [run_onMessage_of_powerup s hid hread, EStateM.run_bind, hdeleted, ← hcells]
  constructor
  · intro hfinds
    by_contra hfull
    have hlength := t.length_freeGrid_add_card
    have hnone : t.freeGrid = [] := List.length_eq_zero_iff.mp (by omega)
    rcases t.run_generatePowerup env depth with ⟨hoff, -⟩ | ⟨-, ⟨-, hrun⟩ | ⟨new, hdraw, -⟩⟩
    · exact hoff hcovered
    · simp only [hrun] at hfinds
      exact hfinds rfl
    · rw [hnone] at hdraw
      cases hdraw
  · exact findsCell_generatePowerup

theorem findsCell_onMessage (hlisted : s.Listed refs)
    (hroom : msg.header.id = .powerupEaten → ∀ result ∈ (readField PowerupData msg).toOption,
      ((s.eaten result.1).lasting (some r)).coveredCells.card < gridWidth * gridHeight) :
    FindsCell ((onMessage platform env depth r msg).run s) := by
  cases hid : msg.header.id with
  | powerupEaten =>
      cases hread : readField PowerupData msg with
      | error fault =>
          rw [onMessage, hid]
          simp only [onPowerupEaten, hread]
          rw [eq_shortBody_of_readField hread]
          exact fun heq ↦ by cases heq
      | ok result =>
          obtain ⟨powerup, rest⟩ := result
          have heaten : (s.eaten powerup).Listed refs := ⟨hlisted.deque, hlisted.nodup⟩
          rw [run_onMessage_of_powerup s hid hread]
          refine Ends.bind (ends_told_findsCell heaten) ?_
          rintro _ t - ⟨refs', htold⟩
          apply findsCell_generatePowerup
          rw [coveredCells_congr (htold.players_eq heaten) htold.powerups_eq]
          exact hroom hid (powerup, rest) (by rw [hread]; rfl)
  | updatePlayer =>
      rw [onMessage, hid]
      exact (keepsPowerups_onUpdatePlayer platform env depth r msg).findsCell s
  | startGame =>
      rw [onMessage, hid]
      exact (keepsPowerups_onStartGame depth msg).findsCell s
  | _ =>
      rw [run_onMessage_unhandled s (by simp [hid]) (by simp [hid]) (by simp [hid])]
      trivial

end Server

namespace Process

variable {platform : Platform} {depth : ℕ} {S S' : Process}

/-- When a `PowerupEaten` is handled, the tails and the powerups cover fewer cells
than the grid has, without the players of closed connections and a powerup with
the reported coordinates; when a client is validated, the covered cells and the
powerups that its arrival adds fit the grid. -/
def LeavesRoom (platform : Platform) (S : Process) : Event → Prop
  | .validationRead r env ec bytes =>
      let c := ((S.connections r).onValidationRead ec bytes).1
      ((S.connections r).onValidationRead ec bytes).2 = true →
        ∀ spawnpoint ∈ S.server.spawnpoints.getLast?,
          let told := ((S.setConnection r c).server.welcomed platform env r spawnpoint).lasting (some r)
          told.HasRoom told.powerupCount
  | .update _ => ∀ received ∈ S.server.m_qMessagesIn.head?,
      received.2.header.id = .powerupEaten →
        ∀ result ∈ (readField PowerupData received.2).toOption,
          ((S.server.eaten result.1).lasting (some received.1)).coveredCells.card <
            gridWidth * gridHeight
  | _ => True

instance (platform : Platform) (S : Process) (e : Event) : Decidable (LeavesRoom platform S e) := by
  rcases e <;> unfold LeavesRoom <;> infer_instance

theorem fault_serve {handler : ServerM Unit} (hup : S.fault = none)
    (h : Server.FindsCell (handler.run S.server)) :
    (S.serve handler).fault ≠ some .emptyFreeGrid := by
  unfold serve
  cases hrun : handler.run S.server with
  | ok u server => simp [hup]
  | error fault server =>
      rw [hrun] at h
      intro heq
      exact h (Option.some.inj heq)

theorem fault_of_leavesRoom {e : Event} (henrolled : ∃ refs, S.server.Enrolled refs)
    (hroom : LeavesRoom platform S e) (hstep : S.step platform depth e = some S') :
    S'.fault ≠ some .emptyFreeGrid := by
  obtain ⟨refs, henrolled⟩ := henrolled
  obtain ⟨hup, hmoves⟩ := moves_of_step hstep
  have hnone : S.fault ≠ some .emptyFreeGrid := by simp [hup]
  cases hmoves with
  | @validated r env ec bytes c hreading hread =>
      have hlisted : (S.setConnection r c).server.Listed refs :=
        ⟨henrolled.deque, henrolled.nodup⟩
      have hserved : (((S.setConnection r c).call (.onClientValidated r c.m_handshakeIn)).serve
          (Server.onClientValidated platform env depth r)).fault ≠ some .emptyFreeGrid := by
        refine fault_serve hup (Server.findsCell_onClientValidated hlisted ?_)
        simp only [LeavesRoom, hread] at hroom
        exact hroom trivial
      unfold validate
      simp only
      split
      · exact hserved
      · exact hserved
  | @update env r msg rest hqueue =>
      have hlisted : Server.Listed { S.server with m_qMessagesIn := rest } refs :=
        ⟨henrolled.deque, henrolled.nodup⟩
      refine fault_serve hup (Server.findsCell_onMessage hlisted ?_)
      exact hroom (r, msg) (by rw [hqueue]; rfl)
  | _ => exact hnone

/-- In a run whose steps leave room, no powerup is ever put on a full grid. -/
theorem freeGrid_of_leavesRoom (h : Reaches (step platform depth) (LeavesRoom platform) {} S) :
    S.fault ≠ some .emptyFreeGrid := by
  induction h with
  | refl => exact fun hfault ↦ by cases hfault
  | tail hpast hstep _ =>
      obtain ⟨e, hroom, hstep⟩ := hstep
      exact fault_of_leavesRoom ((enrolled_of_reaches hpast).2.up (moves_of_step hstep).1) hroom
        hstep

theorem freeGrid_of_leavesRoom_corner :
    ∃ S, run (guarded (step .x64 2) (LeavesRoom .x64)) {} (reportsThenEats [⟨39, 29⟩]) = some S ∧
      S.fault ≠ some .emptyFreeGrid := by
  obtain ⟨S, hrun⟩ : ∃ S, run (guarded (step .x64 2) (LeavesRoom .x64)) {}
      (reportsThenEats [⟨39, 29⟩]) = some S := Option.isSome_iff_exists.mp (by decide +kernel)
  exact ⟨S, hrun, freeGrid_of_leavesRoom (reaches_of_guarded hrun)⟩

/-! ## A client that reports the same powerup again and again -/

theorem step_read {r : ConnRef} {op : ReadOp} {bytes : List UInt8} (hup : S.fault = none)
    (hreading : (S.connections r).reading = some op)
    (hlength : bytes.length = (S.connections r).readSize op) :
    S.step platform depth (.read r false bytes) = some (S.onRead r op false bytes) := by
  simp [step, hup, stepRunning, hreading, hlength]

theorem exists_read {r : ConnRef} {msg : Msg} (hup : S.fault = none)
    (hreading : (S.connections r).reading = some .header) (hframed : msg.WellFramed)
    (hbody : msg.body ≠ []) :
    ∃ mid S', S.step platform depth (.read r false (StandardLayout.toBytes msg.header)) = some mid ∧
      mid.step platform depth (.read r false msg.body) = some S' ∧ S'.fault = none ∧
      (S'.connections r).reading = some .header ∧
      (S'.connections r).isOpen = (S.connections r).isOpen ∧
      S'.server = { S.server with
        m_qMessagesIn := S.server.m_qMessagesIn ++ [(r, msg)]
        isConnected := Function.update S.server.isConnected r (S.connections r).isOpen } := by
  have hsize : msg.header.bodySize.toNat = msg.body.length := hframed
  have hpos : 0 < msg.body.length := List.length_pos_iff.mpr hbody
  have hheader : (StandardLayout.toBytes msg.header).length =
      (S.connections r).readSize .header := StandardLayout.length_toBytes _
  have hread : (S.connections r).toConnection.onHeaderRead false (StandardLayout.toBytes msg.header) =
      { (S.connections r).toConnection with
        m_msgTemporaryIn :=
          ⟨msg.header, (S.connections r).m_msgTemporaryIn.body.takeD msg.body.length 0⟩
        reading := some .body } := by
    simp [Connection.onHeaderRead, hsize, hpos, Connection.readBody]
  have hmid : ((S.onRead r .header false (StandardLayout.toBytes msg.header)).connections r).reading =
      some .body := by
    simp [onRead, setConnection, Endpoint.onRead, Connection.onRead, hread]
  refine ⟨_, _, step_read hup hreading hheader, step_read hup hmid ?_, hup, ?_, ?_, ?_⟩
  · simp [onRead, setConnection, Endpoint.onRead, Connection.onRead, hread, Connection.readSize,
      List.takeD_length]
  · simp [onRead, setConnection, Endpoint.onRead, Connection.onRead, Connection.onBodyRead,
      Connection.addToIncomingMessageQueue, Connection.readHeader]
  · simp [onRead, setConnection, Endpoint.onRead, Connection.onRead, Connection.onBodyRead, hread,
      Connection.addToIncomingMessageQueue, Connection.readHeader]
  · simp [onRead, setConnection, Endpoint.onRead, Connection.onRead, Connection.onBodyRead, hread,
      Connection.addToIncomingMessageQueue, Connection.readHeader]

/-- One client is in the game, and nothing of it is left to be handled. -/
structure Awaits (S : Process) : Prop where
  up : S.fault = none
  deque : S.server.m_deqConnections = [some 0]
  queue : S.server.m_qMessagesIn = []
  isOpen : (S.connections 0).isOpen = true
  reading : (S.connections 0).reading = some .header

theorem awaits_iff (S : Process) : Awaits S ↔ S.fault = none ∧
    S.server.m_deqConnections = [some 0] ∧ S.server.m_qMessagesIn = [] ∧
      (S.connections 0).isOpen = true ∧ (S.connections 0).reading = some .header :=
  ⟨fun h ↦ ⟨h.up, h.deque, h.queue, h.isOpen, h.reading⟩, fun ⟨h, h', h'', h₃, h₄⟩ ↦ ⟨h, h', h'', h₃, h₄⟩⟩

instance (S : Process) : Decidable (Awaits S) := decidable_of_iff _ (awaits_iff S).symm

/-- In a run of complete reports about cells of the grid. -/
def ReportsDecodable (platform : Platform) (S : Process) (e : Event) : Prop :=
  ReportsBoard platform S e ∧ HandlesDecodable platform S e

instance (platform : Platform) (S : Process) (e : Event) :
    Decidable (ReportsDecodable platform S e) := inferInstanceAs (Decidable (_ ∧ _))

theorem reportsDecodable_read {r : ConnRef} {ec : Bool} {bytes : List UInt8} :
    ReportsDecodable platform S (.read r ec bytes) := ⟨trivial, trivial⟩

/-- A report of a powerup that is not there, off the grid. -/
def offGrid : PowerupData := ⟨-1, -1⟩

end Process

namespace Server

theorem eaten_offGrid {s : Server} (h : ∀ powerup ∈ s.powerups, powerup.position.OnBoard) :
    s.eaten Process.offGrid = s := by
  have hnone : s.powerups.eraseP (fun p ↦ p.x == Process.offGrid.x && p.y == Process.offGrid.y) =
      s.powerups := by
    apply List.eraseP_of_forall_not
    intro p hp heq
    have hx : p.x = -1 := by
      have := (Bool.and_eq_true _ _).mp heq
      simpa [Process.offGrid] using this.1
    have hnonneg := (h p hp).x_nonneg
    rw [show p.position.x = -1 from hx] at hnonneg
    exact absurd hnonneg (by decide)
  rw [eaten, hnone]

/-- A report that finds nothing takes a free cell, if there is one left. -/
theorem run_onMessage_offGrid {s : Server} (hdeque : s.m_deqConnections = [some 0])
    (hopen : s.IsOpen 0) (hcovered : ∀ pos ∈ s.covered, pos.OnBoard) (platform : Platform)
    (depth : ℕ) :
    (∃ t, (onMessage platform .plain (depth + 1) 0 (powerupEatenMsg Process.offGrid)).run s =
        .error .emptyFreeGrid t) ∨
      ∃ t, (onMessage platform .plain (depth + 1) 0 (powerupEatenMsg Process.offGrid)).run s =
          .ok () t ∧ t.freeGrid.length < s.freeGrid.length ∧
        t.m_deqConnections = [some 0] ∧ t.m_qMessagesIn = s.m_qMessagesIn := by
  have hpowerups : ∀ powerup ∈ s.powerups, powerup.position.OnBoard := fun powerup hmem ↦
    hcovered _ (mem_covered.mpr (.inr ⟨powerup, hmem, rfl⟩))
  have hdeque' : s.m_deqConnections = [0].map some := hdeque
  have hopen' : ∀ ignoreClient, ∀ ref ∈ addressed ignoreClient [0], s.IsOpen ref := by
    intro ignoreClient ref href
    rw [List.mem_singleton.mp (mem_addressed.mp href).1]
    exact hopen
  have hdeleted := run_messageAllClients_of_open hdeque' (hopen' (some 0)) depth
    (powerupEatenMsg Process.offGrid)
  rw [run_onMessage_powerupEaten, eaten_offGrid hpowerups, EStateM.run_bind, hdeleted]
  rcases run_generatePowerup (s.logged (sends (powerupEatenMsg Process.offGrid)
      (addressed (some 0) [0]))) .plain (depth + 1) with
    ⟨hoff, -⟩ | ⟨-, ⟨-, hrun⟩ | ⟨powerup, hdraw, hrun⟩⟩
  · exact absurd hcovered hoff
  · exact .inl ⟨_, hrun⟩
  · have htold := run_messageAllClients_of_open
      (s := (s.logged (sends (powerupEatenMsg Process.offGrid)
        (addressed (some 0) [0]))).spawned powerup)
      hdeque' (hopen' none) depth (newPowerupMsg powerup)
    refine .inr ⟨_, hrun.trans htold, ?_, hdeque, rfl⟩
    have hlength := length_freeGrid_spawned (List.mem_of_getElem? hdraw)
    change (s.spawned powerup).freeGrid.length < _
    change (s.spawned powerup).freeGrid.length + 1 = s.freeGrid.length at hlength
    omega

end Server

namespace Process

/-- Three events later a cell less is free, or none was. -/
theorem Awaits.next (h : Awaits S) (hreach : Reaches (step platform (depth + 1))
    (ReportsDecodable platform) {} S) :
    ∃ S', Reaches (step platform (depth + 1)) (ReportsDecodable platform) {} S' ∧
      (S'.fault = some .emptyFreeGrid ∨
        Awaits S' ∧ S'.server.freeGrid.length < S.server.freeGrid.length) := by
  obtain ⟨mid, S', hheader, hbody, hup, hreading, hopen, hserver⟩ :=
    @exists_read platform (depth + 1) S 0 (Server.powerupEatenMsg offGrid) h.up h.reading
      (by decide) (by decide)
  have hread : Reaches (step platform (depth + 1)) (ReportsDecodable platform) {} S' :=
    (hreach.tail ⟨_, reportsDecodable_read, hheader⟩).tail ⟨_, reportsDecodable_read, hbody⟩
  have hqueue : S'.server.m_qMessagesIn = [(0, Server.powerupEatenMsg offGrid)] := by
    rw [hserver, h.queue]
    rfl
  have hallowed : ReportsDecodable platform S' (.update .plain) := by
    refine ⟨fun received hmem hid ↦ ?_, fun received hmem ↦ ?_⟩
    · rw [hqueue] at hmem
      cases hmem
      cases hid
    · rw [hqueue] at hmem
      cases hmem
      exact .inr ⟨rfl, by decide⟩
  have hstep : S'.step platform (depth + 1) (.update .plain) =
      some (({ S' with server.m_qMessagesIn := [] }.call
        (.onMessage 0 (Server.powerupEatenMsg offGrid))).serve
          (Server.onMessage platform .plain (depth + 1) 0 (Server.powerupEatenMsg offGrid))) := by
    simp [step, hup, stepRunning, hqueue]
  have hboard := onBoard_of_reportsBoard (hreach.mono fun _ _ hallowed ↦ hallowed.1) h.up
  have hcovered : ({ S'.server with m_qMessagesIn := [] } : Server).covered = S.server.covered := by
    rw [hserver]
    rfl
  refine ⟨_, hread.tail ⟨_, hallowed, hstep⟩, ?_⟩
  rcases Server.run_onMessage_offGrid (s := { S'.server with m_qMessagesIn := [] })
    (by rw [hserver]; exact h.deque) (by simp [Server.IsOpen, hserver, h.isOpen])
    (hcovered ▸ hboard.covered) platform depth with ⟨t, hrun⟩ | ⟨t, hrun, hless, hdeque, hleft⟩
  · left
    simp only [serve, call, hrun]
  · right
    have hserved : (({ S' with server.m_qMessagesIn := [] }.call
        (.onMessage 0 (Server.powerupEatenMsg offGrid))).serve
          (Server.onMessage platform .plain (depth + 1) 0 (Server.powerupEatenMsg offGrid))) =
        { ({ S' with server.m_qMessagesIn := [] }.call
          (.onMessage 0 (Server.powerupEatenMsg offGrid))) with server := t } := by
      simp only [serve, call, hrun]
    rw [hserved]
    refine ⟨⟨hup, hdeque, hleft, hopen.trans h.isOpen, hreading⟩, ?_⟩
    have hfree : ({ S'.server with m_qMessagesIn := [] } : Server).freeGrid = S.server.freeGrid := by
      rw [hserver]
      rfl
    exact hfree ▸ hless

theorem Awaits.exhausts (h : Awaits S) (hreach : Reaches (step platform (depth + 1))
    (ReportsDecodable platform) {} S) :
    ∃ S', Reaches (step platform (depth + 1)) (ReportsDecodable platform) {} S' ∧
      S'.fault = some .emptyFreeGrid := by
  induction hfree : S.server.freeGrid.length using Nat.strong_induction_on generalizing S with
  | _ n ih =>
      obtain ⟨S', hreach', hfault | ⟨hawaits, hless⟩⟩ := h.next hreach
      · exact ⟨S', hreach', hfault⟩
      · exact ih _ (hfree ▸ hless) hawaits hreach' rfl

def oneJoins : List Event :=
  [.accept 5, .validationWritten 0 false,
    .validationRead 0 .plain false (StandardLayout.toBytes (Endpoint.scramble 5))]

theorem not_freeGrid_drained :
    ¬ ∀ S, Reaches (step .x64 2) (ReportsDecodable .x64) {} S → S.fault ≠ some .emptyFreeGrid := by
  intro hfinds
  obtain ⟨S, hrun, hawaits⟩ := exists_run_of_any
    (show (run (guarded (step .x64 2) (ReportsDecodable .x64)) {} oneJoins).any
      (fun S ↦ Awaits S) = true by decide +kernel)
  have hreach : Reaches (step .x64 (1 + 1)) (ReportsDecodable .x64) {} S := reaches_of_guarded hrun
  obtain ⟨S', hreach', hfault⟩ := (of_decide_eq_true hawaits).exhausts hreach
  exact hfinds S' hreach' hfault

end Process

end SnekCpp
