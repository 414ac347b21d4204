import SnekCpp.SnekServer.Board

/-!
# Where powerups are put

Two handlers change the powerups: one removes the first powerup at the cell that
a client reports, and both add powerups on cells that nothing covers.  So no two
of them share a cell.
-/

namespace SnekCpp

open Lib Networking

namespace Server

/-! ## New powerups -/

/-- `GeneratePowerup` finds no cell, or puts a powerup on a cell of the grid that
no tail and no powerup covers. -/
def PlacesFreely (s : Server) (env : Env) (depth : ℕ) : Prop :=
  (∃ fault, (fault = .gridIndex ∨ fault = .emptyFreeGrid) ∧
      (generatePowerup env depth).run s = .error fault s) ∨
    ∃ powerup : PowerupData, powerup.position.OnBoard ∧
      (∀ id player, s.players.lookup id = some player → powerup.position ∉ player.tail) ∧
      powerup ∉ s.powerups ∧
      Ends (fun t ↦ t.powerups = s.powerups ++ [powerup])
        (fun _ t ↦ t.powerups = s.powerups ++ [powerup]) ((generatePowerup env depth).run s)

theorem placesFreely (s : Server) (env : Env) (depth : ℕ) : s.PlacesFreely env depth := by
  rcases run_generatePowerup s env depth with ⟨-, hrun⟩ | ⟨-, ⟨-, hrun⟩ | ⟨powerup, hdraw, hrun⟩⟩
  · exact .inl ⟨_, .inl rfl, hrun⟩
  · exact .inl ⟨_, .inr rfl, hrun⟩
  · obtain ⟨hboard, hfree⟩ := mem_freeGrid.mp (List.mem_of_getElem? hdraw)
    refine .inr ⟨powerup, hboard, fun id player hlookup hmem ↦ ?_, fun hmem ↦ ?_, ?_⟩
    · exact hfree (mem_covered.mpr (.inl ⟨id, player, hlookup, hmem⟩))
    · exact hfree (mem_covered.mpr (.inr ⟨powerup, hmem, rfl⟩))
    · rw [hrun]
      exact (keepsPowerups_messageAllClients depth _ none (s.spawned powerup)).mono
        (fun _ ht ↦ ht) fun _ _ ht ↦ ht.2.2

/-! ## No two powerups share a cell -/

/-- A handler that adds no powerup twice. -/
def KeepsApart {α : Type} (m : ServerM α) : Prop :=
  ∀ s : Server, s.powerups.Nodup →
    Ends (fun t ↦ t.powerups.Nodup) (fun _ t ↦ t.powerups.Nodup) (m.run s)

section KeepsApart

variable {α β : Type}

theorem KeepsPowerups.apart {m : ServerM α} (h : KeepsPowerups m) : KeepsApart m :=
  fun s hnodup ↦ (h s).mono (fun _ ht ↦ ht ▸ hnodup) fun _ _ ht ↦ ht.2.2 ▸ hnodup

theorem keepsApart_bind {m : ServerM α} {f : α → ServerM β} (hm : KeepsApart m)
    (hf : ∀ a, KeepsApart (f a)) : KeepsApart (m >>= f) :=
  fun s hnodup ↦ (hm s hnodup).bind fun a t _ ht ↦ hf a t ht

theorem keepsApart_generatePowerup (env : Env) (depth : ℕ) :
    KeepsApart (generatePowerup env depth) := by
  intro s hnodup
  rcases s.placesFreely env depth with ⟨fault, -, hrun⟩ | ⟨powerup, -, -, hnew, hends⟩
  · rw [hrun]
    exact hnodup
  · have hmore : (s.powerups ++ [powerup]).Nodup := by
      rw [← List.concat_eq_append]
      exact (List.nodup_concat _ _).mpr ⟨hnew, hnodup⟩
    exact hends.mono (fun _ ht ↦ ht ▸ hmore) fun _ _ ht ↦ ht ▸ hmore

theorem keepsApart_generatePowerups (env : Env) (depth powerupCount turns : ℕ) :
    KeepsApart (generatePowerups env depth powerupCount turns) := by
  induction turns with
  | zero => exact (keepsPowerups_pure ()).apart
  | succ turns ih =>
      apply keepsApart_bind keepsPowerups_get.apart
      intro s
      split
      · exact keepsApart_bind (keepsApart_generatePowerup env depth) fun _ ↦ ih
      · exact (keepsPowerups_pure ()).apart

theorem keepsApart_deletePowerup (depth : ℕ) (powerup : PowerupData)
    (ignoreClient : Option ConnRef) : KeepsApart (deletePowerup depth powerup ignoreClient) :=
  fun s hnodup ↦ (keepsPowerups_messageAllClients depth _ ignoreClient).apart (s.eaten powerup)
    (List.eraseP_sublist.nodup hnodup)

theorem keepsApart_onMessage (platform : Platform) (env : Env) (depth : ℕ) (r : ConnRef) (msg : Msg) :
    KeepsApart (onMessage platform env depth r msg) := by
  unfold onMessage
  split
  · apply keepsApart_bind (keepsPowerups_readMsg fun _ ↦ eq_shortBody_of_readField).apart
    rintro ⟨eatenPowerup, rest⟩
    apply keepsApart_bind (keepsApart_deletePowerup depth eatenPowerup (some r))
    exact fun _ ↦ keepsApart_generatePowerup env depth
  · exact (keepsPowerups_onUpdatePlayer platform env depth r msg).apart
  · exact (keepsPowerups_onStartGame depth msg).apart
  · exact (keepsPowerups_pure ()).apart

theorem keepsApart_announce (platform : Platform) (env : Env) (depth : ℕ) (client : ConnRef)
    (id : UInt32) (player : PlayerData) :
    KeepsApart (announce platform env depth client id player) := by
  apply keepsApart_bind (keepsPowerups_messageAllClients depth _ _).apart
  intro _
  apply keepsApart_bind keepsPowerups_get.apart
  exact fun s ↦ keepsApart_generatePowerups env depth _ _

theorem keepsApart_onClientValidated (platform : Platform) (env : Env) (depth : ℕ) (r : ConnRef) :
    KeepsApart (onClientValidated platform env depth r) := by
  intro s hnodup
  apply ends_onClientValidated
  · exact fun _ ↦ hnodup
  · intro spawnpoint _
    exact keepsApart_announce platform env depth r _ _ (s.welcomed platform env r spawnpoint) hnodup

end KeepsApart

end Server

namespace Process

variable {platform : Platform} {depth : ℕ} {S : Process}

variable {allowed : Process → Event → Prop}

theorem rules_apart : Rules platform depth allowed (fun s _ ↦ s.powerups.Nodup)
    (fun _ s ↦ s.powerups.Nodup) where
  accept h _ _ := by
    refine ⟨[], ?_⟩
    unfold Server.onAccept
    split
    · exact h
    · exact h
  fields h _ _ := h
  validate := by
    intro S refs r env ec bytes c h _ _ _ _
    exact (Server.keepsApart_onClientValidated platform env depth r (S.setConnection r c).server
      h).mono (fun _ ht ↦ ⟨[], ht⟩) fun _ _ hE ↦ hE
  update := by
    intro S refs r msg rest env h _ _ _
    exact (Server.keepsApart_onMessage platform env depth r msg
      { S.server with m_qMessagesIn := rest } h).mono (fun _ ht ↦ ⟨[], ht⟩) fun _ _ hE ↦ hE

theorem nodup_powerups (h : Reaches (step platform depth) allowed {} S) :
    S.server.powerups.Nodup := by
  have hholds := Holds.of_reaches rules_apart List.nodup_nil h
  cases hfault : S.fault with
  | none =>
      obtain ⟨refs, hnodup⟩ := hholds.up hfault
      exact hnodup
  | some fault => exact hholds.down fault hfault

/-- In every run whose reports are about cells of the grid the powerups are at
distinct cells of it, and from every state a new one is put where nothing is. -/
theorem powerups_apart (h : Reaches (step platform depth) (ReportsBoard platform) {} S) :
    (S.server.powerups.Nodup ∧ ∀ powerup ∈ S.server.powerups, powerup.position.OnBoard) ∧
      ∀ (s : Server) (env : Env) (depth : ℕ), s.PlacesFreely env depth :=
  ⟨⟨nodup_powerups h, powerups_of_reportsBoard h⟩, Server.placesFreely⟩

theorem powerups_apart_corner :
    ∃ S, run (guarded (step .x64 2) (ReportsBoard .x64)) {} (reportsThenEats [⟨39, 29⟩]) = some S ∧
      (S.server.powerups.Nodup ∧ ∀ powerup ∈ S.server.powerups, powerup.position.OnBoard) ∧
        ∀ (s : Server) (env : Env) (depth : ℕ), s.PlacesFreely env depth := by
  obtain ⟨S, hrun⟩ : ∃ S, run (guarded (step .x64 2) (ReportsBoard .x64)) {}
      (reportsThenEats [⟨39, 29⟩]) = some S := Option.isSome_iff_exists.mp (by decide +kernel)
  exact ⟨S, hrun, powerups_apart (reaches_of_guarded hrun)⟩

end Process

end SnekCpp
