import SnekCpp.SnekServer.Placement

/-!
# How many powerups there are

`DeletePowerup` removes the powerup that a client has eaten, if it finds one,
and `GeneratePowerup` adds one in any case.  The number of powerups stays as it
is exactly when every report is about a powerup that is still there.
-/

namespace SnekCpp.Server

open Lib Networking

/-- A message of a client, with the choices made while it is handled. -/
structure Report where
  env : Env
  client : ConnRef
  msg : Msg

/-- `P` relates the states around each report that is handled, up to a fault. -/
def HandlesEach (platform : Platform) (depth : ℕ) (P : Server → Report → Server → Prop) :
    List Report → Server → Prop
  | [], _ => True
  | report :: reports, s =>
      match (onMessage platform report.env depth report.client report.msg).run s with
      | .ok _ s' => P s report s' ∧ HandlesEach platform depth P reports s'
      | .error _ _ => True

instance HandlesEach.decidable (platform : Platform) (depth : ℕ) (P : Server → Report → Server → Prop)
    [∀ s report s', Decidable (P s report s')] :
    ∀ reports s, Decidable (HandlesEach platform depth P reports s)
  | [], _ => isTrue trivial
  | report :: reports, s =>
      match hrun : (onMessage platform report.env depth report.client report.msg).run s with
      | .ok _ s' =>
          have := HandlesEach.decidable platform depth P reports s'
          decidable_of_iff (P s report s' ∧ HandlesEach platform depth P reports s')
            (by simp only [HandlesEach, hrun])
      | .error _ _ => isTrue (by simp only [HandlesEach, hrun])

def KeepsCount (s : Server) (_ : Report) (s' : Server) : Prop :=
  s'.powerups.length = s.powerups.length

instance (s : Server) (report : Report) (s' : Server) : Decidable (KeepsCount s report s') :=
  inferInstanceAs (Decidable (_ = _))

/-- The server has a powerup where the message says that one has been eaten. -/
def FindsEaten (s : Server) (report : Report) (_ : Server) : Prop :=
  ∀ result ∈ (readField PowerupData report.msg).toOption, result.1 ∈ s.powerups

variable {platform : Platform} {depth : ℕ}

theorem handlesEach_congr {P Q : Server → Report → Server → Prop} {reports : List Report}
    (h : ∀ report ∈ reports, ∀ s s',
      (onMessage platform report.env depth report.client report.msg).run s = .ok () s' →
        (P s report s' ↔ Q s report s')) (s : Server) :
    HandlesEach platform depth P reports s ↔ HandlesEach platform depth Q reports s := by
  induction reports generalizing s with
  | nil => exact Iff.rfl
  | cons report reports ih =>
      cases hrun : (onMessage platform report.env depth report.client report.msg).run s with
      | error fault s' => simp only [HandlesEach, hrun]
      | ok u s' =>
          have hhead := h report (by simp) s s' hrun
          have htail := ih (fun other hmem ↦ h other (List.mem_cons_of_mem _ hmem)) s'
          simp only [HandlesEach, hrun, hhead, htail]

theorem length_eaten (s : Server) (powerup : PowerupData) :
    (s.eaten powerup).powerups.length + 1 = s.powerups.length ↔ powerup ∈ s.powerups := by
  have hany : (s.powerups.any fun p ↦ p.x == powerup.x && p.y == powerup.y) = true ↔
      powerup ∈ s.powerups := by
    rw [List.any_eq_true]
    constructor
    · rintro ⟨p, hp, heq⟩
      have hsame : p = powerup := by
        obtain ⟨hx, hy⟩ := by simpa using heq
        cases p
        cases powerup
        simp_all
      exact hsame ▸ hp
    · exact fun hp ↦ ⟨powerup, hp, by simp⟩
  rw [eaten, List.length_eraseP]
  by_cases hmem : powerup ∈ s.powerups
  · have hpos : 0 < s.powerups.length := List.length_pos_of_mem hmem
    rw [if_pos (hany.mpr hmem)]
    simp only [hmem, iff_true]
    omega
  · rw [if_neg fun htrue ↦ hmem (hany.mp htrue)]
    simp [hmem]

/-- One powerup more than `DeletePowerup` has left. -/
theorem length_powerups_of_eaten {s s' : Server} {r : ConnRef} {env : Env} {msg rest : Msg}
    {powerup : PowerupData} (hid : msg.header.id = .powerupEaten)
    (hread : readField PowerupData msg = .ok (powerup, rest))
    (hrun : (onMessage platform env depth r msg).run s = .ok () s') :
    s'.powerups.length = (s.eaten powerup).powerups.length + 1 := by
  have hends : Ends (fun t ↦ t.powerups.length = (s.eaten powerup).powerups.length + 1)
      (fun _ _ ↦ True) ((onMessage platform env depth r msg).run s) := by
    rw [run_onMessage_of_powerup s hid hread]
    refine Ends.bind ((keepsPowerups_messageAllClients depth _ _ (s.eaten powerup)).mono
      (fun _ ht ↦ ht) fun _ _ _ ↦ trivial) fun _ t _ ht ↦ ?_
    rcases t.placesFreely env depth with ⟨fault, -, hfault⟩ | ⟨new, -, -, -, hplaced⟩
    · rw [hfault]
      trivial
    · refine hplaced.mono (fun u hu ↦ ?_) fun _ _ _ ↦ trivial
      rw [hu, List.length_append, ht]
      rfl
  rw [hrun] at hends
  exact hends

/-- From any state and for any reports, eating keeps the number of powerups if
and only if the server finds each powerup that is reported. -/
theorem keepsCount_iff {reports : List Report}
    (hid : ∀ report ∈ reports, report.msg.header.id = .powerupEaten) (s : Server) :
    HandlesEach platform depth KeepsCount reports s ↔
      HandlesEach platform depth FindsEaten reports s := by
  refine handlesEach_congr (fun report hmem s s' hrun ↦ ?_) s
  cases hread : readField PowerupData report.msg with
  | error fault =>
      have hfault : (onMessage platform report.env depth report.client report.msg).run s =
          .error fault s := by
        rw [onMessage, hid report hmem]
        simp only [onPowerupEaten, hread]
        rfl
      rw [hrun] at hfault
      cases hfault
  | ok result =>
      obtain ⟨powerup, rest⟩ := result
      have hlength := length_powerups_of_eaten (hid report hmem) hread hrun
      simp only [KeepsCount, FindsEaten, hread, Except.toOption, Option.mem_some_iff, forall_eq',
        hlength, length_eaten]

/-- Two clients are in the game, and there is one powerup. -/
def onePowerup : Server := { twoConnections fun _ ↦ true with powerups := [⟨5, 5⟩] }

def crossing : List Report :=
  [⟨.plain, 0, powerupEatenMsg ⟨5, 5⟩⟩, ⟨.plain, 1, powerupEatenMsg ⟨5, 5⟩⟩]

theorem keepsCount_iff_crossing :
    HandlesEach .x64 2 KeepsCount crossing onePowerup ↔
      HandlesEach .x64 2 FindsEaten crossing onePowerup :=
  keepsCount_iff (by decide) onePowerup

theorem not_keepsCount_crossing :
    ¬ ∀ (s : Server) (reports : List Report), s.freeGrid ≠ [] →
      (∀ report ∈ reports, report.msg.header.id = .powerupEaten) →
        HandlesEach .x64 2 KeepsCount reports s := by
  intro hkeeps
  have hfree : onePowerup.freeGrid ≠ [] := by decide +kernel
  have hnot : ¬ HandlesEach .x64 2 KeepsCount crossing onePowerup := by decide +kernel
  exact hnot (hkeeps onePowerup crossing hfree (by decide))

end SnekCpp.Server
