import SnekCpp.Game.Membership

/-!
# Dead players on the server

A dead client goes on reporting its empty tail.  The collision check then looks
for the head of that tail as soon as another player has a cell to compare it
with.
-/

namespace SnekCpp

open Lib Networking

/-- An empty tail is handled only when all other players' tails are empty. -/
def DeadAlone (platform : Platform) (S : System) : Event → Prop
  | .update _ => ∀ report ∈ S.nextReport platform, report.tail = [] →
      ∀ entry ∈ S.server.players.entries, entry.1 ≠ report.id → entry.2.tail = []
  | _ => True

instance (platform : Platform) (S : System) (e : Event) : Decidable (DeadAlone platform S e) := by
  rcases e <;> unfold DeadAlone <;> infer_instance

theorem emptyTail_indifferent :
    Server.Indifferent Server.Roll fun fault _ ↦ fault ≠ .emptyTail := by
  apply Server.Roll.indifferent
  · simp
  · rintro s fault (rfl | rfl) <;> simp

theorem emptyTail_rules (platform : Platform) (depth : ℕ) :
    ServerRules platform depth
      (fun S e ↦ TellsIDs platform S e ∧ BodiesFit platform S e ∧ DeadAlone platform S e)
      Server.Roll fun fault _ ↦ fault ≠ .emptyTail where
  toIndifferent := emptyTail_indifferent
  accept h _ := h.exists_onAccept
  close h := h.close
  closeDown h _ := h
  validate {S refs r env} hroll hopen _ _ := by
    have happroved := hroll.approvals.connected r hopen
    apply hroll.ends_onClientValidated emptyTail_indifferent happroved
    · simp
    · exact fun spawnpoint _ s' refs' htold ↦ (hroll.welcomed happroved).told htold
    · simp
  updatePlayer {S refs r env tail direction clientID rest} hroll hqueue hvalidated hid hsize
      hallowed := by
    have hpopped := hroll.fields S.server.powerups S.server.gameStarted rest
    have hnext := System.nextReport_eq hqueue hsize
    apply hpopped.ends_updatePlayer (hroll.approvals.validated r hvalidated) hid hsize
    · simp
    · simp
    · exact fun s' refs' player htold _ ↦ ⟨refs', (hpopped.told htold).moved _ _ _ _⟩
    · intro s' refs' player other p htold _ htail hne hother hcells
      exfalso
      have hbefore := htold.lookup hother
      exact hcells (hallowed.2.2 _ hnext htail ⟨other, p⟩
        ((AssocMap.mem_entries_iff _ _ _).mpr hbefore) (hid ▸ hne))
    · intro s' refs' player owner p head cells htold _ _ _ _
      have hcollided := ((hpopped.told htold).moved (idOf r) player tail direction).collided
        (idOf r) owner
      apply Server.ends_messageAllClients hcollided.listed
      · exact fun t refs'' htold' ↦ ⟨refs'', hcollided.told htold'⟩
      · simp

/-- The collision check never looks for the head of an empty tail in a run in
which every client keeps its id and an empty tail is handled only when all other
tails are empty as well. -/
theorem fault_ne_emptyTail_of_reaches {platform : Platform} {depth : ℕ} {S : System}
    (h : Reaches (System.step platform depth)
      (fun S e ↦ TellsIDs platform S e ∧ BodiesFit platform S e ∧ DeadAlone platform S e) {} S) :
    S.fault ≠ some .emptyTail := by
  have hholds := Holds.of_reaches (emptyTail_rules platform depth)
    (fun h ↦ .of_reaches (h.mono fun _ _ h ↦ ⟨h.1, h.2.1⟩)) .init h
  intro hfault
  exact hholds.down _ hfault rfl

/-- Two clients join, and the first one runs into the second. -/
def runsInto : List Event :=
  [.accept, .accept, .validate 0 .plain, .validate 1 .plain, .receive 0, .handle 0, .enterGame 0,
    .key 0 .a true] ++
    (List.replicate 10 [.frame 0, .updateServer 0, .read 0, .update .plain]).flatten

/-- It presses P as well, and the start is relayed with the body of its report. -/
theorem fault_ne_emptyTail_runsInto :
    ∃ S, run (guarded (System.step .x64 8)
        fun S e ↦ TellsIDs .x64 S e ∧ BodiesFit .x64 S e ∧ DeadAlone .x64 S e) {}
          (runsInto ++ [.key 0 .p true, .read 0, .update .plain]) = some S ∧
      S.fault ≠ some .emptyTail := by
  obtain ⟨S, hrun⟩ : ∃ S, run (guarded (System.step .x64 8)
      fun S e ↦ TellsIDs .x64 S e ∧ BodiesFit .x64 S e ∧ DeadAlone .x64 S e) {}
        (runsInto ++ [.key 0 .p true, .read 0, .update .plain]) = some S :=
    Option.isSome_iff_exists.mp (by decide +kernel)
  exact ⟨S, hrun, fault_ne_emptyTail_of_reaches (reaches_of_guarded hrun)⟩

/-- The killed client handles the news and reports its empty tail. -/
theorem not_fault_ne_emptyTail_killed :
    ¬ ∀ S, Reaches (System.step .x64 8) (fun _ _ ↦ True) {} S → S.fault ≠ some .emptyTail := by
  intro hsafe
  obtain ⟨S, hreaches, hfault⟩ := @exists_reaches_of_run _ _ (System.step .x64 8) {}
    (runsInto ++ [.frame 0, .receive 0, .receive 0, .receive 0, .handle 0, .handle 0, .handle 0,
      .updateServer 0, .read 0, .update .plain])
    (fun S ↦ decide (S.fault = some .emptyTail)) (by decide +kernel)
  exact hsafe S hreaches (of_decide_eq_true hfault)

end SnekCpp
