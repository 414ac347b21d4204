import SnekCpp.SnekServer.Runs

/-!
# Who gets a seat

The spawnpoints and the start of the game are looked at when a connection is
accepted, and the seat is taken when its answer has been read.
-/

namespace SnekCpp

open Lib Networking

namespace Server

theorem spawnpoints_onMessage (platform : Platform) (env : Env) (depth : ℕ) (r : ConnRef)
    (msg : Msg) (s : Server) :
    (after ((onMessage platform env depth r msg).run s)).spawnpoints = s.spawnpoints :=
  (only_onMessage platform env depth r msg s).spawnpoints

theorem spawnpoints_onClientValidated (platform : Platform) (env : Env) (depth : ℕ) (r : ConnRef)
    (s : Server) :
    (after ((onClientValidated platform env depth r).run s)).spawnpoints =
      s.spawnpoints.dropLast := by
  cases hspawn : s.spawnpoints.getLast? with
  | none =>
      rw [run_onClientValidated_none platform hspawn]
      have hempty : s.spawnpoints = [] := List.getLast?_eq_none_iff.mp hspawn
      simp [after, logged, hempty]
  | some spawnpoint =>
      rw [run_onClientValidated platform hspawn]
      exact (only_announce platform env depth r (s.getID r)
        { direction := .up, tail := [spawnpoint], color := env.color }
        (s.welcomed platform env r spawnpoint)).spawnpoints

end Server

namespace Process

variable {platform : Platform} {depth : ℕ} {S S' : Process}

/-- The approved connections whose answer has not been read yet. -/
def waiting (S : Process) : List ConnRef :=
  (List.range S.server.approved).filter fun r ↦ (S.connections r).readingValidation

/-- A connection is approved only while there are more spawnpoints than answers to come. -/
def SeatsLeft (S : Process) : Event → Prop
  | .accept _ => S.server.onClientConnect = true →
      S.waiting.length < S.server.spawnpoints.length
  | _ => True

/-- Every connection that waits has a spawnpoint. -/
def Seated (S : Process) : Prop := S.waiting.length ≤ S.server.spawnpoints.length

theorem mem_waiting {r : ConnRef} :
    r ∈ S.waiting ↔ r < S.server.approved ∧ (S.connections r).readingValidation = true := by
  simp [waiting]

theorem nodup_waiting (S : Process) : S.waiting.Nodup := List.nodup_range.filter _

theorem length_waiting_le (h : ∀ r ∈ S'.waiting, r ∈ S.waiting) :
    S'.waiting.length ≤ S.waiting.length :=
  (S'.nodup_waiting.subperm h).length_le

theorem Seated.mono (h : Seated S) (hwaiting : ∀ r ∈ S'.waiting, r ∈ S.waiting)
    (hspawnpoints : S'.server.spawnpoints = S.server.spawnpoints) : Seated S' := by
  unfold Seated
  rw [hspawnpoints]
  exact (length_waiting_le hwaiting).trans h

theorem mem_waiting_of_setConnection {r other : ConnRef} {c : Endpoint MessageTypes}
    (hwaiting : c.readingValidation = true → (S.connections r).readingValidation = true)
    (h : other ∈ (S.setConnection r c).waiting) : other ∈ S.waiting := by
  obtain ⟨hlt, hreading⟩ := mem_waiting.mp h
  refine mem_waiting.mpr ⟨hlt, ?_⟩
  by_cases hne : other = r
  · subst hne
    rw [show (S.setConnection other c).connections other = c from Function.update_self ..] at hreading
    exact hwaiting hreading
  · rwa [show (S.setConnection r c).connections other = S.connections other from
      Function.update_of_ne hne _ _] at hreading

theorem Seated.setConnection (h : Seated S) {r : ConnRef} {c : Endpoint MessageTypes}
    (hwaiting : c.readingValidation = true → (S.connections r).readingValidation = true) :
    Seated (S.setConnection r c) :=
  h.mono (fun _ ↦ mem_waiting_of_setConnection hwaiting) rfl

theorem waiting_approve (now : UInt64) (hconnect : S.server.onClientConnect = true) :
    ∀ r ∈ (S.approve now).waiting, r ∈ S.server.approved :: S.waiting := by
  intro r hr
  obtain ⟨hlt, hreading⟩ := mem_waiting.mp hr
  rw [show (S.approve now).server.approved = S.server.approved + 1 by
    simp [approve, Server.onAccept, hconnect]] at hlt
  by_cases hne : r = S.server.approved
  · rw [hne]
    exact List.mem_cons_self ..
  · rw [show (S.approve now).connections r = S.connections r from
      Function.update_of_ne hne _ _] at hreading
    exact List.mem_cons_of_mem _
      (mem_waiting.mpr ⟨Nat.lt_of_le_of_ne (Nat.le_of_lt_succ hlt) hne, hreading⟩)

/-- The seat of `r` is taken, and `r` does not wait any more. -/
theorem length_waiting_lt {r : ConnRef} (hr : r ∈ S.waiting) (hnot : r ∉ S'.waiting)
    (h : ∀ other ∈ S'.waiting, other ∈ S.waiting) : S'.waiting.length < S.waiting.length := by
  have hnodup : (r :: S'.waiting).Nodup := List.nodup_cons.mpr ⟨hnot, S'.nodup_waiting⟩
  have hsub : (r :: S'.waiting) ⊆ S.waiting := by
    intro other hother
    rcases List.mem_cons.mp hother with rfl | hother
    · exact hr
    · exact h other hother
  exact (hnodup.subperm hsub).length_le

/-- The last spawnpoint goes to the connection that has answered. -/
theorem Seated.validate (h : Seated S) {r : ConnRef} {env : Env} {c : Endpoint MessageTypes}
    (hsteady : (S.connections r).Steady c) (hdone : c.readingValidation = false)
    (hr : r ∈ S.waiting) : Seated ((S.setConnection r c).validate platform depth r env c) := by
  set served := ((S.setConnection r c).call (.onClientValidated r c.m_handshakeIn)).serve
    (Server.onClientValidated platform env depth r) with hserved
  have happroved : served.server.approved = S.server.approved := by
    rw [hserved, server_serve]
    exact (Server.untouched_onClientValidated platform env depth r _).approved
  have hspawnpoints : served.server.spawnpoints = S.server.spawnpoints.dropLast := by
    rw [hserved, server_serve]
    exact Server.spawnpoints_onClientValidated platform env depth r _
  have hconnections : served.connections = (S.setConnection r c).connections :=
    serve_connections _ _
  have hsub : ∀ other ∈ served.waiting, other ∈ (S.setConnection r c).waiting := by
    intro other hother
    obtain ⟨hlt, hreading⟩ := mem_waiting.mp hother
    rw [happroved] at hlt
    rw [hconnections] at hreading
    exact mem_waiting.mpr ⟨hlt, hreading⟩
  have hnot : r ∉ served.waiting := by
    intro hmem
    obtain ⟨-, hreading⟩ := mem_waiting.mp (hsub r hmem)
    rw [show (S.setConnection r c).connections r = c from Function.update_self .., hdone] at hreading
    cases hreading
  have hseated : Seated served := by
    have hlt := length_waiting_lt hr hnot fun other hother ↦
      mem_waiting_of_setConnection hsteady.waiting (hsub other hother)
    have hle : S.waiting.length ≤ S.server.spawnpoints.length := h
    unfold Seated
    rw [hspawnpoints, List.length_dropLast]
    omega
  unfold Process.validate
  simp only
  rw [← hserved]
  split
  · apply hseated.setConnection
    intro hreading
    rw [show c.readHeader.readingValidation = c.readingValidation from rfl, hdone] at hreading
    cases hreading
  · exact hseated

theorem Seated.step (h : Seated S) (hphased : Phased S) {e : Event} (hallowed : S.SeatsLeft e)
    (hstep : S.step platform depth e = some S') : Seated S' := by
  obtain ⟨hup, hmoves⟩ := moves_of_step hstep
  cases hmoves with
  | @approved now hconnect =>
      have hlt := hallowed hconnect
      have hle : (S.approve now).waiting.length ≤ (S.server.approved :: S.waiting).length :=
        ((S.approve now).nodup_waiting.subperm (waiting_approve now hconnect)).length_le
      have hspawnpoints : (S.approve now).server.spawnpoints = S.server.spawnpoints := by
        simp [approve, Server.onAccept, hconnect]
      unfold Seated
      rw [hspawnpoints]
      exact hle.trans hlt
  | denied => exact h
  | validationWritten hwriting =>
      exact h.setConnection (Endpoint.steady_onValidationWritten (hphased.owner _) _).waiting
  | rejected hreading hread =>
      exact h.setConnection (Endpoint.onValidationRead_spec (hphased.owner _) hread).1.waiting
  | @validated r env ec bytes c hreading hread =>
      obtain ⟨hsteady, hdone, -⟩ := Endpoint.onValidationRead_spec (hphased.owner r) hread
      exact h.validate hsteady hdone (mem_waiting.mpr ⟨(hphased.waiting r hreading).1, hreading⟩)
  | read hreading => exact h.setConnection (Endpoint.steady_onRead hreading _ _).waiting
  | send hposted hsend => exact h.setConnection (Endpoint.steady_send hsend).waiting
  | written hwritten => exact h.setConnection (Endpoint.steady_onWritten hwritten).waiting
  | @update env r msg rest hqueue =>
      have huntouched := Server.untouched_onMessage platform env depth r msg
        { S.server with m_qMessagesIn := rest }
      have hspawnpoints := Server.spawnpoints_onMessage platform env depth r msg
        { S.server with m_qMessagesIn := rest }
      refine h.mono (fun other hother ↦ ?_) ?_
      · obtain ⟨hlt, hreading⟩ := mem_waiting.mp hother
        rw [server_serve] at hlt
        rw [serve_connections] at hreading
        exact mem_waiting.mpr ⟨hlt.trans_eq huntouched.approved, hreading⟩
      · rw [server_serve]
        exact hspawnpoints

instance (S : Process) (e : Event) : Decidable (S.SeatsLeft e) := by
  rcases e <;> unfold SeatsLeft <;> infer_instance

/-- If no more connections wait for their answers than there are spawnpoints,
every client that is validated has one. -/
theorem spawnpoints_suffice {S : Process} (h : Reaches (step platform depth) SeatsLeft {} S) :
    S.fault ≠ some .emptySpawnpoints := by
  have hseated := h.strengthen (I := fun S ↦ Phased S ∧ Seated S) ⟨.start, Nat.zero_le _⟩
    fun _ _ _ hI hallowed hstep ↦ ⟨hI.1.step hstep, hI.2.step hI.1 hallowed hstep⟩
  have hrules : Rules platform depth (fun S e ↦ SeatsLeft S e ∧ Phased S ∧ Seated S)
      Server.Enrolled fun fault _ ↦ fault ≠ .emptySpawnpoints := by
    apply rules_enrolled fun fault _ hne ↦ hne
    intro S r env ec bytes _ hphased hreading hallowed hempty
    exfalso
    have hr : r ∈ S.waiting := mem_waiting.mpr ⟨(hphased.waiting r hreading).1, hreading⟩
    have hle : S.waiting.length ≤ S.server.spawnpoints.length := hallowed.2.2
    have hpos := List.length_pos_of_mem hr
    rw [hempty, List.length_nil] at hle
    omega
  exact fun hfault ↦ (Holds.of_reaches hrules Server.enrolled_init hseated).down _ hfault rfl

theorem spawnpoints_suffice_oneClient :
    ∃ S, run (guarded (step .x64 2) SeatsLeft) {} oneClient = some S ∧
      S.fault ≠ some .emptySpawnpoints := by
  obtain ⟨S, hrun⟩ : ∃ S, run (guarded (step .x64 2) SeatsLeft) {} oneClient = some S :=
    Option.isSome_iff_exists.mp (by decide +kernel)
  exact ⟨S, hrun, spawnpoints_suffice (reaches_of_guarded hrun)⟩

/-- Thirteen clients connect before the first of them answers. -/
def thirteenClients : List Event :=
  List.replicate 13 (.accept 5) ++ (List.range 13).map fun r ↦
    .validationRead r .plain false (StandardLayout.toBytes (Endpoint.scramble 5))

theorem not_spawnpoints_suffice :
    ¬ ∀ S, Reaches (step .x64 2) (fun _ _ ↦ True) {} S → S.fault ≠ some .emptySpawnpoints := by
  intro hsuffice
  obtain ⟨S, hreaches, hfault⟩ := @exists_reaches_of_run _ _ (step .x64 2) {} thirteenClients
    (fun S ↦ S.fault = some .emptySpawnpoints) (by decide +kernel)
  exact hsuffice S hreaches (of_decide_eq_true hfault)

end Process

end SnekCpp
