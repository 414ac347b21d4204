import SnekCpp.SnekServer.Admission
import SnekCpp.SnekServer.Gate
import SnekCpp.SnekServer.Started

/-!
# Seats and spawnpoints

Each join takes the last spawnpoint off the vector and adds a player.  A client
that leaves takes its player with it, and nothing puts its spawnpoint back.
-/

namespace SnekCpp

open Lib Networking

namespace Server

/-- The players of the map and the spawnpoints left for others. -/
def seats (s : Server) : ℕ := s.spawnpoints.length + s.players.entries.length

/-- Only the connection `gone` of the list is closed. -/
def OnlyClosed (s : Server) (gone : ConnRef) : Prop :=
  some gone ∈ s.m_deqConnections ∧ ¬ s.IsOpen gone ∧
    ∀ client ∈ s.m_deqConnections, ∀ ref ∈ client, ref ≠ gone → s.IsOpen ref

instance (s : Server) (gone : ConnRef) : Decidable (s.OnlyClosed gone) :=
  inferInstanceAs (Decidable (_ ∧ _))

/-- The client of that id is not the only closed one of the list, which a
broadcast to all would report. -/
def Keeps (s : Server) (id : UInt32) : Prop :=
  ∀ client ∈ s.m_deqConnections, ∀ gone ∈ client, s.OnlyClosed gone → s.getID gone ≠ id

instance (s : Server) (id : UInt32) : Decidable (s.Keeps id) := by
  unfold Keeps
  infer_instance

def KeepsPlayers (s : Server) : Prop := ∀ entry ∈ s.players.entries, s.Keeps entry.1

instance (s : Server) : Decidable s.KeepsPlayers := inferInstanceAs (Decidable (∀ _ ∈ _, _))

variable {s t : Server} {refs refs' : List ConnRef} {msg : Msg}

theorem KeepsPlayers.keeps (h : s.KeepsPlayers) {id : UInt32} (hid : id ∈ s.players) :
    s.Keeps id := by
  obtain ⟨player, hplayer⟩ := AssocMap.lookup_eq_some_of_mem hid
  exact h ⟨id, player⟩ ((AssocMap.mem_entries_iff _ _ _).mpr hplayer)

theorem Keeps.congr {id : UInt32} (h : s.Keeps id) (hdeque : t.m_deqConnections = s.m_deqConnections)
    (hisConnected : t.isConnected = s.isConnected) (hgetID : t.getID = s.getID) : t.Keeps id := by
  unfold Keeps OnlyClosed IsOpen at *
  rwa [hdeque, hisConnected, hgetID]

/-- A broadcast that ends with a disconnect has found one connection closed. -/
theorem Listed.onlyClosed {before after : List ConnRef} {gone : ConnRef}
    (hlisted : s.Listed (before ++ gone :: after)) (hclosed : ¬ s.IsOpen gone)
    (hopen : ∀ ref ∈ before ++ after, s.IsOpen ref) : s.OnlyClosed gone := by
  unfold OnlyClosed
  rw [hlisted.deque]
  refine ⟨by simp, hclosed, fun client hclient ref href hne ↦ hopen ref ?_⟩
  rw [Option.mem_def] at href
  subst href
  exact mem_others (by simpa using hclient) hne

/-- Who is known keeps their seat, and nobody else takes one. -/
structure Seated (known : AssocMap UInt32 PlayerData) (spawnpoints : List Position) (s : Server)
    (refs : List ConnRef) : Prop extends s.Enrolled refs where
  keeps : ∀ id ∈ known, s.Keeps id
  players : ∀ id, id ∈ s.players ↔ id ∈ known
  spawnpoints : s.spawnpoints = spawnpoints

namespace Seated

variable {known : AssocMap UInt32 PlayerData} {spawnpoints : List Position}

theorem seats (h : Seated known spawnpoints s refs) :
    s.seats = spawnpoints.length + known.entries.length := by
  unfold Server.seats
  rw [h.spawnpoints, AssocMap.length_entries_congr h.players]

theorem fields (h : Seated known spawnpoints s refs)
    (hdeque : t.m_deqConnections = s.m_deqConnections) (happroved : t.approved = s.approved)
    (hisConnected : t.isConnected = s.isConnected) (hgetID : t.getID = s.getID)
    (hplayers : ∀ id, id ∈ t.players ↔ id ∈ s.players) (hspawnpoints : t.spawnpoints = s.spawnpoints) :
    Seated known spawnpoints t refs := by
  refine ⟨h.toEnrolled.fields hdeque happroved, fun id hid ↦ ?_, fun id ↦ ?_,
    hspawnpoints.trans h.spawnpoints⟩
  · exact (h.keeps id hid).congr hdeque hisConnected hgetID
  · exact (hplayers id).trans (h.players id)

theorem told {ignoreClient : Option ConnRef} (h : Seated known spawnpoints s refs)
    (htold : Told s refs msg ignoreClient t refs') : Seated known spawnpoints t refs' := by
  have henrolled := htold.enrolled h.toEnrolled
  cases htold with
  | delivered hopen => exact h.fields rfl rfl rfl rfl (fun _ ↦ Iff.rfl) rfl
  | @departed before after gone hrefs hgone hclosed hopen =>
      subst hrefs
      have honly : s.OnlyClosed gone := h.toListed.onlyClosed hclosed hopen
      have hlost : s.getID gone ∉ known := by
        intro hid
        exact h.keeps _ hid _ honly.1 gone rfl honly rfl
      refine ⟨henrolled, fun id _ ↦ ?_, fun id ↦ ?_, h.spawnpoints⟩
      · -- Whoever is left is open.
        intro client hclient ref href honly'
        exfalso
        apply honly'.2.1
        apply hopen
        rw [Option.mem_def] at href
        subst href
        simpa [Server.departed] using hclient
      · rw [Server.departed]
        simp only [AList.mem_erase]
        rw [h.players]
        constructor
        · exact fun hmem ↦ hmem.2
        · exact fun hmem ↦ ⟨fun heq ↦ hlost (heq ▸ hmem), hmem⟩

theorem insert (h : Seated known spawnpoints s refs) {id : UInt32} (hid : id ∈ s.players)
    (player : PlayerData) :
    Seated known spawnpoints { s with players := s.players.insert id player } refs := by
  refine h.fields rfl rfl rfl rfl (fun other ↦ ?_) rfl
  rw [AList.mem_insert]
  constructor
  · rintro (rfl | hother)
    · exact hid
    · exact hother
  · exact .inr

end Seated

/-- What has become of the seats after a fault, but for the player that the
lookup of an unknown head adds. -/
def SeatsEnd (total : ℕ) (fault : Fault) (s : Server) : Prop := fault ≠ .emptyTail → s.seats = total

theorem Seated.robust (known : AssocMap UInt32 PlayerData) (spawnpoints : List Position) :
    Robust (Seated known spawnpoints)
      (SeatsEnd (spawnpoints.length + known.entries.length)) where
  listed h := h.toListed
  fields h _ _ _ := h.fields rfl rfl rfl rfl (fun _ ↦ Iff.rfl) rfl
  logged h _ _ := h.fields rfl rfl rfl rfl (fun _ ↦ Iff.rfl) rfl
  told h htold := h.told htold
  insert h hid player := h.insert hid player
  fault h _ _ _ := h.seats

/-- The server of the process, as long as every seat is a spawnpoint or a player. -/
structure Conserved (total : ℕ) (s : Server) (refs : List ConnRef) : Prop extends s.Enrolled refs where
  seats : s.seats = total

end Server

namespace Process

variable {platform : Platform} {depth : ℕ} {S S' : Process}

/-- The connection whose answer is read, if it is the right one. -/
def joins (S : Process) : Event → Option ConnRef
  | .validationRead r _ ec bytes =>
      if ((S.connections r).onValidationRead ec bytes).2 then some r else none
  | _ => none

/-- The event makes the server broadcast something. -/
def Broadcasts (S : Process) (e : Event) : Prop :=
  match e with
  | .validationRead .. => (S.joins e).isSome
  | .update _ => ∃ received ∈ S.server.m_qMessagesIn.head?, Server.Relays received.2
  | _ => False

instance (S : Process) (e : Event) : Decidable (S.Broadcasts e) := by
  rcases e <;> unfold Broadcasts <;> infer_instance

/-- Whoever joins is new and stays, and no broadcast reports a client that has a player. -/
def LosesNobody (S : Process) (e : Event) : Prop :=
  S.Broadcasts e → S.server.KeepsPlayers ∧ ∀ r ∈ S.joins e,
    S.server.getID r ∉ S.server.players ∧ S.server.Keeps (S.server.getID r)

instance (S : Process) (e : Event) : Decidable (S.LosesNobody e) :=
  inferInstanceAs (Decidable (_ → _))

theorem rules_seats (total : ℕ) :
    Rules platform depth (fun S e ↦ S.LosesNobody e ∧ Synced S) (Server.Conserved total)
      (Server.SeatsEnd total) where
  accept := by
    intro S refs now h _ hconnect
    refine ⟨_, h.toEnrolled.onAccept hconnect, ?_⟩
    simpa [Server.seats, Server.onAccept, hconnect] using h.seats
  fields h _ _ := ⟨h.toEnrolled.fields rfl rfl, h.seats⟩
  validate := by
    intro S refs r env ec bytes c h hphased hreading hread hallowed
    have hjoins : S.joins (.validationRead r env ec bytes) = some r := by
      simp [joins, hread]
    have hserver : (S.setConnection r c).server = S.server :=
      hallowed.2.server_setConnection (hphased.waiting r hreading).1
        (Endpoint.isOpen_of_onValidationRead (hphased.owner r) hread)
    rw [hserver]
    apply Server.ends_onClientValidated
    · exact fun _ _ ↦ h.seats
    · intro spawnpoint hspawn
      have hne : S.server.spawnpoints ≠ [] := fun hnil ↦ by simp [hnil] at hspawn
      obtain ⟨hothers, hjoining⟩ := hallowed.1 (by simp only [Broadcasts, hjoins, Option.isSome_some])
      obtain ⟨hnew, hkeeps⟩ := hjoining r hjoins
      set known := S.server.players.insert (S.server.getID r)
        { direction := .up, tail := [spawnpoint], color := env.color } with hknown
      have htotal : S.server.spawnpoints.dropLast.length + known.entries.length = total := by
        rw [List.length_dropLast, hknown, AssocMap.length_entries_insert hnew]
        have hlength := List.length_pos_iff.mpr hne
        have hseats : S.server.spawnpoints.length + S.server.players.entries.length = total :=
          h.seats
        omega
      have hwelcomed : Server.Seated known S.server.spawnpoints.dropLast
          (S.server.welcomed platform env r spawnpoint) refs := by
        refine ⟨h.toEnrolled.fields rfl rfl, fun id hid ↦ ?_, fun _ ↦ Iff.rfl, rfl⟩
        rcases (AList.mem_insert _).mp hid with rfl | hid
        · exact hkeeps
        · exact hothers.keeps hid
      refine ((Server.Seated.robust known _).announce hwelcomed env depth r _ _).mono ?_ ?_
      · rintro t ⟨refs', ht⟩
        exact ⟨refs', ht.toEnrolled, ht.seats.trans htotal⟩
      · exact fun _ _ hend hne ↦ (hend hne).trans htotal
  update := by
    intro S refs r msg rest env h _ hqueue hallowed
    by_cases hrelays : Server.Relays msg
    · obtain ⟨hkeeps, -⟩ := hallowed.1 ⟨(r, msg), by rw [hqueue]; rfl, hrelays⟩
      have hpopped : Server.Seated S.server.players S.server.spawnpoints
          { S.server with m_qMessagesIn := rest } refs :=
        ⟨h.toEnrolled.fields rfl rfl, fun _ hid ↦ hkeeps.keeps hid, fun _ ↦ Iff.rfl, rfl⟩
      have hrobust := Server.Seated.robust S.server.players S.server.spawnpoints
      refine (hrobust.onMessage hpopped env depth r msg ?_).mono ?_ ?_
      · intros
        exact fun hne ↦ absurd rfl hne
      · rintro t ⟨refs', ht⟩
        exact ⟨refs', ht.toEnrolled, ht.seats.trans h.seats⟩
      · exact fun _ _ hend hne ↦ (hend hne).trans h.seats
    · rcases Server.run_onMessage_of_not_relays { S.server with m_qMessagesIn := rest } hrelays env
        depth r with hrun | hrun
      · rw [hrun]
        exact ⟨refs, h.toEnrolled.fields rfl rfl, h.seats⟩
      · rw [hrun]
        exact fun _ ↦ h.seats

/-- While every client that is found closed is without a player, the spawnpoints
left and the players make up what the server started with. -/
theorem seats_conserved (h : Reaches (step platform depth) LosesNobody {} S)
    (hfault : S.fault ≠ some .emptyTail) :
    S.server.spawnpoints.length + S.server.players.entries.length =
        Server.init.spawnpoints.length ∧
      (S.server.players.entries = [] →
        S.server.spawnpoints.length = Server.init.spawnpoints.length) := by
  have hsynced := h.strengthen (I := Synced) .start fun _ _ _ hI _ hstep ↦ hI.step hstep
  have hholds := Holds.of_reaches (rules_seats Server.init.spawnpoints.length)
    ⟨Server.enrolled_init, rfl⟩ hsynced
  have hseats : S.server.seats = Server.init.spawnpoints.length := by
    cases hdown : S.fault with
    | none =>
        obtain ⟨refs, hconserved⟩ := hholds.up hdown
        exact hconserved.seats
    | some fault => exact hholds.down fault hdown fun heq ↦ hfault (by rw [hdown, heq])
  refine ⟨hseats, fun hempty ↦ ?_⟩
  rw [← hseats, Server.seats, hempty]
  rfl

/-- The first of two clients leaves before it has answered. -/
def leavesUnanswered : List Event :=
  [.accept 5, .accept 6, .validationRead 0 .plain true [],
    .validationRead 1 .plain false (StandardLayout.toBytes (Endpoint.scramble 6))]

theorem seats_conserved_unanswered :
    ∃ S, run (guarded (step .x64 2) LosesNobody) {} leavesUnanswered = some S ∧
      S.fault ≠ some .emptyTail ∧
        S.server.spawnpoints.length + S.server.players.entries.length =
            Server.init.spawnpoints.length ∧
          (S.server.players.entries = [] →
            S.server.spawnpoints.length = Server.init.spawnpoints.length) := by
  obtain ⟨S, hrun, hfault⟩ := @exists_run_of_any _ _ (guarded (step .x64 2) LosesNobody) {}
    leavesUnanswered (fun S ↦ S.fault = none) (by decide +kernel)
  have hrunning : S.fault ≠ some .emptyTail := fun hempty ↦ by simp [hempty] at hfault
  exact ⟨S, hrun, hrunning, seats_conserved (reaches_of_guarded hrun) hrunning⟩

/-- The first client joins and leaves, and the second one joins. -/
def leavesAnswered : List Event :=
  [.accept 5, .validationRead 0 .plain false (StandardLayout.toBytes (Endpoint.scramble 5)),
    .read 0 true [], .accept 6,
    .validationRead 1 .plain false (StandardLayout.toBytes (Endpoint.scramble 6))]

theorem not_seats_conserved :
    ¬ ∀ S, Reaches (step .x64 2) (fun _ _ ↦ True) {} S → S.fault = none →
      S.server.spawnpoints.length + S.server.players.entries.length =
        Server.init.spawnpoints.length := by
  intro hconserved
  obtain ⟨S, hreaches, hlost⟩ := @exists_reaches_of_run _ _ (step .x64 2) {} leavesAnswered
    (fun S ↦ S.fault = none ∧ S.server.spawnpoints.length + S.server.players.entries.length = 11)
    (by decide +kernel)
  obtain ⟨hup, hcount⟩ := of_decide_eq_true hlost
  rw [hconserved S hreaches hup] at hcount
  exact absurd hcount (by decide)

/-! ## What a step does to the players and to the spawnpoints -/

/-- Nobody is added but by the lookup of an unknown head. -/
def HeadsOnly (known : AssocMap UInt32 PlayerData) (fault : Fault) (s : Server) : Prop :=
  fault ≠ .emptyTail → Server.NoneAddedEnd known fault s

theorem rules_noneAdded (known : AssocMap UInt32 PlayerData) :
    Rules platform depth
      (fun S e ↦ ∀ r ∈ S.joins e, S.server.spawnpoints ≠ [] → S.server.getID r ∈ known)
      (Server.NoneAdded known) (HeadsOnly known) where
  accept := by
    intro S refs now h _ hconnect
    refine ⟨_, h.toEnrolled.onAccept hconnect, fun id hid ↦ h.players id ?_⟩
    simpa [Server.onAccept, hconnect] using hid
  fields h _ _ := h.fields rfl rfl rfl
  validate := by
    intro S refs r env ec bytes c h _ _ hread hallowed
    apply Server.ends_onClientValidated
    · exact fun _ _ ↦ h.players
    · intro spawnpoint hspawn
      have hne : S.server.spawnpoints ≠ [] := by
        rintro hnil
        rw [show (S.setConnection r c).server.spawnpoints = [] from hnil] at hspawn
        cases hspawn
      have hnew : S.server.getID r ∈ known := hallowed r (by simp [joins, hread]) hne
      apply (Server.NoneAdded.robust (E := HeadsOnly known) fun _ hend _ ↦ hend).announce
      exact (h.insert hnew _).fields rfl rfl rfl
  update := by
    intro S refs r msg rest env h _ _ _
    have hpopped : Server.NoneAdded known { S.server with m_qMessagesIn := rest } refs :=
      h.fields rfl rfl rfl
    apply (Server.NoneAdded.robust (E := HeadsOnly known) fun _ hend _ ↦ hend).onMessage hpopped
    intros
    exact fun hne ↦ absurd rfl hne

/-- A join takes the last spawnpoint, and nothing else touches them. -/
theorem spawnpoints_of_step {e : Event} (hstep : S.step platform depth e = some S') :
    S'.server.spawnpoints =
      if (S.joins e).isSome then S.server.spawnpoints.dropLast else S.server.spawnpoints := by
  obtain ⟨hup, hmoves⟩ := moves_of_step hstep
  cases hmoves with
  | approved hconnect => simp [joins, approve, Server.onAccept, hconnect]
  | rejected hreading hread => simp [joins, hread, setConnection]
  | @validated r env ec bytes c hreading hread =>
      have hserved := Server.spawnpoints_onClientValidated platform env depth r
        (S.setConnection r c).server
      have hjoins : (S.joins (.validationRead r env ec bytes)).isSome = true := by
        simp [joins, hread]
      rw [if_pos hjoins]
      unfold validate
      simp only
      split
      · exact (congrArg Server.spawnpoints (server_serve _ _)).trans hserved
      · exact (congrArg Server.spawnpoints (server_serve _ _)).trans hserved
  | @update env r msg rest hqueue =>
      rw [server_serve]
      exact Server.spawnpoints_onMessage platform env depth r msg _
  | _ => rfl

end Process

/-! ## Who has been given which spawnpoint -/

/-- What `OnClientValidated` has given to a player. -/
structure Seat where
  spawnpoint : Position
  /-- How many spawnpoints there were, with this one. -/
  left : ℕ
  deriving DecidableEq

/-- The process with the last seat of each id. -/
structure Seating where
  process : Process := {}
  seat : UInt32 → Option Seat := fun _ ↦ none

namespace Seating

/-- The seats after an event: a join takes the spawnpoint at the back. -/
def take (G : Seating) (e : Process.Event) : UInt32 → Option Seat :=
  match G.process.joins e, G.process.server.spawnpoints.getLast? with
  | some r, some spawnpoint =>
      Function.update G.seat (G.process.server.getID r)
        (some ⟨spawnpoint, G.process.server.spawnpoints.length⟩)
  | _, _ => G.seat

def step (platform : Platform) (depth : ℕ) (G : Seating) (e : Process.Event) : Option Seating :=
  (G.process.step platform depth e).map fun process ↦ { process, seat := G.take e }

/-- No two players were given the same spawnpoint. -/
def Apart (G : Seating) : Prop :=
  ∀ id ∈ G.process.server.players, ∀ id' ∈ G.process.server.players,
    ∀ seat, G.seat id = some seat → ∀ seat', G.seat id' = some seat' →
      seat.spawnpoint = seat'.spawnpoint → id = id'

/-- One of the six value-initialized elements at the front of the vector is
taken only while no other player has one of them. -/
def OneAtFront (G : Seating) (e : Process.Event) : Prop :=
  ∀ r ∈ G.process.joins e, G.process.server.spawnpoints.length ≤ 6 →
    ∀ entry ∈ G.process.server.players.entries, entry.1 ≠ G.process.server.getID r →
      ∀ seat ∈ G.seat entry.1, 6 < seat.left

instance (G : Seating) (e : Process.Event) : Decidable (G.OneAtFront e) := by
  unfold OneAtFront
  infer_instance

/-- Every seat is an element of the vector that has been popped, another one for
each id; and of the first six elements the players have one at most. -/
structure Placed (G : Seating) : Prop where
  pool : G.process.server.spawnpoints <+: Server.generateSpawnpoints
  taken : ∀ id seat, G.seat id = some seat → G.process.server.spawnpoints.length < seat.left ∧
    Server.generateSpawnpoints[seat.left - 1]? = some seat.spawnpoint
  distinct : ∀ id id' seat seat', G.seat id = some seat → G.seat id' = some seat' →
    seat.left = seat'.left → id = id'
  front : G.process.fault ≠ some .emptyTail → ∀ id ∈ G.process.server.players,
    ∀ id' ∈ G.process.server.players, ∀ seat, G.seat id = some seat → ∀ seat',
      G.seat id' = some seat' → seat.left ≤ 6 → seat'.left ≤ 6 → id = id'

/-- The vector repeats itself only among its first six elements. -/
theorem generateSpawnpoints_getElem? : ∀ i < 12, ∀ j < 12,
    Server.generateSpawnpoints[i]? = Server.generateSpawnpoints[j]? → i = j ∨ i < 6 ∧ j < 6 := by
  decide

variable {platform : Platform} {depth : ℕ} {G G' : Seating} {e : Process.Event}

theorem Placed.start : Placed {} where
  pool := List.prefix_refl _
  taken _ _ h := by cases h
  distinct _ _ _ _ h := by cases h
  front _ _ h := absurd h (AList.notMem_empty _)

theorem Placed.apart (h : Placed G) (hfault : G.process.fault ≠ some .emptyTail) : G.Apart := by
  intro id hid id' hid' seat hseat seat' hseat' heq
  obtain ⟨hlt, hget⟩ := h.taken id seat hseat
  obtain ⟨hlt', hget'⟩ := h.taken id' seat' hseat'
  have hi : seat.left - 1 < 12 := (List.getElem?_eq_some_iff.mp hget).1
  have hj : seat'.left - 1 < 12 := (List.getElem?_eq_some_iff.mp hget').1
  have hsame : Server.generateSpawnpoints[seat.left - 1]? =
      Server.generateSpawnpoints[seat'.left - 1]? := by
    rw [hget, hget', heq]
  rcases generateSpawnpoints_getElem? _ hi _ hj hsame with hleft | ⟨hfront, hfront'⟩
  · exact h.distinct id id' seat seat' hseat hseat' (by omega)
  · exact h.front hfault id hid id' hid' seat hseat seat' hseat' (by omega) (by omega)

theorem Placed.same (h : Placed G) (hup : G.process.fault = none) {process : Process}
    (hspawnpoints : process.server.spawnpoints = G.process.server.spawnpoints)
    (hplayers : process.fault ≠ some .emptyTail →
      ∀ id ∈ process.server.players, id ∈ G.process.server.players) :
    Placed { process, seat := G.seat } := by
  refine ⟨?_, ?_, h.distinct, fun hfault id hid id' hid' ↦ ?_⟩
  · rw [hspawnpoints]
    exact h.pool
  · rw [hspawnpoints]
    exact h.taken
  · apply h.front _ id (hplayers hfault id hid) id' (hplayers hfault id' hid')
    rw [hup]
    exact fun heq ↦ by cases heq

theorem Placed.joined (h : Placed G) (hup : G.process.fault = none) {process : Process}
    {r : ConnRef} {spawnpoint : Position}
    (hspawn : G.process.server.spawnpoints.getLast? = some spawnpoint)
    (hspawnpoints : process.server.spawnpoints = G.process.server.spawnpoints.dropLast)
    (hplayers : process.fault ≠ some .emptyTail → ∀ id ∈ process.server.players,
      id = G.process.server.getID r ∨ id ∈ G.process.server.players)
    (hfront : G.process.server.spawnpoints.length ≤ 6 → ∀ id ∈ G.process.server.players,
      id ≠ G.process.server.getID r → ∀ seat, G.seat id = some seat → 6 < seat.left) :
    Placed
      { process
        seat := Function.update G.seat (G.process.server.getID r)
          (some ⟨spawnpoint, G.process.server.spawnpoints.length⟩) } := by
  have hlast : G.process.server.spawnpoints[G.process.server.spawnpoints.length - 1]? =
      some spawnpoint := by
    rw [← List.getLast?_eq_getElem?]
    exact hspawn
  obtain ⟨hpos, hvalue⟩ := List.getElem?_eq_some_iff.mp hlast
  have hpool := List.prefix_iff_getElem?.mp h.pool _ hpos
  rw [hvalue] at hpool
  have hlength : process.server.spawnpoints.length = G.process.server.spawnpoints.length - 1 := by
    rw [hspawnpoints, List.length_dropLast]
  refine ⟨?_, fun id seat hseat ↦ ?_, fun id id' seat seat' hseat hseat' hleft ↦ ?_,
    fun hfault id hid id' hid' seat hseat seat' hseat' hleft hleft' ↦ ?_⟩
  · rw [hspawnpoints]
    exact (List.dropLast_prefix _).trans h.pool
  · simp only [Function.update_apply] at hseat
    simp only [hlength]
    split at hseat
    · cases hseat
      exact ⟨hpos, hpool⟩
    · obtain ⟨hlt, hget⟩ := h.taken id seat hseat
      exact ⟨by omega, hget⟩
  · simp only [Function.update_apply] at hseat hseat'
    split at hseat
    · next hown =>
        split at hseat'
        · next hown' => rw [hown, hown']
        · cases hseat
          exact absurd hleft (h.taken id' seat' hseat').1.ne
    · split at hseat'
      · cases hseat'
        exact absurd hleft (h.taken id seat hseat).1.ne'
      · exact h.distinct id id' seat seat' hseat hseat' hleft
  · have hrunning : G.process.fault ≠ some .emptyTail := by
      rw [hup]
      exact fun heq ↦ by cases heq
    simp only [Function.update_apply] at hseat hseat'
    split at hseat
    · next hown =>
        split at hseat'
        · next hown' => rw [hown, hown']
        · next hne =>
            cases hseat
            have hold := (hplayers hfault id' hid').resolve_left hne
            exact absurd (hfront hleft id' hold hne seat' hseat') (Nat.not_lt.mpr hleft')
    · next hne =>
        have hold := (hplayers hfault id hid).resolve_left hne
        split at hseat'
        · cases hseat'
          exact absurd (hfront hleft' id hold hne seat hseat) (Nat.not_lt.mpr hleft)
        · next hne' =>
            exact h.front hrunning id hold id' ((hplayers hfault id' hid').resolve_left hne')
              seat hseat seat' hseat' hleft hleft'

theorem take_of_joins_none (h : G.process.joins e = none) : G.take e = G.seat := by
  simp [take, h]

theorem take_of_joins {r : ConnRef} (h : G.process.joins e = some r) :
    (G.process.server.spawnpoints = [] ∧ G.take e = G.seat) ∨
      ∃ spawnpoint, G.process.server.spawnpoints.getLast? = some spawnpoint ∧
        G.take e = Function.update G.seat (G.process.server.getID r)
          (some ⟨spawnpoint, G.process.server.spawnpoints.length⟩) := by
  cases hspawn : G.process.server.spawnpoints.getLast? with
  | none => exact .inl ⟨List.getLast?_eq_none_iff.mp hspawn, by simp [take, h, hspawn]⟩
  | some spawnpoint => exact .inr ⟨spawnpoint, rfl, by simp [take, h, hspawn]⟩

end Seating

namespace Process

variable {platform : Platform} {depth : ℕ} {S S' : Process}

/-- Whoever is a player after a step was one before it, or has just joined. -/
theorem players_of_step (hphased : Phased S)
    (hholds : Holds Server.Enrolled (fun _ _ ↦ True) S) {e : Event}
    (hstep : S.step platform depth e = some S') {known : AssocMap UInt32 PlayerData}
    (hknown : ∀ id ∈ S.server.players, id ∈ known)
    (hjoins : ∀ r ∈ S.joins e, S.server.spawnpoints ≠ [] → S.server.getID r ∈ known)
    (hfault : S'.fault ≠ some .emptyTail) : ∀ id ∈ S'.server.players, id ∈ known := by
  obtain ⟨hup, -⟩ := moves_of_step hstep
  obtain ⟨refs, henrolled⟩ := hholds.up hup
  have hstart : Holds (Server.NoneAdded known) (HeadsOnly known) S :=
    .of_up hup ⟨henrolled, hknown⟩
  have hend := hstart.step (rules_noneAdded known) hphased hjoins hstep
  cases hdown : S'.fault with
  | none =>
      obtain ⟨refs', hnone⟩ := hend.up hdown
      exact hnone.players
  | some fault => exact hend.down fault hdown fun heq ↦ hfault (by rw [hdown, heq])

end Process

namespace Seating

variable {platform : Platform} {depth : ℕ} {G G' : Seating} {e : Process.Event}

theorem Placed.step (h : Placed G) (hphased : Process.Phased G.process)
    (hholds : Process.Holds Server.Enrolled (fun _ _ ↦ True) G.process) (hallowed : G.OneAtFront e)
    (hstep : G.step platform depth e = some G') : Placed G' := by
  obtain ⟨process, hprocess, rfl⟩ := Option.map_eq_some_iff.mp hstep
  obtain ⟨hup, -⟩ := Process.moves_of_step hprocess
  have hspawnpoints := Process.spawnpoints_of_step hprocess
  have hplayers := fun known ↦ @Process.players_of_step _ _ _ _ hphased hholds _ hprocess known
  cases hjoins : G.process.joins e with
  | none =>
      rw [take_of_joins_none hjoins]
      apply h.same hup
      · rw [hspawnpoints, hjoins]
        rfl
      · apply hplayers
        · exact fun _ hid ↦ hid
        · intro r hr
          rw [hjoins] at hr
          cases hr
  | some r =>
      rw [hjoins] at hspawnpoints
      rcases take_of_joins hjoins with ⟨hempty, htake⟩ | ⟨spawnpoint, hspawn, htake⟩
      · rw [htake]
        apply h.same hup
        · rw [hspawnpoints, hempty]
          rfl
        · apply hplayers
          · exact fun _ hid ↦ hid
          · exact fun _ _ hne ↦ absurd hempty hne
      · rw [htake]
        apply h.joined hup hspawn hspawnpoints
        · intro hfault id hid
          apply (AList.mem_insert _).mp
          apply hplayers (G.process.server.players.insert (G.process.server.getID r) default)
          · exact fun id hid ↦ (AList.mem_insert _).mpr (.inr hid)
          · intro other hother _
            rw [hjoins] at hother
            cases hother
            exact (AList.mem_insert _).mpr (.inl rfl)
          · exact hfault
          · exact hid
        · intro hleft id hid hne seat hseat
          obtain ⟨player, hplayer⟩ := AssocMap.lookup_eq_some_of_mem hid
          exact hallowed r hjoins hleft ⟨id, player⟩
            ((AssocMap.mem_entries_iff _ _ _).mpr hplayer) hne seat hseat

theorem reaches_process (h : Reaches (step platform depth) OneAtFront {} G) :
    Reaches (Process.step platform depth) (fun _ _ ↦ True) {} G.process := by
  induction h with
  | refl => exact .refl
  | tail _ hlast ih =>
      obtain ⟨e, -, hstep⟩ := hlast
      obtain ⟨process, hprocess, rfl⟩ := Option.map_eq_some_iff.mp hstep
      exact ih.tail ⟨e, trivial, hprocess⟩

theorem placed_of_reaches (h : Reaches (step platform depth) OneAtFront {} G) : Placed G := by
  induction h with
  | refl => exact .start
  | tail hpast hlast ih =>
      obtain ⟨e, hallowed, hstep⟩ := hlast
      obtain ⟨hphased, hholds⟩ := Process.enrolled_of_reaches (reaches_process hpast)
      exact ih.step hphased hholds hallowed hstep

/-- The players have different spawnpoints, as long as one of them at most has
one of the value-initialized elements. -/
theorem spawnpoints_apart (h : Reaches (step platform depth) OneAtFront {} G)
    (hfault : G.process.fault ≠ some .emptyTail) : G.Apart :=
  (placed_of_reaches h).apart hfault

/-- So many clients connect and then answer. -/
def clients (count : ℕ) : List Process.Event :=
  List.replicate count (.accept 5) ++ (List.range count).map fun r ↦
    .validationRead r .plain false (StandardLayout.toBytes (Endpoint.scramble 5))

theorem spawnpoints_apart_seven :
    ∃ G, run (guarded (step .x64 2) OneAtFront) {} (clients 7) = some G ∧
      G.process.fault ≠ some .emptyTail ∧ G.process.server.players.entries.length = 7 ∧
        G.Apart := by
  obtain ⟨G, hrun, hend⟩ := @exists_run_of_any _ _ (guarded (step .x64 2) OneAtFront) {} (clients 7)
    (fun G ↦ G.process.fault = none ∧ G.process.server.players.entries.length = 7)
    (by decide +kernel)
  obtain ⟨hup, hcount⟩ := of_decide_eq_true hend
  have hfault : G.process.fault ≠ some .emptyTail := fun hempty ↦ by
    rw [hup] at hempty
    cases hempty
  exact ⟨G, hrun, hfault, hcount, spawnpoints_apart (reaches_of_guarded hrun) hfault⟩

/-- The seventh and the eighth client both start in the corner. -/
theorem not_spawnpoints_apart :
    ¬ ∀ G, Reaches (step .x64 2) (fun _ _ ↦ True) {} G → G.process.fault = none → G.Apart := by
  intro hapart
  obtain ⟨G, hreaches, hend⟩ := @exists_reaches_of_run _ _ (step .x64 2) {} (clients 8)
    (fun G ↦ G.process.fault = none ∧ (10006 : UInt32) ∈ G.process.server.players ∧
      (10007 : UInt32) ∈ G.process.server.players ∧ G.seat 10006 = some ⟨⟨0, 0⟩, 6⟩ ∧
        G.seat 10007 = some ⟨⟨0, 0⟩, 5⟩) (by decide +kernel)
  obtain ⟨hup, hseventh, heighth, hseat, hseat'⟩ := of_decide_eq_true hend
  have hsame := hapart G hreaches hup _ hseventh _ heighth _ hseat _ hseat' rfl
  exact absurd hsame (by decide)

end Seating

end SnekCpp
