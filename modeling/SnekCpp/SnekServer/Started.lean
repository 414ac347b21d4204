import SnekCpp.SnekServer.Runs

/-!
# A started game

The start of the game is looked at when a connection is accepted.  After it, a
player can still be added by an answer that was awaited before the start, and
by the collision check of an id that the map does not have.
-/

namespace SnekCpp

open Lib Networking

namespace Server

variable {platform : Platform} {s t : Server} {refs refs' : List ConnRef} {r : ConnRef} {msg : Msg}

theorem started_onClientValidated (platform : Platform) (env : Env) (depth : ℕ) (r : ConnRef)
    (s : Server) (h : s.gameStarted = true) :
    (after ((onClientValidated platform env depth r).run s)).gameStarted = true := by
  cases hspawn : s.spawnpoints.getLast? with
  | none =>
      rw [run_onClientValidated_none platform hspawn]
      exact h
  | some spawnpoint =>
      rw [run_onClientValidated platform hspawn]
      exact (only_announce platform env depth r (s.getID r)
        { direction := .up, tail := [spawnpoint], color := env.color }
        (s.welcomed platform env r spawnpoint)).started h

/-- The relay of a message of `r` leaves the player: it finds no client of that id closed. -/
def Stays (s : Server) (r : ConnRef) (id : UInt32) : Prop :=
  id ∈ s.players ∧ ∀ client ∈ s.m_deqConnections, ∀ ref ∈ client, ref ≠ r → s.getID ref = id →
    s.IsOpen ref

instance (s : Server) (r : ConnRef) (id : UInt32) : Decidable (s.Stays r id) :=
  inferInstanceAs (Decidable (_ ∧ _))

theorem Told.stays (h : Told s refs msg (some r) t refs') (hlisted : s.Listed refs) {id : UInt32}
    (hid : id ∈ t.players) : s.Stays r id := by
  obtain ⟨player, hplayer⟩ := AssocMap.lookup_eq_some_of_mem hid
  refine ⟨AssocMap.mem_of_lookup (h.lookup hplayer), fun client hclient ref href hne heq ↦ ?_⟩
  have hmem : ref ∈ refs := by
    rw [hlisted.deque, Option.mem_def.mp href] at hclient
    simpa using hclient
  cases h with
  | delivered hopen =>
      apply hopen
      exact mem_addressed.mpr ⟨hmem, fun hsome ↦ hne (Option.some.inj hsome)⟩
  | @departed before after gone hrefs hgone hclosed hopen =>
      have hstill : ref ≠ gone := by
        rintro rfl
        rw [Server.departed, AssocMap.lookup_erase_eq, if_pos heq.symm] at hplayer
        cases hplayer
      rw [hrefs] at hmem
      exact hopen ref (mem_others hmem hstill)

/-- The collision check looks up no id that the map does not have: the message
names a player, or its sender is unknown, or nobody has a cell to compare with. -/
def LooksUpPlayers (platform : Platform) (s : Server) (r : ConnRef) (msg : Msg) : Prop :=
  match popUpdate platform msg with
  | .error _ => True
  | .ok ((clientID, _, tail), _) =>
      clientID.toUInt32 ∈ s.players ∨ ¬ s.Stays r (s.getID r) ∨
        tail = [] ∧ ∀ entry ∈ s.players.entries, s.Stays r entry.1 → entry.1 ≠ s.getID r →
          entry.2.tail = []

instance (platform : Platform) (s : Server) (r : ConnRef) (msg : Msg) :
    Decidable (s.LooksUpPlayers platform r msg) := by
  unfold LooksUpPlayers
  split <;> infer_instance

/-- The players are among the known ones. -/
structure NoneAdded (known : AssocMap UInt32 PlayerData) (s : Server) (refs : List ConnRef) : Prop
    extends s.Enrolled refs where
  players : ∀ id ∈ s.players, id ∈ known

def NoneAddedEnd (known : AssocMap UInt32 PlayerData) (_ : Fault) (s : Server) : Prop :=
  ∀ id ∈ s.players, id ∈ known

namespace NoneAdded

variable {known : AssocMap UInt32 PlayerData} {E : Fault → Server → Prop}

theorem told {ignoreClient : Option ConnRef} (h : NoneAdded known s refs)
    (htold : Told s refs msg ignoreClient t refs') : NoneAdded known t refs' := by
  refine ⟨htold.enrolled h.toEnrolled, fun id hid ↦ ?_⟩
  obtain ⟨player, hplayer⟩ := AssocMap.lookup_eq_some_of_mem hid
  exact h.players id (AssocMap.mem_of_lookup (htold.lookup hplayer))

theorem fields (h : NoneAdded known s refs) (hdeque : t.m_deqConnections = s.m_deqConnections)
    (happroved : t.approved = s.approved) (hplayers : t.players = s.players) :
    NoneAdded known t refs := by
  refine ⟨h.toEnrolled.fields hdeque happroved, ?_⟩
  rw [hplayers]
  exact h.players

theorem insert (h : NoneAdded known s refs) {id : UInt32} (hid : id ∈ known) (player : PlayerData) :
    NoneAdded known { s with players := s.players.insert id player } refs := by
  refine ⟨h.toEnrolled.fields rfl rfl, fun other hother ↦ ?_⟩
  rcases (AList.mem_insert _).mp hother with rfl | hother
  · exact hid
  · exact h.players other hother

theorem robust (hE : ∀ {fault s}, fault ≠ .emptyTail → NoneAddedEnd known fault s → E fault s) :
    Robust (NoneAdded known) E where
  listed h := h.toListed
  fields h _ _ _ := h.fields rfl rfl rfl
  logged h _ _ := h.fields rfl rfl rfl
  told h htold := h.told htold
  insert h hid player := h.insert (h.players _ hid) player
  fault h _ hne := hE hne h.players

theorem ends_onMessage (h : NoneAdded known s refs) (env : Env) (depth : ℕ)
    (hlooks : msg.header.id = .updatePlayer → s.LooksUpPlayers platform r msg) :
    Ends (fun s' ↦ ∃ refs', NoneAdded known s' refs') (NoneAddedEnd known)
      ((Server.onMessage platform env depth r msg).run s) := by
  apply (robust fun _ hend ↦ hend).onMessage h
  intro hid t refs' player clientID direction tail rest htold hpop hlookup hmoved other p hother htail
    id hmem
  rcases (AssocMap.mem_subscript _ _).mp hmem with rfl | hmem
  · have hlooks := hlooks hid
    unfold LooksUpPlayers at hlooks
    rw [hpop] at hlooks
    rcases hlooks with hnamed | hunknown | ⟨hempty, hothers⟩
    · exact h.players _ hnamed
    · exact absurd (htold.stays h.toListed (AssocMap.mem_of_lookup hlookup)) hunknown
    · exfalso
      by_cases hown : other = s.getID r
      · rw [hown, moved, AList.lookup_insert] at hother
        cases hother
        exact htail hempty
      · rw [lookup_moved_ne hown] at hother
        apply htail
        exact hothers ⟨other, p⟩ ((AssocMap.mem_entries_iff _ _ _).mpr (htold.lookup hother))
          (htold.stays h.toListed (AssocMap.mem_of_lookup hother)) hown
  · exact hmoved.players id hmem

end NoneAdded

end Server

namespace Process

variable {platform : Platform} {depth : ℕ} {S S' : Process}

/-- After the start, no right answer makes a new player, and the collision check
looks up players only. -/
def AdmitsNobody (platform : Platform) (S : Process) : Event → Prop
  | .validationRead r _ ec bytes => S.server.gameStarted = true → ec = false →
      StandardLayout.fromBytes bytes = (S.connections r).m_handshakeCheck →
        S.server.getID r ∈ S.server.players
  | .update _ => S.server.gameStarted = true → ∀ received ∈ S.server.m_qMessagesIn.head?,
      received.2.header.id = .updatePlayer →
        S.server.LooksUpPlayers platform received.1 received.2
  | _ => True

instance (platform : Platform) (S : Process) (e : Event) : Decidable (AdmitsNobody platform S e) := by
  rcases e <;> unfold AdmitsNobody <;> infer_instance

theorem started_of_step {e : Event} (hstep : S.step platform depth e = some S')
    (h : S.server.gameStarted = true) : S'.server.gameStarted = true := by
  obtain ⟨hup, hmoves⟩ := moves_of_step hstep
  cases hmoves with
  | approved hconnect => simpa [approve, Server.onAccept, hconnect] using h
  | @validated r env ec bytes c =>
      have hserved := Server.started_onClientValidated platform env depth r
        (S.setConnection r c).server h
      unfold validate
      simp only
      split
      · exact (congrArg Server.gameStarted (server_serve _ _)).trans hserved
      · exact (congrArg Server.gameStarted (server_serve _ _)).trans hserved
  | @update env r msg rest hqueue =>
      rw [server_serve]
      exact (Server.only_onMessage platform env depth r msg _).started h
  | _ => exact h

theorem rules_started (known : AssocMap UInt32 PlayerData) :
    Rules platform depth (fun S e ↦ AdmitsNobody platform S e ∧ S.server.gameStarted = true)
      (Server.NoneAdded known) (Server.NoneAddedEnd known) where
  accept := by
    intro S refs now h _ hconnect
    refine ⟨_, h.toEnrolled.onAccept hconnect, fun id hid ↦ h.players id ?_⟩
    simpa [Server.onAccept, hconnect] using hid
  fields h _ _ := h.fields rfl rfl rfl
  validate := by
    intro S refs r env ec bytes c h hphased _ hread hallowed
    obtain ⟨hec, hanswer⟩ := Endpoint.answer_of_onValidationRead (hphased.owner r) hread
    apply Server.ends_onClientValidated
    · exact fun _ ↦ h.players
    · intro spawnpoint hspawn
      apply (Server.NoneAdded.robust fun _ hend ↦ hend).announce
      have hnew : S.server.getID r ∈ known := h.players _ (hallowed.1 hallowed.2 hec hanswer)
      exact (h.insert hnew _).fields rfl rfl rfl
  update := by
    intro S refs r msg rest env h _ hqueue hallowed
    have hpopped : Server.NoneAdded known { S.server with m_qMessagesIn := rest } refs :=
      h.fields rfl rfl rfl
    apply hpopped.ends_onMessage
    exact hallowed.1 hallowed.2 (r, msg) (by rw [hqueue]; rfl)

/-- Only joins and collision checks that are let through add players to a started game. -/
theorem players_of_started (h : Reaches (step platform depth) (AdmitsNobody platform) {} S)
    (hstarted : S.server.gameStarted = true)
    (hmore : Reaches (step platform depth) (AdmitsNobody platform) S S') :
    ∀ id ∈ S'.server.players, id ∈ S.server.players := by
  obtain ⟨hphased, hholds⟩ := enrolled_of_reaches h
  have hstart : Holds (Server.NoneAdded S.server.players)
      (Server.NoneAddedEnd S.server.players) S := by
    refine ⟨fun hup ↦ ?_, fun _ _ id hid ↦ hid⟩
    obtain ⟨refs, henrolled⟩ := hholds.up hup
    exact ⟨refs, henrolled, fun id hid ↦ hid⟩
  have hstrong := hmore.strengthen (I := fun S ↦ S.server.gameStarted = true) hstarted
    fun _ _ _ hI _ hstep ↦ started_of_step hstep hI
  have hend := hstart.reaches (rules_started S.server.players) hphased hstrong
  cases hfault : S'.fault with
  | some fault => exact hend.down fault hfault
  | none =>
      obtain ⟨refs, hnone⟩ := hend.up hfault
      exact hnone.players

/-- One of two clients answers and starts the game. -/
def startsEarly : List Event :=
  [.accept 5, .accept 6,
    .validationRead 0 .plain false (StandardLayout.toBytes (Endpoint.scramble 5)),
    .read 0 false (StandardLayout.toBytes (Message.new MessageTypes.startGame).header),
    .update .plain]

/-- The other answer, a wrong one. -/
def answersWrongly : List Event :=
  [.validationRead 1 .plain false (StandardLayout.toBytes (Endpoint.scramble 5))]

theorem players_of_started_wrongly :
    ∃ S S', run (guarded (step .x64 2) (AdmitsNobody .x64)) {} startsEarly = some S ∧
      S.server.gameStarted = true ∧
        run (guarded (step .x64 2) (AdmitsNobody .x64)) S answersWrongly = some S' ∧
          ∀ id ∈ S'.server.players, id ∈ S.server.players := by
  have hruns : (run (guarded (step .x64 2) (AdmitsNobody .x64)) {} startsEarly).any (fun S ↦
      S.server.gameStarted &&
        (run (guarded (step .x64 2) (AdmitsNobody .x64)) S answersWrongly).isSome) = true := by
    decide +kernel
  obtain ⟨S, hrun, hrest⟩ := (Option.any_eq_true _ _).mp hruns
  obtain ⟨hstarted, hsome⟩ := Bool.and_eq_true_iff.mp hrest
  obtain ⟨S', hrun'⟩ := Option.isSome_iff_exists.mp hsome
  exact ⟨S, S', hrun, hstarted, hrun',
    players_of_started (reaches_of_guarded hrun) hstarted (reaches_of_guarded hrun')⟩

/-- The other answer, the right one. -/
def answersLate : List Event :=
  [.validationRead 1 .plain false (StandardLayout.toBytes (Endpoint.scramble 6))]

theorem not_players_of_started :
    ¬ ∀ S S', Reaches (step .x64 2) (fun _ _ ↦ True) {} S → S.server.gameStarted = true →
      Reaches (step .x64 2) (fun _ _ ↦ True) S S' →
        ∀ id ∈ S'.server.players, id ∈ S.server.players := by
  intro hnone
  obtain ⟨S, hreaches, hrest⟩ := @exists_reaches_of_run _ _ (step .x64 2) {} startsEarly
    (fun S ↦ S.server.gameStarted && !decide ((10001 : UInt32) ∈ S.server.players) &&
      (run (step .x64 2) S answersLate).any fun S' ↦ (10001 : UInt32) ∈ S'.server.players)
    (by decide +kernel)
  simp only [Bool.and_eq_true, Bool.not_eq_true', decide_eq_false_iff_not] at hrest
  obtain ⟨⟨hstarted, hnot⟩, hlate⟩ := hrest
  obtain ⟨S', hmore, hadded⟩ := exists_reaches_of_run hlate
  exact hnot (hnone S S' hreaches hstarted hmore _ (of_decide_eq_true hadded))

end Process

end SnekCpp
