import SnekCpp.Game.Reporting
import SnekCpp.SnekServer.Outcomes

/-!
# Who is in the game

The connections in the deque are those that have been approved and not been
reported as disconnected, and the players in the map are those of them that
have been validated.  Both hold between any two handlers while the server runs.
-/

namespace SnekCpp

open Lib Networking

/-! ## A rule for properties of the server -/

/-- The server satisfies `I` with some list of connections, or has met a fault
and satisfies `E`. -/
structure Holds (I : Server → List ConnRef → Prop) (E : Fault → Server → Prop) (S : System) :
    Prop where
  up : S.fault = none → ∃ refs, I S.server refs
  down : ∀ fault, S.fault = some fault → E fault S.server

/-- What has to be shown of the events that concern single players, so that a
property holds in every run of allowed events. -/
structure ServerRules (platform : Platform) (depth : ℕ) (allowed : System → Event → Prop)
    (I : Server → List ConnRef → Prop) (E : Fault → Server → Prop) : Prop
    extends Server.Indifferent I E where
  accept : ∀ {S refs}, I S.server refs → allowed S .accept → ∃ refs', I S.server.onAccept refs'
  close : ∀ {s refs}, I s refs → ∀ r,
    I { s with isConnected := Function.update s.isConnected r false } refs
  closeDown : ∀ {s fault}, E fault s → ∀ r,
    E fault { s with isConnected := Function.update s.isConnected r false }
  validate : ∀ {S refs r env}, I S.server refs → S.server.isConnected r = true → ¬ S.server.Validated r → allowed S (.validate r env) →
      Server.Ends (fun s' ↦ ∃ refs', I s' refs') E
        ((Server.onClientValidated platform env depth r).run S.server)
  updatePlayer : ∀ {S refs r env tail direction clientID rest}, I S.server refs →
    S.server.m_qMessagesIn =
      (r, SnakeClient.updatePlayerMsg platform tail direction clientID) :: rest →
    S.server.Validated r → clientID.toUInt32 = idOf r →
    (SnakeClient.updatePlayerMsg platform tail direction clientID).body.length < 2 ^ 32 →
    allowed S (.update env) →
      Server.Ends (fun s' ↦ ∃ refs', I s' refs') E
        ((Server.onMessage platform env depth r
          (SnakeClient.updatePlayerMsg platform tail direction clientID)).run
            { S.server with m_qMessagesIn := rest })

namespace Holds

variable {I : Server → List ConnRef → Prop} {E : Fault → Server → Prop} {S S' : System}

theorem serve (hup : S.fault = none) {handler : ServerM Unit}
    (h : Server.Ends (fun s' ↦ ∃ refs', I s' refs') E (handler.run S.server)) :
    Holds I E (S.serve handler) := by
  unfold System.serve
  cases hrun : handler.run S.server with
  | ok u server =>
      rw [hrun] at h
      refine ⟨fun _ ↦ h, fun fault hfault ↦ ?_⟩
      rw [show S.fault = some fault from hfault] at hup
      cases hup
  | error fault server =>
      rw [hrun] at h
      refine ⟨fun hnone ↦ (by cases hnone), fun fault' hfault ↦ ?_⟩
      cases hfault
      exact h

theorem setPeer (h : Holds I E S) (r : ConnRef) (peer : Peer) : Holds I E (S.setPeer r peer) :=
  ⟨h.up, h.down⟩

theorem step {platform : Platform} {depth : ℕ} {allowed : System → Event → Prop}
    (rules : ServerRules platform depth allowed I E) (h : Holds I E S)
    (hreporting : Reporting platform S) {e : Event} (hallowed : allowed S e) (hstep : S.step platform depth e = some S') :
    Holds I E S' := by
  cases System.moves_of_step hstep with
  | accept hup =>
      obtain ⟨refs, hI⟩ := h.up hup
      refine ⟨fun _ ↦ rules.accept hI hallowed, fun fault hfault ↦ ?_⟩
      rw [hup] at hfault
      cases hfault
  | validate hup hopen hnew =>
      obtain ⟨refs, hI⟩ := h.up hup
      exact serve hup (rules.validate hI hopen hnew hallowed)
  | @close r _ =>
      refine ⟨fun hup ↦ ?_, fun fault hfault ↦ rules.closeDown (h.down fault hfault) r⟩
      obtain ⟨refs, hI⟩ := h.up hup
      exact ⟨refs, rules.close hI r⟩
  | read hup =>
      obtain ⟨refs, hI⟩ := h.up hup
      refine ⟨fun _ ↦ ⟨refs, rules.fields hI _ _ _⟩, fun fault hfault ↦ ?_⟩
      rw [show S.fault = some fault from hfault] at hup
      cases hup
  | @update env r msg rest hup hqueue =>
      obtain ⟨refs, hI⟩ := h.up hup
      have hpopped : I { S.server with m_qMessagesIn := rest } refs := rules.fields hI _ _ _
      obtain ⟨hvalidated, hheard⟩ := hreporting.heard r msg
        (by rw [hqueue]; exact List.mem_cons_self ..)
      apply serve
      · exact hup
      · rcases hheard with hsends | hstart
        · cases hsends with
          | updatePlayer hid hsize =>
              exact rules.updatePlayer hI hqueue hvalidated hid hsize hallowed
          | powerupEaten powerup => exact rules.powerupEaten hpopped env depth r powerup
          | startGame => exact rules.startGame hpopped env depth r rfl
        · -- The server does not look into the body of a start.
          exact rules.startGame hpopped env depth r hstart
  | hangUp r => exact h.setPeer _ _
  | receive => exact h.setPeer _ _
  | handle => exact h.setPeer _ _
  | enterGame => exact h.setPeer _ _
  | frame => exact h.setPeer _ _
  | updateServer => exact h.setPeer _ _
  | key => exact h.setPeer _ _

/-- A property of the server holds in every run of allowed events. -/
theorem of_reaches {platform : Platform} {depth : ℕ} {allowed : System → Event → Prop}
    (rules : ServerRules platform depth allowed I E)
    (hreporting : ∀ {T}, Reaches (System.step platform depth) allowed {} T → Reporting platform T)
    (hstart : I .init []) (h : Reaches (System.step platform depth) allowed {} S) :
    Holds I E S := by
  induction h with
  | refl => exact ⟨fun _ ↦ ⟨[], hstart⟩, fun fault hfault ↦ by cases hfault⟩
  | tail hpast hstep ih =>
      obtain ⟨e, hallowed, hnext⟩ := hstep
      exact ih.step rules (hreporting hpast) hallowed hnext

end Holds

/-- What an `UpdatePlayer` tells the server. -/
structure Report where
  client : ConnRef
  id : UInt32
  tail : List Position
  deriving DecidableEq

/-- The next message to be handled, if it is an `UpdatePlayer`. -/
def System.nextReport (platform : Platform) (S : System) : Option Report :=
  match S.server.m_qMessagesIn with
  | [] => none
  | (client, msg) :: _ =>
      match Packet.decode platform msg with
      | .ok (.updatePlayer id _ tail) => some { client, id, tail }
      | _ => none

theorem System.nextReport_eq {platform : Platform} {S : System} {r : ConnRef}
    {tail : List Position} {direction : Direction} {clientID : Int32}
    {rest : List (ConnRef × Msg)} (hqueue : S.server.m_qMessagesIn =
      (r, SnakeClient.updatePlayerMsg platform tail direction clientID) :: rest)
    (hsize : (SnakeClient.updatePlayerMsg platform tail direction clientID).body.length < 2 ^ 32) :
    S.nextReport platform = some { client := r, id := clientID.toUInt32, tail } := by
  simp only [nextReport, hqueue, (Carries.updatePlayerMsg hsize).decode]

/-! ## The connections -/

namespace Server

structure Roll (s : Server) (refs : List ConnRef) : Prop where
  listed : s.Listed refs
  mem_iff : ∀ r, r ∈ refs ↔ r < s.approved ∧ ¬ s.Left r
  left_lt : ∀ r, s.Left r → r < s.approved
  closed : ∀ r, s.Left r → s.isConnected r = false
  approvals : s.Approvals

theorem left_logged_sends {s : Server} {msg : Msg} {refs : List ConnRef} (r : ConnRef) :
    (s.logged (sends msg refs)).Left r ↔ s.Left r := by
  simp [Left, logged, disconnected_notMem_sends]

theorem left_departed {s : Server} {msg : Msg} {ignoreClient : Option ConnRef}
    {before after : List ConnRef} {gone : ConnRef} (r : ConnRef) :
    (s.departed msg ignoreClient before gone after).Left r ↔ s.Left r ∨ r = gone := by
  simp [Left, departed, departure, disconnected_notMem_sends]

namespace Roll

variable {s s' : Server} {refs refs' : List ConnRef} {msg : Msg} {ignoreClient : Option ConnRef}

theorem mem_of_isConnected (h : s.Roll refs) {r : ConnRef} (hopen : s.isConnected r = true) :
    r ∈ refs := by
  refine (h.mem_iff r).mpr ⟨h.approvals.connected r hopen, fun hleft ↦ ?_⟩
  rw [h.closed r hleft] at hopen
  cases hopen

theorem told (h : s.Roll refs) (htold : Told s refs msg ignoreClient s' refs') :
    s'.Roll refs' := by
  have hlisted := htold.listed h.listed
  have happrovals := h.approvals.extends_ htold.extends_
  cases htold with
  | delivered hopen =>
      refine ⟨hlisted, fun r ↦ ?_, fun r hr ↦ ?_, fun r hr ↦ ?_, happrovals⟩
      · rw [left_logged_sends]
        exact h.mem_iff r
      · exact h.left_lt r ((left_logged_sends r).mp hr)
      · exact h.closed r ((left_logged_sends r).mp hr)
  | @departed before after gone hrefs hgone hclosed hopen =>
      subst hrefs
      have hnodup := List.nodup_cons.mp ((List.perm_middle.nodup_iff).mp h.listed.nodup)
      refine ⟨hlisted, fun r ↦ ?_, fun r hr ↦ ?_, fun r hr ↦ ?_, happrovals⟩
      · have hmem := h.mem_iff r
        rw [left_departed]
        change r ∈ before ++ after ↔ r < s.approved ∧ _
        constructor
        · intro hr
          have hne : r ≠ gone := fun heq ↦ hnodup.1 (heq ▸ hr)
          have hold := hmem.mp (mem_of_mem_others hr)
          exact ⟨hold.1, fun hor ↦ hor.elim hold.2 hne⟩
        · rintro ⟨hlt, hnot⟩
          have hold := hmem.mpr ⟨hlt, fun hleft ↦ hnot (.inl hleft)⟩
          exact mem_others hold fun heq ↦ hnot (.inr heq)
      · rcases (left_departed r).mp hr with hr | rfl
        · exact h.left_lt r hr
        · exact ((h.mem_iff _).mp (by simp)).1
      · rcases (left_departed r).mp hr with hr | rfl
        · exact h.closed r hr
        · change s.isConnected r = false
          simpa [IsOpen] using hclosed

theorem congr (h : s.Roll refs) (hdeque : s'.m_deqConnections = s.m_deqConnections)
    (happrovals : s'.Approvals) (happroved : s'.approved = s.approved)
    (hisConnected : s'.isConnected = s.isConnected) (hleft : ∀ r, s'.Left r ↔ s.Left r) :
    s'.Roll refs where
  listed := ⟨by rw [hdeque, h.listed.deque], h.listed.nodup⟩
  mem_iff r := by rw [happroved, hleft, h.mem_iff]
  left_lt r hr := by
    rw [happroved]
    exact h.left_lt r ((hleft r).mp hr)
  closed r hr := by rw [hisConnected, h.closed r ((hleft r).mp hr)]
  approvals := happrovals

theorem onAccept (h : s.Roll refs) (haccept : s.onClientConnect = true) :
    s.onAccept.Roll (refs ++ [s.approved]) := by
  have happrovals := h.approvals.onAccept
  have hnew : s.approved ∉ refs := fun hmem ↦
    absurd ((h.mem_iff _).mp hmem).1 (Nat.lt_irrefl _)
  have hnotLeft : ¬ s.Left s.approved := fun hleft ↦ Nat.lt_irrefl _ (h.left_lt _ hleft)
  unfold Server.onAccept at happrovals ⊢
  rw [if_pos haccept] at happrovals ⊢
  refine ⟨⟨?_, ?_⟩, fun r ↦ ?_, fun r hr ↦ ?_, fun r hr ↦ ?_, happrovals⟩
  · simp [h.listed.deque]
  · refine List.nodup_append.mpr ⟨h.listed.nodup, by simp, fun a ha b hb heq ↦ ?_⟩
    rw [List.mem_singleton] at hb
    exact hnew (hb ▸ heq ▸ ha)
  · rw [List.mem_append, List.mem_singleton, h.mem_iff]
    change _ ↔ r < s.approved + 1 ∧ ¬ s.Left r
    constructor
    · rintro (⟨hlt, hleft⟩ | rfl)
      · exact ⟨Nat.lt_succ_of_lt hlt, hleft⟩
      · exact ⟨Nat.lt_succ_self _, hnotLeft⟩
    · rintro ⟨hlt, hleft⟩
      by_cases heq : r = s.approved
      · exact .inr heq
      · exact .inl ⟨Nat.lt_of_le_of_ne (Nat.lt_succ_iff.mp hlt) heq, hleft⟩
  · exact Nat.lt_succ_of_lt (h.left_lt r hr)
  · have hne : r ≠ s.approved := fun heq ↦ hnotLeft (heq ▸ hr)
    simpa [hne] using h.closed r hr

/-- Either the connection is approved, or nothing changes. -/
theorem exists_onAccept (h : s.Roll refs) : ∃ refs', s.onAccept.Roll refs' := by
  cases haccept : s.onClientConnect with
  | true => exact ⟨_, h.onAccept haccept⟩
  | false =>
      refine ⟨refs, ?_⟩
      rwa [Server.onAccept, haccept, if_neg (by simp)]

theorem fields (h : s.Roll refs) (powerups : List PowerupData) (gameStarted : Bool)
    (m_qMessagesIn : List (ConnRef × Msg)) :
    { s with powerups, gameStarted, m_qMessagesIn }.Roll refs :=
  h.congr rfl (h.approvals.congr rfl rfl rfl rfl h.approvals.validated) rfl rfl fun _ ↦ .rfl

theorem close (h : s.Roll refs) (r : ConnRef) :
    { s with isConnected := Function.update s.isConnected r false }.Roll refs where
  listed := ⟨h.listed.deque, h.listed.nodup⟩
  mem_iff := h.mem_iff
  left_lt := h.left_lt
  closed r' hr' := by
    by_cases heq : r' = r
    · simp [heq]
    · simpa [heq] using h.closed r' hr'
  approvals := h.approvals.close r

theorem moved (h : s.Roll refs) (id : UInt32) (player : PlayerData) (tail : List Position)
    (direction : Direction) : (s.moved id player tail direction).Roll refs :=
  h.congr rfl (h.approvals.congr rfl rfl rfl rfl h.approvals.validated) rfl rfl fun _ ↦ .rfl

theorem collided (h : s.Roll refs) (id owner : UInt32) :
    (s.logged [.collided id owner]).Roll refs :=
  h.congr rfl (h.approvals.collided id owner) rfl rfl fun r ↦ by simp [Left, logged]

theorem welcomed (h : s.Roll refs) {platform : Platform} {env : Env} {r : ConnRef}
    {spawnpoint : Position} (hr : r < s.approved) :
    (s.welcomed platform env r spawnpoint).Roll refs := by
  refine h.congr rfl (h.approvals.welcomed hr) rfl rfl fun r' ↦ ?_
  simp [Left, Server.welcomed]

theorem init : Server.init.Roll [] where
  listed := ⟨rfl, List.nodup_nil⟩
  mem_iff r := by simp [Server.init]
  left_lt r h := by cases h
  closed r h := by cases h
  approvals := .init

/-- The connections are kept in order whatever is said. -/
theorem indifferent {E : Fault → Server → Prop} (hoverflow : ∀ s, E .stackOverflow s)
    (hnoCell : ∀ s fault, fault = .gridIndex ∨ fault = .emptyFreeGrid → E fault s) :
    Indifferent Roll E where
  listed h := h.listed
  fields h := h.fields
  told h _ htold := h.told htold
  overflow _ _ _ := hoverflow _
  noCell _ hfault := hnoCell _ _ hfault

section Ends

variable {platform : Platform} {I : Server → List ConnRef → Prop} {Q : Server → Prop}
  {E : Fault → Server → Prop} {r : ConnRef} {env : Env} {depth : ℕ}

/-- The news of a new player, from the state in which it has got its snapshot. -/
theorem ends_onClientValidated (h : s.Roll refs) (rules : Indifferent I E)
    (happroved : r < s.approved) (hempty : E .emptySpawnpoints (s.logged [.validated r]))
    (htold : ∀ spawnpoint, s.spawnpoints.getLast? = some spawnpoint → ∀ s' refs',
      Told (s.welcomed platform env r spawnpoint) refs
        (newPlayerMsg platform { direction := .up, tail := [spawnpoint], color := env.color }
          (idOf r)) (some r) s' refs' → I s' refs')
    (hoverflow : ∀ spawnpoint, s.spawnpoints.getLast? = some spawnpoint → ∀ s',
      Overflows (s.welcomed platform env r spawnpoint) refs
        (newPlayerMsg platform { direction := .up, tail := [spawnpoint], color := env.color }
          (idOf r)) s' → E .stackOverflow s') :
    Ends (fun s' ↦ ∃ refs', I s' refs') E
      ((onClientValidated platform env depth r).run s) := by
  apply Server.ends_onClientValidated fun _ ↦ hempty
  intro spawnpoint hspawn
  have hwelcomed : (s.welcomed platform env r spawnpoint).Roll refs := h.welcomed happroved
  rw [h.approvals.getID r happroved]
  apply rules.announce
  apply ends_messageAllClients hwelcomed.listed
  · exact fun s' refs' ht ↦ ⟨refs', htold spawnpoint hspawn s' refs' ht⟩
  · exact hoverflow spawnpoint hspawn

/-- A report of a client: its relay fails, the client is unknown by then, or it
moves and its head is looked for among the cells. -/
theorem ends_updatePlayer (h : s.Roll refs) (happroved : r < s.approved) {tail : List Position}
    {direction : Direction} {clientID : Int32} (hid : clientID.toUInt32 = idOf r)
    (hsize : (SnakeClient.updatePlayerMsg platform tail direction clientID).body.length < 2 ^ 32)
    (hoverflow : ∀ s', Overflows s refs
      (SnakeClient.updatePlayerMsg platform tail direction clientID) s' → E .stackOverflow s')
    (hmissing : ∀ s' refs',
      Told s refs (SnakeClient.updatePlayerMsg platform tail direction clientID) (some r) s' refs' →
        s'.players.lookup (idOf r) = none → E .outOfRange s')
    (hmissed : ∀ s' refs' player,
      Told s refs (SnakeClient.updatePlayerMsg platform tail direction clientID) (some r) s' refs' →
        s'.players.lookup (idOf r) = some player → Q (s'.moved (idOf r) player tail direction))
    (hempty : ∀ s' refs' player other p,
      Told s refs (SnakeClient.updatePlayerMsg platform tail direction clientID) (some r) s' refs' →
        s'.players.lookup (idOf r) = some player → tail = [] → other ≠ idOf r →
          s'.players.lookup other = some p → p.tail ≠ [] →
            E .emptyTail (s'.moved (idOf r) player tail direction))
    (hkilled : ∀ s' refs' player owner p head rest,
      Told s refs (SnakeClient.updatePlayerMsg platform tail direction clientID) (some r) s' refs' →
        s'.players.lookup (idOf r) = some player → tail = head :: rest →
          (s'.moved (idOf r) player tail direction).players.lookup owner = some p →
            head ∈ collisionCells (idOf r) (owner, p) →
              Ends Q E ((messageAllClients depth (killPlayerMsg clientID) none).run
                ((s'.moved (idOf r) player tail direction).logged [.collided (idOf r) owner]))) :
    Ends Q E ((onMessage platform env depth r
      (SnakeClient.updatePlayerMsg platform tail direction clientID)).run s) := by
  have hgetID : ∀ s' refs', Told s refs
      (SnakeClient.updatePlayerMsg platform tail direction clientID) (some r) s' refs' →
        s'.getID r = idOf r := by
    intro s' refs' htold
    rw [htold.extends_.getID]
    exact h.approvals.getID r happroved
  have htail : tail.length < 2 ^ 31 := by
    rw [Packet.length_body_updatePlayerMsg] at hsize
    omega
  apply Server.ends_updatePlayer h.listed htail hoverflow
  · intro s' refs' htold hlookup
    rw [hgetID s' refs' htold] at hlookup
    exact hmissing s' refs' htold hlookup
  · intro s' refs' player htold hlookup
    rw [hgetID s' refs' htold] at hlookup ⊢
    apply ends_playerCollision
    · exact hmissed s' refs' player htold hlookup
    · intro other p hown hother hne htail
      rw [hid, cells_moved] at hown
      rw [hid] at hne ⊢
      have hplayer : (s'.moved (idOf r) player tail direction).players.lookup (idOf r) =
          some { player with tail, direction } := AList.lookup_insert _
      rw [AssocMap.subscript_of_lookup hplayer]
      rw [lookup_moved_ne hne] at hother
      exact hempty s' refs' player other p htold hlookup hown hne hother htail
    · intro owner p head rest hown howner hcell
      rw [hid, cells_moved] at hown
      rw [hid] at hcell ⊢
      exact hkilled s' refs' player owner p head rest htold hlookup hown howner hcell

end Ends

end Roll

/-! ## The players -/

theorem idOf_inj {r r' : ConnRef} (hr : r < 2 ^ 32) (hr' : r' < 2 ^ 32) (h : idOf r = idOf r') :
    r = r' := by
  have hnat := congrArg UInt32.toNat h
  simp only [idOf, UInt32.toNat_ofNat'] at hnat
  have hsmall : ∀ m n : ℕ, m < 2 ^ 32 → n < 2 ^ 32 →
      (10000 + m) % 2 ^ 32 = (10000 + n) % 2 ^ 32 → m = n := by
    intro m n hm hn hmod
    omega
  exact hsmall r r' hr hr' hnat

structure Membership (s : Server) (refs : List ConnRef) : Prop extends Roll s refs where
  /-- No id has been given out twice. -/
  few : s.approved ≤ 2 ^ 32
  players : ∀ id, id ∈ s.players ↔ ∃ r ∈ refs, s.Validated r ∧ idOf r = id

namespace Membership

variable {s s' : Server} {refs refs' : List ConnRef} {msg : Msg} {ignoreClient : Option ConnRef}

theorem inj (h : s.Membership refs) {r r' : ConnRef} (hr : r < s.approved) (hr' : r' < s.approved)
    (hid : idOf r = idOf r') : r = r' :=
  idOf_inj (Nat.lt_of_lt_of_le hr h.few) (Nat.lt_of_lt_of_le hr' h.few) hid

theorem lt_of_mem (h : s.Membership refs) {r : ConnRef} (hr : r ∈ refs) : r < s.approved :=
  ((h.mem_iff r).mp hr).1

theorem getID_of_mem (h : s.Membership refs) {r : ConnRef} (hr : r ∈ refs) :
    s.getID r = idOf r :=
  h.approvals.getID r (h.lt_of_mem hr)

/-- A validated client is a player until it is reported as disconnected. -/
theorem mem_players_iff (h : s.Membership refs) {r : ConnRef} (hvalidated : s.Validated r) :
    idOf r ∈ s.players ↔ r ∈ refs := by
  rw [h.players]
  constructor
  · rintro ⟨r', hmem, -, hid⟩
    have heq := h.inj (h.lt_of_mem hmem) (h.approvals.validated r hvalidated) hid
    exact heq ▸ hmem
  · exact fun hmem ↦ ⟨r, hmem, hvalidated, rfl⟩

theorem told (h : s.Membership refs) (htold : Told s refs msg ignoreClient s' refs') :
    s'.Membership refs' := by
  have hroll := h.toRoll.told htold
  have hvalidated := fun r ↦ htold.extends_.validated_iff r
  have hfew : s'.approved ≤ 2 ^ 32 := by
    rw [htold.extends_.approved]
    exact h.few
  refine ⟨hroll, hfew, fun id ↦ ?_⟩
  cases htold with
  | delivered hopen =>
      simp only [hvalidated]
      exact h.players id
  | @departed before after gone hrefs hgone hclosed hopen =>
      subst hrefs
      have hgoneMem : gone ∈ before ++ gone :: after := by simp
      have hnodup := List.nodup_cons.mp ((List.perm_middle.nodup_iff).mp h.listed.nodup)
      simp only [hvalidated]
      change id ∈ s.players.erase (s.getID gone) ↔ _
      rw [AList.mem_erase, h.players, h.getID_of_mem hgoneMem]
      constructor
      · rintro ⟨hne, r, hr, hr', rfl⟩
        exact ⟨r, mem_others hr fun heq ↦ hne (congrArg _ heq), hr', rfl⟩
      · rintro ⟨r, hr, hr', rfl⟩
        have hmem : r ∈ before ++ gone :: after := mem_of_mem_others hr
        refine ⟨fun hid ↦ hnodup.1 ?_, r, hmem, hr', rfl⟩
        exact h.inj (h.lt_of_mem hmem) (h.lt_of_mem hgoneMem) hid ▸ hr

theorem fields (h : s.Membership refs) (powerups : List PowerupData) (gameStarted : Bool)
    (m_qMessagesIn : List (ConnRef × Msg)) :
    { s with powerups, gameStarted, m_qMessagesIn }.Membership refs :=
  ⟨h.toRoll.fields _ _ _, h.few, h.players⟩

theorem close (h : s.Membership refs) (r : ConnRef) :
    { s with isConnected := Function.update s.isConnected r false }.Membership refs :=
  ⟨h.toRoll.close r, h.few, h.players⟩

/-- A move of a player that the server knows. -/
theorem moved (h : s.Membership refs) {id : UInt32} {player : PlayerData}
    (hlookup : s.players.lookup id = some player) (tail : List Position) (direction : Direction) :
    (s.moved id player tail direction).Membership refs := by
  refine ⟨h.toRoll.moved _ _ _ _, h.few, fun id' ↦ ?_⟩
  change id' ∈ s.players.insert id _ ↔ _
  rw [AList.mem_insert, or_iff_right_of_imp]
  · exact h.players id'
  · rintro rfl
    exact AssocMap.mem_of_lookup hlookup

theorem collided (h : s.Membership refs) (id owner : UInt32) :
    (s.logged [.collided id owner]).Membership refs := by
  refine ⟨h.toRoll.collided _ _, h.few, fun id' ↦ ?_⟩
  simpa [Validated, logged] using h.players id'

theorem validated_welcomed {platform : Platform} {env : Env} {r r' : ConnRef}
    {spawnpoint : Position} :
    (s.welcomed platform env r spawnpoint).Validated r' ↔ s.Validated r' ∨ r' = r := by
  simp [Validated, Server.welcomed]

theorem welcomed (h : s.Membership refs) {platform : Platform} {env : Env} {r : ConnRef}
    {spawnpoint : Position} (hmem : r ∈ refs) :
    (s.welcomed platform env r spawnpoint).Membership refs := by
  refine ⟨h.toRoll.welcomed (h.lt_of_mem hmem), h.few, fun id ↦ ?_⟩
  change id ∈ s.players.insert (s.getID r) _ ↔ _
  rw [AList.mem_insert, h.players, h.getID_of_mem hmem]
  simp only [validated_welcomed]
  constructor
  · rintro (rfl | ⟨r', hr', hvalidated, rfl⟩)
    · exact ⟨r, hmem, .inr rfl, rfl⟩
    · exact ⟨r', hr', .inl hvalidated, rfl⟩
  · rintro ⟨r', hr', hvalidated | rfl, rfl⟩
    · exact .inr ⟨r', hr', hvalidated, rfl⟩
    · exact .inl rfl

theorem onAccept (h : s.Membership refs) (haccept : s.onClientConnect = true)
    (hfew : s.approved < 2 ^ 32) : s.onAccept.Membership (refs ++ [s.approved]) := by
  have hroll := h.toRoll.onAccept haccept
  unfold Server.onAccept at hroll ⊢
  rw [if_pos haccept] at hroll ⊢
  refine ⟨hroll, hfew, fun id ↦ ?_⟩
  have hnew : ¬ s.Validated s.approved := fun hval ↦
    Nat.lt_irrefl _ (h.approvals.validated _ hval)
  change id ∈ s.players ↔ ∃ r ∈ refs ++ [s.approved], s.Validated r ∧ idOf r = id
  rw [h.players]
  constructor
  · rintro ⟨r, hr, hrest⟩
    exact ⟨r, List.mem_append_left _ hr, hrest⟩
  · rintro ⟨r, hr, hval, hid⟩
    rcases List.mem_append.mp hr with hr | hr
    · exact ⟨r, hr, hval, hid⟩
    · rw [List.mem_singleton.mp hr] at hval
      exact absurd hval hnew

theorem exists_onAccept (h : s.Membership refs) (hfew : s.approved < 2 ^ 32) :
    ∃ refs', s.onAccept.Membership refs' := by
  cases haccept : s.onClientConnect with
  | true => exact ⟨_, h.onAccept haccept hfew⟩
  | false =>
      refine ⟨refs, ?_⟩
      rwa [Server.onAccept, haccept, if_neg (by simp)]

theorem init : Server.init.Membership [] where
  toRoll := .init
  few := by decide
  players id := by
    constructor
    · intro h
      cases h
    · rintro ⟨r, hr, -⟩
      cases hr

end Membership

end Server

end SnekCpp
