import SnekCpp.SnekServer.Malformed
import SnekCpp.SnekServer.Validation

/-!
# Properties of whole runs of the server process

A property of the server and of its list of connections holds in every run if
the three kinds of handlers keep it.  The messages are arbitrary, so every pop
may fail.
-/

namespace SnekCpp

open Lib Networking

namespace Server

variable {platform : Platform} {s t : Server} {refs refs' : List ConnRef} {r : ConnRef} {env : Env}
  {depth : ℕ} {msg : Msg} {Q : Server → Prop} {E : Fault → Server → Prop}

/-- The outcomes of any `UpdatePlayer`: `J` holds from the relay up to the
collision check. -/
theorem ends_onMessage_updatePlayer {J : Server → List ConnRef → Prop}
    (hid : msg.header.id = .updatePlayer)
    (hrelay : Ends (fun s' ↦ ∃ refs', Told s refs msg (some r) s' refs') E
      ((messageAllClients depth msg (some r)).run s))
    (htold : ∀ s' refs', Told s refs msg (some r) s' refs' → J s' refs')
    (hstored : ∀ t refs' player tail direction, J t refs' →
      t.players.lookup (s.getID r) = some player →
        J (t.moved (s.getID r) player tail direction) refs')
    (hmissing : ∀ t refs', J t refs' → E .outOfRange t)
    (hshort : ∀ t refs', J t refs' → E .shortBody t)
    (hmoved : ∀ t refs' player clientID direction tail rest, Told s refs msg (some r) t refs' →
      popUpdate platform msg = .ok ((clientID, direction, tail), rest) →
        t.players.lookup (s.getID r) = some player →
          Ends Q E ((playerCollision env depth clientID).run
            (t.moved (s.getID r) player tail direction))) :
    Ends Q E ((onMessage platform env depth r msg).run s) := by
  cases hpop : popUpdate platform msg with
  | error fault =>
      refine (ends_onMessage_of_popUpdate_error (J := fun t ↦ ∃ refs', J t refs') hid hpop
        hrelay (fun t refs' h ↦ ⟨refs', htold t refs' h⟩) ?_ ?_ ?_).mono (fun _ h ↦ h.elim)
        fun _ _ h ↦ h
      · rintro t player tail direction ⟨refs', hJ⟩ hlookup
        exact ⟨refs', hstored t refs' player tail direction hJ hlookup⟩
      · rintro t ⟨refs', hJ⟩
        exact hmissing t refs' hJ
      · rintro t ⟨refs', hJ⟩
        exact hshort t refs' hJ
  | ok result =>
      obtain ⟨⟨clientID, direction, tail⟩, rest⟩ := result
      refine ends_onMessage_of_popUpdate hid hpop hrelay ?_ ?_
      · intro t refs' h _
        exact hmissing t refs' (htold t refs' h)
      · intro t refs' player h hlookup
        rw [h.extends_.getID] at hlookup ⊢
        exact hmoved t refs' player clientID direction tail rest h hpop hlookup

/-- The messages that are not an `UpdatePlayer`. -/
theorem Indifferent.onMessage {I : Server → List ConnRef → Prop} (h : Indifferent I E)
    (hI : I s refs) (env : Env) (depth : ℕ) (r : ConnRef) (hshort : E .shortBody s)
    (hupdate : msg.header.id = .updatePlayer →
      Ends (fun s' ↦ ∃ refs', I s' refs') E ((Server.onMessage platform env depth r msg).run s)) :
    Ends (fun s' ↦ ∃ refs', I s' refs') E ((Server.onMessage platform env depth r msg).run s) := by
  cases hid : msg.header.id with
  | updatePlayer => exact hupdate hid
  | powerupEaten =>
      cases hread : readField PowerupData msg with
      | ok result => exact h.ofPowerup hI env depth r hid hread
      | error fault =>
          rw [Server.onMessage, hid]
          simp only [onPowerupEaten, hread]
          rw [eq_shortBody_of_readField hread]
          exact hshort
  | startGame => exact h.startGame hI env depth r hid
  | _ =>
      rw [run_onMessage_unhandled s (by simp [hid]) (by simp [hid]) (by simp [hid])]
      exact ⟨refs, hI⟩

/-! ## Whom a broadcast reaches -/

/-- Effects of a broadcast from `s`: open connections get messages, and none is validated. -/
def Heard (s : Server) (refs : List ConnRef) : Effect → Prop
  | .sent ref _ => ref ∈ refs ∧ s.IsOpen ref
  | .validated _ => False
  | _ => True

theorem Cast.heard {ignoreClient : Option ConnRef} {e : Effect}
    (h : s.Cast refs msg ignoreClient e) : s.Heard refs e := by
  rcases h with ⟨ref, href, hopen, rfl⟩ | hremoval
  · exact ⟨(mem_addressed.mp href).1, hopen⟩
  · cases e with
    | sent ref m => exact ⟨hremoval.1, hremoval.2.1⟩
    | disconnected client => trivial
    | validated client => exact hremoval.elim
    | collided id owner => trivial

theorem Told.heard {ignoreClient : Option ConnRef} (h : Told s refs msg ignoreClient t refs') :
    ∃ effects, t.log = s.log ++ effects ∧ ∀ e ∈ effects, s.Heard refs e := by
  obtain ⟨effects, hlog, hcast⟩ := h.cast
  exact ⟨effects, hlog, fun e he ↦ (hcast e he).heard⟩

theorem Overflows.heard (h : Overflows s refs msg t) :
    ∃ effects, t = s.logged effects ∧ ∀ e ∈ effects, s.Heard refs e := by
  obtain ⟨effects, rfl, hcast⟩ := h.broadcast.cast
  exact ⟨effects, rfl, fun e he ↦ (hcast e he).heard⟩

/-! ## Properties that only the lookup of an unknown head can break -/

/-- A property of servers and connections that every broadcast keeps, and every
change of the data of a player. -/
structure Robust (I : Server → List ConnRef → Prop) (E : Fault → Server → Prop) : Prop where
  listed : ∀ {s refs}, I s refs → s.Listed refs
  fields : ∀ {s refs}, I s refs → ∀ powerups gameStarted m_qMessagesIn,
    I { s with powerups, gameStarted, m_qMessagesIn } refs
  logged : ∀ {s refs}, I s refs → ∀ effects, (∀ e ∈ effects, s.Heard refs e) →
    I (s.logged effects) refs
  told : ∀ {s refs msg ignoreClient s' refs'}, I s refs → Told s refs msg ignoreClient s' refs' →
    I s' refs'
  insert : ∀ {s refs id}, I s refs → id ∈ s.players → ∀ player,
    I { s with players := s.players.insert id player } refs
  fault : ∀ {s refs fault}, I s refs → fault ≠ .emptySpawnpoints → fault ≠ .emptyTail → E fault s

namespace Robust

variable {I : Server → List ConnRef → Prop}

theorem overflow (h : Robust I E) (hI : I s refs) {s' : Server} (hoverflows : Overflows s refs msg s') :
    E .stackOverflow s' := by
  obtain ⟨effects, rfl, hheard⟩ := hoverflows.heard
  exact h.fault (h.logged hI effects hheard) (fun heq ↦ by cases heq) fun heq ↦ by cases heq

theorem messageAllClients (h : Robust I E) (hI : I s refs) (depth : ℕ) (msg : Msg)
    (ignoreClient : Option ConnRef) :
    Ends (fun s' ↦ ∃ refs', I s' refs') E
      ((Server.messageAllClients depth msg ignoreClient).run s) :=
  ends_messageAllClients (h.listed hI) (fun _ refs' htold ↦ ⟨refs', h.told hI htold⟩)
    fun _ hoverflows ↦ h.overflow hI hoverflows

theorem indifferent (h : Robust I E) : Indifferent I E where
  listed := h.listed
  fields hI _ _ _ := h.fields hI _ _ _
  told hI _ htold := h.told hI htold
  overflow hI _ hoverflows := h.overflow hI hoverflows
  noCell hI hfault := by
    apply h.fault hI
    · rcases hfault with rfl | rfl <;> exact fun heq ↦ by cases heq
    · rcases hfault with rfl | rfl <;> exact fun heq ↦ by cases heq

theorem announce (h : Robust I E) (hI : I s refs) (env : Env) (depth : ℕ) (client : ConnRef)
    (id : UInt32) (player : PlayerData) :
    Ends (fun s' ↦ ∃ refs', I s' refs') E
      ((Server.announce platform env depth client id player).run s) :=
  h.indifferent.announce (h.messageAllClients hI depth _ _)

/-- The collision check adds a player when it has a cell to compare with the head
of an unknown one. -/
theorem onMessage (h : Robust I E) (hI : I s refs) (env : Env) (depth : ℕ) (r : ConnRef) (msg : Msg)
    (hempty : msg.header.id = .updatePlayer → ∀ t refs' player clientID direction tail rest,
      Told s refs msg (some r) t refs' →
        popUpdate platform msg = .ok ((clientID, direction, tail), rest) →
          t.players.lookup (s.getID r) = some player →
            I (t.moved (s.getID r) player tail direction) refs' → ∀ other p,
              (t.moved (s.getID r) player tail direction).players.lookup other = some p →
                p.tail ≠ [] → E .emptyTail { t.moved (s.getID r) player tail direction with
                  players := ((t.moved (s.getID r) player tail direction).players.subscript
                    clientID.toUInt32 default).2 }) :
    Ends (fun s' ↦ ∃ refs', I s' refs') E ((Server.onMessage platform env depth r msg).run s) := by
  apply h.indifferent.onMessage hI
  · exact h.fault hI (fun heq ↦ by cases heq) fun heq ↦ by cases heq
  · intro hid
    apply ends_onMessage_updatePlayer (J := I) hid
    · exact ends_told (h.listed hI) fun _ hoverflows ↦ h.overflow hI hoverflows
    · exact fun _ _ htold ↦ h.told hI htold
    · intro t refs' player tail direction ht hlookup
      exact h.insert ht (AssocMap.mem_of_lookup hlookup) _
    · exact fun _ _ ht ↦ h.fault ht (fun heq ↦ by cases heq) fun heq ↦ by cases heq
    · exact fun _ _ ht ↦ h.fault ht (fun heq ↦ by cases heq) fun heq ↦ by cases heq
    · intro t refs' player clientID direction tail rest htold hpop hlookup
      have hmoved : I (t.moved (s.getID r) player tail direction) refs' :=
        h.insert (h.told hI htold) (AssocMap.mem_of_lookup hlookup) _
      apply ends_playerCollision
      · exact ⟨refs', hmoved⟩
      · intro other p _ hother _ htail
        exact hempty hid t refs' player clientID direction tail rest htold hpop hlookup hmoved
          other p hother htail
      · intro owner victim head cells _ _ _
        apply h.messageAllClients
        apply h.logged hmoved
        intro e he
        rw [List.mem_singleton.mp he]
        trivial

end Robust

end Server

namespace Process

/-- What has to be shown of the handlers, so that a property of the server holds
in every run of allowed events. -/
structure Rules (platform : Platform) (depth : ℕ) (allowed : Process → Event → Prop)
    (I : Server → List ConnRef → Prop) (E : Fault → Server → Prop) : Prop where
  accept : ∀ {S refs now}, I S.server refs → allowed S (.accept now) →
    S.server.onClientConnect = true → ∃ refs', I S.server.onAccept refs'
  fields : ∀ {s refs}, I s refs → ∀ isConnected m_qMessagesIn,
    I { s with isConnected, m_qMessagesIn } refs
  validate : ∀ {S refs r env ec bytes c}, I S.server refs → Phased S →
    (S.connections r).readingValidation = true →
      (S.connections r).onValidationRead ec bytes = (c, true) →
        allowed S (.validationRead r env ec bytes) →
          Server.Ends (fun s' ↦ ∃ refs', I s' refs') E
            ((Server.onClientValidated platform env depth r).run (S.setConnection r c).server)
  update : ∀ {S refs r msg rest env}, I S.server refs → Phased S →
    S.server.m_qMessagesIn = (r, msg) :: rest → allowed S (.update env) →
      Server.Ends (fun s' ↦ ∃ refs', I s' refs') E
        ((Server.onMessage platform env depth r msg).run { S.server with m_qMessagesIn := rest })

/-- The server satisfies `I` with some list of connections, or has met a fault
and satisfies `E`. -/
structure Holds (I : Server → List ConnRef → Prop) (E : Fault → Server → Prop) (S : Process) :
    Prop where
  up : S.fault = none → ∃ refs, I S.server refs
  down : ∀ fault, S.fault = some fault → E fault S.server

namespace Holds

variable {platform : Platform} {depth : ℕ} {allowed : Process → Event → Prop}
  {I : Server → List ConnRef → Prop} {E : Fault → Server → Prop} {S S' : Process}

theorem of_up (hup : S.fault = none) {refs : List ConnRef} (hI : I S.server refs) : Holds I E S :=
  ⟨fun _ ↦ ⟨refs, hI⟩, fun fault hfault ↦ by rw [hup] at hfault; cases hfault⟩

theorem serve (hup : S.fault = none) {handler : ServerM Unit}
    (h : Server.Ends (fun s' ↦ ∃ refs', I s' refs') E (handler.run S.server)) :
    Holds I E (S.serve handler) := by
  unfold Process.serve
  cases hrun : handler.run S.server with
  | ok u server =>
      rw [hrun] at h
      obtain ⟨refs, hI⟩ := h
      exact of_up hup hI
  | error fault server =>
      rw [hrun] at h
      refine ⟨fun hnone ↦ (by cases hnone), fun fault' hfault ↦ ?_⟩
      cases hfault
      exact h

theorem step (rules : Rules platform depth allowed I E) (h : Holds I E S) (hphased : Phased S)
    {e : Event} (hallowed : allowed S e) (hstep : S.step platform depth e = some S') :
    Holds I E S' := by
  obtain ⟨hup, hmoves⟩ := moves_of_step hstep
  obtain ⟨refs, hI⟩ := h.up hup
  cases hmoves with
  | approved hconnect =>
      obtain ⟨refs', hI'⟩ := rules.accept hI hallowed hconnect
      exact of_up hup hI'
  | denied => exact h
  | validationWritten => exact of_up hup (rules.fields hI _ _)
  | rejected => exact of_up hup (rules.fields hI _ _)
  | @validated r env ec bytes c hreading hread =>
      have hserved : Holds I E (((S.setConnection r c).call (.onClientValidated r
          c.m_handshakeIn)).serve (Server.onClientValidated platform env depth r)) := by
        apply serve
        · exact hup
        · exact rules.validate hI hphased hreading hread hallowed
      unfold Process.validate
      simp only
      split
      · next hrunning =>
          obtain ⟨refs', hI'⟩ := hserved.up hrunning
          exact of_up hrunning (rules.fields hI' _ _)
      · exact hserved
  | read => exact of_up hup (rules.fields hI _ _)
  | send => exact of_up hup (rules.fields hI _ _)
  | written => exact of_up hup (rules.fields hI _ _)
  | update hqueue =>
      apply serve
      · exact hup
      · exact rules.update hI hphased hqueue hallowed

theorem reaches (rules : Rules platform depth allowed I E) (h : Holds I E S) (hphased : Phased S)
    (hreaches : Reaches (Process.step platform depth) allowed S S') : Holds I E S' := by
  refine (hreaches.invariant (I := fun S ↦ Phased S ∧ Holds I E S) ⟨hphased, h⟩ ?_).2
  rintro S e S' ⟨hphased, hholds⟩ hallowed hstep
  exact ⟨hphased.step hstep, hholds.step rules hphased hallowed hstep⟩

theorem of_reaches (rules : Rules platform depth allowed I E) (hstart : I .init [])
    (h : Reaches (Process.step platform depth) allowed {} S) : Holds I E S :=
  (of_up rfl hstart : Holds I E {}).reaches rules .start h

end Holds

end Process

namespace Server

/-- The connections of the list are distinct approved ones. -/
structure Enrolled (s : Server) (refs : List ConnRef) : Prop extends s.Listed refs where
  approved : ∀ ref ∈ refs, ref < s.approved

theorem enrolled_init : init.Enrolled [] := ⟨⟨rfl, List.nodup_nil⟩, by simp⟩

theorem Enrolled.onAccept {s : Server} {refs : List ConnRef} (h : s.Enrolled refs)
    (hconnect : s.onClientConnect = true) : s.onAccept.Enrolled (refs ++ [s.approved]) := by
  unfold Server.onAccept
  rw [if_pos hconnect]
  refine ⟨⟨by simp [h.deque], ?_⟩, fun ref href ↦ ?_⟩
  · rw [List.nodup_append]
    refine ⟨h.nodup, List.nodup_singleton _, fun a ha b hb ↦ ?_⟩
    rw [List.mem_singleton] at hb
    rw [hb]
    exact Nat.ne_of_lt (h.approved a ha)
  · rcases List.mem_append.mp href with href | href
    · exact Nat.lt_succ_of_lt (h.approved ref href)
    · rw [List.mem_singleton] at href
      rw [href]
      exact Nat.lt_succ_self _

theorem Told.enrolled {s s' : Server} {refs refs' : List ConnRef} {msg : Msg}
    {ignoreClient : Option ConnRef} (h : Told s refs msg ignoreClient s' refs')
    (henrolled : s.Enrolled refs) : s'.Enrolled refs' := by
  refine ⟨h.listed henrolled.toListed, fun ref href ↦ ?_⟩
  rw [h.extends_.approved]
  exact henrolled.approved ref (h.mem_of_told href)

/-! ## The list of connections in every run -/

variable {s : Server} {refs : List ConnRef} {E : Fault → Server → Prop}

theorem Enrolled.fields (h : s.Enrolled refs) {t : Server}
    (hdeque : t.m_deqConnections = s.m_deqConnections) (happroved : t.approved = s.approved) :
    t.Enrolled refs := by
  refine ⟨⟨hdeque.trans h.deque, h.nodup⟩, fun ref href ↦ ?_⟩
  rw [happroved]
  exact h.approved ref href

theorem Enrolled.robust (hE : ∀ fault t, fault ≠ .emptySpawnpoints → E fault t) :
    Robust Enrolled E where
  listed h := h.toListed
  fields h _ _ _ := h.fields rfl rfl
  logged h _ _ := h.fields rfl rfl
  told h htold := htold.enrolled h
  insert h _ _ := h.fields rfl rfl
  fault _ hne _ := hE _ _ hne

end Server

namespace Process

variable {platform : Platform} {depth : ℕ} {allowed : Process → Event → Prop}
  {E : Fault → Server → Prop}

/-- Whatever the clients send, the connections stay distinct and approved; only
an empty vector of spawnpoints is left to the caller. -/
theorem rules_enrolled (hE : ∀ fault t, fault ≠ .emptySpawnpoints → E fault t)
    (hempty : ∀ {S r env ec bytes} (t : Server), Phased S →
      (S.connections r).readingValidation = true → allowed S (.validationRead r env ec bytes) →
        S.server.spawnpoints = [] → E .emptySpawnpoints t) :
    Rules platform depth allowed Server.Enrolled E where
  accept h _ hconnect := ⟨_, h.onAccept hconnect⟩
  fields h _ _ := h.fields rfl rfl
  validate := by
    intro S refs r env ec bytes c h hphased hreading _ hallowed
    apply Server.ends_onClientValidated
    · exact fun hnone ↦ hempty _ hphased hreading hallowed hnone
    · intro spawnpoint _
      apply (Server.Enrolled.robust hE).announce
      exact h.fields rfl rfl
  update := by
    intro S refs r msg rest env h _ _ _
    have hpopped : Server.Enrolled { S.server with m_qMessagesIn := rest } refs := h.fields rfl rfl
    apply (Server.Enrolled.robust hE).onMessage hpopped
    intros
    exact hE _ _ fun hfault ↦ by cases hfault

theorem enrolled_of_reaches {S : Process} (h : Reaches (step platform depth) allowed {} S) :
    Phased S ∧ Holds Server.Enrolled (fun _ _ ↦ True) S := by
  refine ⟨h.invariant (I := Phased) .start fun _ _ _ hphased _ hstep ↦ hphased.step hstep, ?_⟩
  have hrules : Rules platform depth allowed Server.Enrolled (fun _ _ ↦ True) :=
    rules_enrolled (fun _ _ _ ↦ trivial) fun _ _ _ _ _ ↦ trivial
  exact Holds.of_reaches hrules Server.enrolled_init h

end Process

end SnekCpp
