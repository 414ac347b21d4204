import SnekCpp.SnekServer.Seats

/-!
# Who owns a connection

The lambdas of a connection capture `this`, which keeps nothing alive; the list
of connections and the messages in the queue hold a `shared_ptr`.  A broadcast
resets the pointer of a connection as soon as its socket is closed.
-/

namespace SnekCpp

open Lib Networking

namespace Server

variable {platform : Platform} {start s t : Server} {refs refs' : List ConnRef} {r : ConnRef}
  {msg : Msg}

theorem sentTo_of_heard {effects : List Effect} (hheard : ∀ e ∈ effects, s.Heard refs e)
    (hr : ¬ (r ∈ refs ∧ s.IsOpen r)) : sentTo effects r = [] := by
  rw [List.eq_nil_iff_forall_not_mem]
  intro m hm
  exact hr (hheard _ (mem_sentTo.mp hm))

/-- Since `start` the only closed connection of the list may have been dropped,
and only open ones of the list have been sent something. -/
structure Releases (start s : Server) (refs : List ConnRef) : Prop extends s.Enrolled refs where
  isConnected : s.isConnected = start.isConnected
  listed : ∀ ref ∈ refs, some ref ∈ start.m_deqConnections
  dropped : ∀ ref, some ref ∈ start.m_deqConnections → ref ∈ refs ∨ start.OnlyClosed ref
  sent : ∀ ref, ¬ (some ref ∈ start.m_deqConnections ∧ start.IsOpen ref) →
    sentTo s.log ref = sentTo start.log ref

namespace Releases

theorem refl (h : s.Enrolled refs) : Releases s s refs := by
  refine ⟨h, rfl, fun ref href ↦ ?_, fun ref href ↦ .inl ?_, fun _ _ ↦ rfl⟩
  · rw [h.deque]
    exact List.mem_map_of_mem href
  · rw [h.deque] at href
    simpa using href

theorem fields (h : Releases start s refs) (hdeque : t.m_deqConnections = s.m_deqConnections)
    (happroved : t.approved = s.approved) (hisConnected : t.isConnected = s.isConnected)
    (hlog : t.log = s.log) : Releases start t refs := by
  refine ⟨h.toEnrolled.fields hdeque happroved, hisConnected.trans h.isConnected, h.listed,
    h.dropped, ?_⟩
  rw [hlog]
  exact h.sent

/-- Whoever has heard something is open and in the list. -/
theorem sent_append (h : Releases start s refs) {effects : List Effect}
    (hheard : ∀ e ∈ effects, s.Heard refs e) {ref : ConnRef}
    (href : ¬ (some ref ∈ start.m_deqConnections ∧ start.IsOpen ref)) :
    sentTo (s.log ++ effects) ref = sentTo start.log ref := by
  have hnot : ¬ (ref ∈ refs ∧ s.IsOpen ref) := by
    rintro ⟨hmem, hopen⟩
    rw [IsOpen, h.isConnected] at hopen
    exact href ⟨h.listed ref hmem, hopen⟩
  rw [sentTo_append, sentTo_of_heard hheard hnot, List.append_nil]
  exact h.sent ref href

theorem told {ignoreClient : Option ConnRef} (h : Releases start s refs)
    (htold : Told s refs msg ignoreClient t refs') : Releases start t refs' := by
  obtain ⟨effects, hlog, hheard⟩ := htold.heard
  refine ⟨htold.enrolled h.toEnrolled, htold.extends_.isConnected.trans h.isConnected,
    fun ref href ↦ h.listed ref (htold.mem_of_told href), fun ref href ↦ ?_, fun ref href ↦ ?_⟩
  · rcases h.dropped ref href with hmem | honly
    · cases htold with
      | delivered hopen => exact .inl hmem
      | @departed before after gone hrefs hgone hclosed hopen =>
          subst hrefs
          by_cases hne : ref = gone
          · subst hne
            right
            -- An earlier drop has left open connections only.
            refine ⟨href, by rwa [IsOpen, h.isConnected] at hclosed, ?_⟩
            intro client hclient other hother hdiffers
            rw [Option.mem_def] at hother
            subst hother
            rcases h.dropped other hclient with hmem' | honly
            · rw [IsOpen, ← h.isConnected]
              exact hopen other (mem_others hmem' hdiffers)
            · exfalso
              apply hclosed
              rw [IsOpen, h.isConnected]
              exact honly.2.2 _ href ref rfl (Ne.symm hdiffers)
          · exact .inl (mem_others hmem hne)
    · exact .inr honly
  · rw [hlog]
    exact h.sent_append hheard href

theorem sent_of_notMem (h : Releases start s refs) {ref : ConnRef} (hnot : ref ∉ refs) :
    sentTo s.log ref = sentTo start.log ref := by
  apply h.sent
  rintro ⟨hlisted, hopen⟩
  rcases h.dropped ref hlisted with hmem | honly
  · exact hnot hmem
  · exact honly.2.1 hopen

theorem robust (start : Server) :
    Robust (Releases start) (fun _ s ↦ ∃ refs, Releases start s refs) where
  listed h := h.toListed
  fields h _ _ _ := h.fields rfl rfl rfl rfl
  logged h _ hheard :=
    ⟨h.toEnrolled.fields rfl rfl, h.isConnected, h.listed, h.dropped,
      fun _ href ↦ h.sent_append hheard href⟩
  told h htold := h.told htold
  insert h _ _ := h.fields rfl rfl rfl rfl
  fault h _ _ := ⟨_, h⟩

end Releases

theorem releases_onMessage (platform : Platform) (h : s.Enrolled refs) (env : Env) (depth : ℕ)
    (r : ConnRef) (msg : Msg) :
    ∃ refs', Releases s (after ((onMessage platform env depth r msg).run s)) refs' := by
  have hends : Ends (fun t ↦ ∃ refs', Releases s t refs') (fun _ t ↦ ∃ refs', Releases s t refs')
      ((onMessage platform env depth r msg).run s) := by
    apply (Releases.robust s).onMessage (.refl h)
    intro _ t refs' player clientID direction tail rest _ _ _ hmoved _ _ _ _
    exact ⟨refs', hmoved.fields rfl rfl rfl rfl⟩
  exact hends.after

theorem releases_onClientValidated (platform : Platform) (h : s.Enrolled refs) (env : Env)
    (depth : ℕ) (r : ConnRef) {spawnpoint : Position}
    (hspawn : s.spawnpoints.getLast? = some spawnpoint) :
    ∃ refs', Releases (s.welcomed platform env r spawnpoint)
      (after ((onClientValidated platform env depth r).run s)) refs' := by
  rw [run_onClientValidated platform hspawn]
  have hwelcomed : (s.welcomed platform env r spawnpoint).Enrolled refs := h.fields rfl rfl
  exact ((Releases.robust _).announce (.refl hwelcomed) env depth r _ _).after

end Server

namespace Process

variable {platform : Platform} {depth : ℕ} {S S' : Process} {r : ConnRef}

/-- A `shared_ptr` to the connection is in the list or with a message of the queue. -/
def Owned (S : Process) (r : ConnRef) : Prop :=
  some r ∈ S.server.m_deqConnections ∨ ∃ received ∈ S.server.m_qMessagesIn, received.1 = r

/-- A lambda that has captured the raw pointer of the connection is still to run: one
that `Send` has posted, or the handler of a read or a write. -/
def Pending (S : Process) (r : ConnRef) : Prop :=
  S.posted r < (sentTo S.server.log r).length ∨ (S.connections r).reading ≠ none ∨
    (S.connections r).writing ≠ none ∨ (S.connections r).readingValidation = true ∨
      (S.connections r).writingValidation = true

instance (S : Process) (r : ConnRef) : Decidable (S.Owned r) :=
  inferInstanceAs (Decidable (_ ∨ _))

instance (S : Process) (r : ConnRef) : Decidable (S.Pending r) :=
  inferInstanceAs (Decidable (_ ∨ _))

/-- No broadcast meets a closed connection that has lambdas to run. -/
def DrainsFirst (S : Process) (e : Event) : Prop :=
  S.Broadcasts e → ∀ client ∈ S.server.m_deqConnections, ∀ gone ∈ client,
    S.server.OnlyClosed gone → ¬ S.Pending gone

instance (S : Process) (e : Event) : Decidable (S.DrainsFirst e) :=
  inferInstanceAs (Decidable (_ → _))

/-- Every connection with a lambda to run is in the list. -/
def Retained (S : Process) : Prop := ∀ r, S.Pending r → some r ∈ S.server.m_deqConnections

theorem Pending.congr (h : S.Pending r) (hposted : S'.posted r = S.posted r)
    (hsent : sentTo S'.server.log r = sentTo S.server.log r)
    (hconnection : S'.connections r = S.connections r) : S'.Pending r := by
  unfold Pending at *
  rwa [hposted, hsent, hconnection]

namespace Retained

theorem start : Retained {} := by
  intro r hpending
  rcases hpending with hposted | hreading | hwriting | hreading | hwriting
  · cases hposted
  · exact absurd rfl hreading
  · exact absurd rfl hwriting
  · cases hreading
  · cases hwriting

/-- A step of a connection of the list. -/
theorem setPosted (h : Retained S) (hr : some r ∈ S.server.m_deqConnections)
    (c : Endpoint MessageTypes) (n : ℕ) :
    Retained { S.setConnection r c with posted := Function.update S.posted r n } := by
  intro other hpending
  by_cases hne : other = r
  · rw [hne]
    exact hr
  · apply h other
    exact hpending.congr (Function.update_of_ne hne _ _).symm rfl
      (Function.update_of_ne hne _ _).symm

theorem setConnection (h : Retained S) (hr : some r ∈ S.server.m_deqConnections)
    (c : Endpoint MessageTypes) : Retained (S.setConnection r c) := by
  have hset := h.setPosted hr c (S.posted r)
  rwa [Function.update_eq_self] at hset

theorem approve (h : Retained S) (now : UInt64) (hconnect : S.server.onClientConnect = true) :
    Retained (S.approve now) := by
  have hdeque : (S.approve now).server.m_deqConnections =
      S.server.m_deqConnections ++ [some S.server.approved] := by
    simp [Process.approve, Server.onAccept, hconnect]
  have hlog : (S.approve now).server.log = S.server.log := by
    simp [Process.approve, Server.onAccept, hconnect]
  intro other hpending
  rw [hdeque]
  by_cases hne : other = S.server.approved
  · rw [hne]
    exact List.mem_append_right _ (List.mem_singleton_self _)
  · apply List.mem_append_left
    apply h other
    exact hpending.congr rfl (by rw [hlog]) (Function.update_of_ne hne _ _).symm

/-- A handler that drops only connections without lambdas, and sends nothing to
connections that are not in the list afterwards. -/
theorem serve (h : Retained S) {handler : ServerM Unit} {refs : List ConnRef}
    (hdeque : (Server.after (handler.run S.server)).m_deqConnections = refs.map some)
    (hdropped : ∀ gone, some gone ∈ S.server.m_deqConnections → gone ∉ refs → ¬ S.Pending gone)
    (hsent : ∀ other, other ∉ refs →
      sentTo (Server.after (handler.run S.server)).log other = sentTo S.server.log other) :
    Retained (S.serve handler) := by
  intro other hpending
  rw [server_serve, hdeque]
  by_contra hother
  have hnot : other ∉ refs := fun hmem ↦ hother (List.mem_map_of_mem hmem)
  have hold : S.Pending other := by
    apply hpending.congr (by rw [serve_posted])
    · rw [server_serve, hsent other hnot]
    · rw [serve_connections]
  exact hdropped other (h other hold) hnot hold

/-- The connection that joins is open, since its read was still to come. -/
theorem validate (h : Retained S) {env : Env} {ec : Bool} {bytes : List UInt8}
    {c : Endpoint MessageTypes} {refs : List ConnRef} (henrolled : S.server.Enrolled refs)
    (hr : some r ∈ S.server.m_deqConnections) (hserver : (S.setConnection r c).server = S.server)
    (hreading : (S.connections r).readingValidation = true)
    (hread : (S.connections r).onValidationRead ec bytes = (c, true))
    (hallowed : S.DrainsFirst (.validationRead r env ec bytes)) :
    Retained ((S.setConnection r c).validate platform depth r env c) := by
  set called := (S.setConnection r c).call (.onClientValidated r c.m_handshakeIn) with hcalled
  have hset : Retained called := h.setConnection hr c
  have hcalledServer : called.server = S.server := hserver
  unfold Process.validate
  simp only
  rw [← hcalled]
  cases hspawn : S.server.spawnpoints.getLast? with
  | none =>
      have hrun : (Server.onClientValidated platform env depth r).run called.server =
          .error .emptySpawnpoints (S.server.logged [.validated r]) := by
        rw [hcalledServer]
        exact Server.run_onClientValidated_none platform hspawn env depth r
      have hserved : Retained (called.serve (Server.onClientValidated platform env depth r)) := by
        have hdeque : (Server.after ((Server.onClientValidated platform env depth r).run
            called.server)).m_deqConnections = refs.map some := by
          rw [hrun]
          exact henrolled.deque
        apply hset.serve hdeque
        · intro gone hgone hnot
          rw [hcalledServer, henrolled.deque] at hgone
          exact absurd (by simpa using hgone) hnot
        · intro other _
          rw [hrun, hcalledServer]
          simp [Server.after, Server.logged, sentTo]
      rw [if_neg]
      · exact hserved
      · unfold Process.serve
        rw [hrun]
        exact fun hnone ↦ by cases hnone
  | some spawnpoint =>
      have hdrained := hallowed (by simp [Broadcasts, joins, hread])
      obtain ⟨refs', hreleases⟩ := Server.releases_onClientValidated platform henrolled env depth r
        hspawn
      have hr' : r ∈ refs' := by
        rcases hreleases.dropped r hr with hmem | honly
        · exact hmem
        · exact absurd (.inr (.inr (.inr (.inl hreading)))) (hdrained _ hr r rfl honly)
      have hserved : Retained (called.serve (Server.onClientValidated platform env depth r)) := by
        have hdeque : (Server.after ((Server.onClientValidated platform env depth r).run
            called.server)).m_deqConnections = refs'.map some := by
          rw [hcalledServer]
          exact hreleases.deque
        apply hset.serve hdeque
        · intro gone hgone hnot hpending
          rw [hcalledServer] at hgone
          rcases hreleases.dropped gone hgone with hmem | honly
          · exact hnot hmem
          · apply hdrained _ hgone gone rfl honly
            have hne : gone ≠ r := fun heq ↦ hnot (heq ▸ hr')
            exact hpending.congr rfl (by rw [hcalledServer]) (Function.update_of_ne hne _ _).symm
        · intro other hnot
          have hne : r ≠ other := fun heq ↦ hnot (heq ▸ hr')
          rw [hcalledServer, hreleases.sent_of_notMem hnot]
          simp [Server.welcomed, sentTo, hne]
      split
      · apply hserved.setConnection
        rw [server_serve, hcalledServer, hreleases.deque]
        exact List.mem_map_of_mem hr'
      · exact hserved

theorem update (h : Retained S) {env : Env} {msg : Msg} {rest : List (ConnRef × Msg)}
    {refs : List ConnRef} (henrolled : S.server.Enrolled refs)
    (hqueue : S.server.m_qMessagesIn = (r, msg) :: rest) (hallowed : S.DrainsFirst (.update env)) :
    Retained (({ S with server.m_qMessagesIn := rest }.call (.onMessage r msg)).serve
      (Server.onMessage platform env depth r msg)) := by
  have hpopped : Retained ({ S with server.m_qMessagesIn := rest }.call (.onMessage r msg)) :=
    fun other hpending ↦ h other (hpending.congr rfl rfl rfl)
  have hstart : Server.Enrolled { S.server with m_qMessagesIn := rest } refs :=
    henrolled.fields rfl rfl
  by_cases hrelays : Server.Relays msg
  · have hdrained := hallowed ⟨(r, msg), by rw [hqueue]; rfl, hrelays⟩
    obtain ⟨refs', hreleases⟩ := Server.releases_onMessage platform hstart env depth r msg
    apply hpopped.serve hreleases.deque
    · intro gone hgone hnot hpending
      rcases hreleases.dropped gone hgone with hmem | honly
      · exact hnot hmem
      · exact hdrained _ hgone gone rfl honly (hpending.congr rfl rfl rfl)
    · exact fun other hnot ↦ hreleases.sent_of_notMem hnot
  · have hafter : Server.after ((Server.onMessage platform env depth r msg).run
        { S.server with m_qMessagesIn := rest }) = { S.server with m_qMessagesIn := rest } := by
      rcases Server.run_onMessage_of_not_relays { S.server with m_qMessagesIn := rest } hrelays env
        depth r with hrun | hrun
      · rw [hrun]
        rfl
      · rw [hrun]
        rfl
    apply hpopped.serve ((congrArg Server.m_deqConnections hafter).trans henrolled.deque)
    · intro gone hgone hnot
      have hgone : some gone ∈ S.server.m_deqConnections := hgone
      rw [henrolled.deque] at hgone
      exact absurd (by simpa using hgone) hnot
    · exact fun other _ ↦ congrArg (fun s ↦ sentTo (Server.log s) other) hafter

theorem step (h : Retained S) (hphased : Phased S) (hsynced : Synced S)
    (hholds : Holds Server.Enrolled (fun _ _ ↦ True) S) {e : Event} (hallowed : S.DrainsFirst e)
    (hstep : S.step platform depth e = some S') : Retained S' := by
  obtain ⟨hup, hmoves⟩ := moves_of_step hstep
  obtain ⟨refs, henrolled⟩ := hholds.up hup
  cases hmoves with
  | approved hconnect => exact h.approve _ hconnect
  | denied => exact h
  | @validationWritten r ec hwriting =>
      have hr := h r (.inr (.inr (.inr (.inr hwriting))))
      exact h.setConnection hr _
  | @rejected r env ec bytes c hreading hread =>
      have hr := h r (.inr (.inr (.inr (.inl hreading))))
      exact h.setConnection hr _
  | @validated r env ec bytes c hreading hread =>
      have hr := h r (.inr (.inr (.inr (.inl hreading))))
      have hserver : (S.setConnection r c).server = S.server :=
        hsynced.server_setConnection (hphased.waiting r hreading).1
          (Endpoint.isOpen_of_onValidationRead (hphased.owner r) hread)
      exact h.validate henrolled hr hserver hreading hread hallowed
  | @read r op ec bytes hreading =>
      have hr := h r (.inr (.inl fun hnone ↦ by rw [hreading] at hnone; cases hnone))
      have hset := h.setConnection hr ((S.connections r).onRead op ec bytes)
      exact fun other hpending ↦ hset other (hpending.congr rfl rfl rfl)
  | @send r msg c hposted hsend =>
      have hr := h r (.inl (List.getElem?_eq_some_iff.mp hposted).1)
      exact h.setPosted hr c _
  | @written r ec c hwritten =>
      obtain ⟨⟨connection, bytes⟩, hconnection, rfl⟩ := Option.map_eq_some_iff.mp hwritten
      have hr := h r (.inr (.inr (.inl (Connection.writing_of_onWritten hconnection))))
      exact h.setConnection hr _
  | update hqueue => exact h.update henrolled hqueue hallowed

end Retained

theorem retained_of_reaches (h : Reaches (step platform depth) DrainsFirst {} S) : Retained S := by
  induction h with
  | refl => exact .start
  | tail hpast hlast ih =>
      obtain ⟨e, hallowed, hstep⟩ := hlast
      obtain ⟨hphased, hholds⟩ := enrolled_of_reaches hpast
      have hsynced := Reaches.invariant hpast (I := Synced) .start
        fun _ _ _ hI _ hstep ↦ hI.step hstep
      exact ih.step hphased hsynced hholds hallowed hstep

/-- A connection outlives its lambdas, if a broadcast that meets it closed comes
after the last of them. -/
theorem not_pending_of_not_owned (h : Reaches (step platform depth) DrainsFirst {} S)
    (howned : ¬ S.Owned r) : ¬ S.Pending r :=
  fun hpending ↦ howned (.inl (retained_of_reaches h r hpending))

/-- The first of two clients is gone before its answer, and its challenge has been written. -/
def drainsAndLeaves : List Event :=
  [.accept 5, .accept 6, .validationWritten 0 false, .validationRead 0 .plain true [],
    .validationRead 1 .plain false (StandardLayout.toBytes (Endpoint.scramble 6))]

theorem not_pending_of_not_owned_drained :
    ∃ S, run (guarded (step .x64 2) DrainsFirst) {} drainsAndLeaves = some S ∧
      S.server.Left 0 ∧ ¬ S.Owned 0 ∧ ¬ S.Pending 0 := by
  obtain ⟨S, hrun, hend⟩ := @exists_run_of_any _ _ (guarded (step .x64 2) DrainsFirst) {}
    drainsAndLeaves (fun S ↦ S.server.Left 0 ∧ ¬ S.Owned 0) (by decide +kernel)
  obtain ⟨hleft, howned⟩ := of_decide_eq_true hend
  exact ⟨S, hrun, hleft, howned, not_pending_of_not_owned (reaches_of_guarded hrun) howned⟩

/-- The first of two clients disconnects while its game state is being written,
and the second one starts the game. -/
def leavesWhileWriting : List Event :=
  [.accept 5, .accept 6, .validationWritten 0 false, .validationWritten 1 false,
    .validationRead 0 .plain false (StandardLayout.toBytes (Endpoint.scramble 5)), .send 0,
    .validationRead 1 .plain false (StandardLayout.toBytes (Endpoint.scramble 6)),
    .read 1 false (StandardLayout.toBytes (Message.new MessageTypes.startGame).header),
    .read 0 true [], .update .plain]

theorem not_outlives_whileWriting :
    ¬ ∀ S r, Reaches (step .x64 2) (fun _ _ ↦ True) {} S → ¬ S.Owned r → ¬ S.Pending r := by
  intro houtlives
  obtain ⟨S, hreaches, hend⟩ := @exists_reaches_of_run _ _ (step .x64 2) {} leavesWhileWriting
    (fun S ↦ S.fault = none ∧ ¬ S.Owned 0 ∧ (S.connections 0).writing ≠ none) (by decide +kernel)
  obtain ⟨-, howned, hwriting⟩ := of_decide_eq_true hend
  exact houtlives S 0 hreaches howned (.inr (.inr (.inl hwriting)))

end Process

end SnekCpp
