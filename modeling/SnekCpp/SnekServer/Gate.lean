import SnekCpp.SnekServer.Runs

/-!
# What a connection is sent first

A connection enters the list when it is accepted and is validated later, and a
broadcast goes to all of the list.  While every open connection of the list has
been validated before there is a broadcast, nothing is sent to a connection
before its own game state.
-/

namespace SnekCpp

open Lib Networking

/-- A message is passed to `Send` of a validated connection. -/
def Effect.Gated : Effect → List Effect → Prop
  | .sent r _, past => .validated r ∈ past
  | _, _ => True

namespace Server

variable {platform : Platform} {s t : Server} {refs refs' : List ConnRef} {r : ConnRef} {msg : Msg}

/-! ## The gate -/

/-- Messages go to validated connections, and the first one to each of them is
the game state with its own id. -/
structure Gate (platform : Platform) (s : Server) : Prop where
  gated : Preceded Effect.Gated s.log
  first : ∀ r msg, (sentTo s.log r).head? = some msg →
    ∃ roster powerups, msg = stateMsg platform roster powerups (s.getID r)

theorem Gate.validated_of_sent (h : s.Gate platform) (hsent : .sent r msg ∈ s.log) :
    s.Validated r := by
  obtain ⟨past, future, hlog⟩ := List.append_of_mem hsent
  have hpast : .validated r ∈ past := h.gated past _ future hlog
  unfold Validated
  rw [hlog]
  exact List.mem_append_left _ hpast

/-- Every validated connection has been sent something. -/
structure Greets (platform : Platform) (s : Server) (refs : List ConnRef) : Prop
    extends s.Enrolled refs, s.Gate platform where
  greeted : ∀ r, s.Validated r → sentTo s.log r ≠ []
  known : ∀ r, s.Validated r → r < s.approved

namespace Greets

/-- Effects that reach validated connections only. -/
theorem gate_append (h : s.Greets platform refs) {effects : List Effect}
    (hgetID : t.getID = s.getID) (hlog : t.log = s.log ++ effects)
    (hsent : ∀ ref msg, .sent ref msg ∈ effects → s.Validated ref) : t.Gate platform := by
  refine ⟨?_, fun r msg hhead ↦ ?_⟩
  · rw [hlog]
    refine h.gated.append fun e he past hpast ↦ ?_
    cases e with
    | sent ref msg => exact hpast.subset (hsent ref msg he)
    | _ => trivial
  · rw [hlog, sentTo_append] at hhead
    rw [hgetID]
    cases hsentTo : sentTo s.log r with
    | nil =>
        rw [hsentTo, List.nil_append] at hhead
        have hmem : .sent r msg ∈ effects := mem_sentTo.mp (List.mem_of_head? hhead)
        exact absurd hsentTo (h.greeted r (hsent r msg hmem))
    | cons first rest =>
        rw [hsentTo, List.cons_append, List.head?_cons] at hhead
        exact h.first r msg (by rw [hsentTo, List.head?_cons, hhead])

theorem append (h : s.Greets platform refs) {effects : List Effect} (henrolled : t.Enrolled refs')
    (hgetID : t.getID = s.getID) (happroved : t.approved = s.approved)
    (hlog : t.log = s.log ++ effects)
    (hsent : ∀ ref msg, .sent ref msg ∈ effects → s.Validated ref)
    (hquiet : ∀ ref, .validated ref ∉ effects) : t.Greets platform refs' := by
  have hvalidated : ∀ r, t.Validated r ↔ s.Validated r := by
    intro r
    simp [Validated, hlog, hquiet r]
  refine ⟨henrolled, h.gate_append hgetID hlog hsent, fun r hr ↦ ?_, fun r hr ↦ ?_⟩
  · rw [hlog, sentTo_append]
    exact List.append_ne_nil_of_left_ne_nil (h.greeted r ((hvalidated r).mp hr)) _
  · rw [happroved]
    exact h.known r ((hvalidated r).mp hr)

theorem fields (h : s.Greets platform refs) (hdeque : t.m_deqConnections = s.m_deqConnections)
    (happroved : t.approved = s.approved) (hgetID : t.getID = s.getID) (hlog : t.log = s.log) :
    t.Greets platform refs :=
  h.append (h.toEnrolled.fields hdeque happroved) hgetID happroved (hlog.trans (List.append_nil _).symm)
    (fun _ _ hmem ↦ by cases hmem) fun _ hmem ↦ by cases hmem

theorem init : Server.init.Greets platform [] where
  toEnrolled := enrolled_init
  gated := .nil
  first _ _ h := by cases h
  greeted _ h := by cases h
  known _ h := by cases h

theorem onAccept (h : s.Greets platform refs) (hconnect : s.onClientConnect = true) :
    s.onAccept.Greets platform (refs ++ [s.approved]) := by
  have hlog : s.onAccept.log = s.log := by simp [Server.onAccept, hconnect]
  have happroved : s.onAccept.approved = s.approved + 1 := by simp [Server.onAccept, hconnect]
  have hgetID : ∀ r, r < s.approved → s.onAccept.getID r = s.getID r := by
    intro r hr
    have hne : r ≠ s.approved := Nat.ne_of_lt hr
    simp [Server.onAccept, hconnect, Function.update_of_ne hne]
  refine ⟨h.toEnrolled.onAccept hconnect, ⟨by rw [hlog]; exact h.gated, fun r msg hhead ↦ ?_⟩,
    fun r hr ↦ ?_, fun r hr ↦ ?_⟩
  · rw [hlog] at hhead
    have hsent := h.validated_of_sent (mem_sentTo.mp (List.mem_of_head? hhead))
    rw [hgetID r (h.known r hsent)]
    exact h.first r msg hhead
  · rw [hlog]
    exact h.greeted r (by rwa [Validated, hlog] at hr)
  · rw [happroved]
    exact Nat.lt_succ_of_lt (h.known r (by rwa [Validated, hlog] at hr))

theorem welcomed (h : s.Greets platform refs) (hr : r < s.approved) (env : Env)
    (spawnpoint : Position) : (s.welcomed platform env r spawnpoint).Greets platform refs := by
  set snapshot := s.snapshotMsg platform env r spawnpoint with hsnapshot
  have hlog : (s.welcomed platform env r spawnpoint).log =
      s.log ++ [.validated r, .sent r snapshot] := rfl
  have hvalidated : ∀ other, (s.welcomed platform env r spawnpoint).Validated other →
      other = r ∨ s.Validated other := by
    intro other hother
    rw [Validated, hlog] at hother
    simpa [Validated, or_comm] using hother
  have hown : ∀ other, sentTo [.validated r, .sent r snapshot] other =
      if r = other then [snapshot] else [] := by
    intro other
    by_cases heq : r = other <;> simp [sentTo, heq]
  refine ⟨h.toEnrolled.fields rfl rfl, ⟨?_, fun other msg hhead ↦ ?_⟩, fun other hother ↦ ?_,
    fun other hother ↦ ?_⟩
  · rw [hlog, List.append_cons]
    apply Preceded.concat
    · exact h.gated.concat trivial
    · exact List.mem_append_right _ (List.mem_singleton_self _)
  · rw [hlog, sentTo_append, hown] at hhead
    by_cases hold : sentTo s.log other = []
    · rw [hold, List.nil_append] at hhead
      split at hhead
      · next heq =>
          cases hhead
          rw [← heq]
          exact ⟨_, _, hsnapshot⟩
      · cases hhead
    · rw [List.head?_append_of_ne_nil _ hold] at hhead
      exact h.first other msg hhead
  · rw [hlog, sentTo_append, hown]
    rcases hvalidated other hother with rfl | hother
    · simp
    · exact List.append_ne_nil_of_left_ne_nil (h.greeted other hother) _
  · rcases hvalidated other hother with rfl | hother
    · exact hr
    · exact h.known other hother

end Greets

/-- Every open connection of the list has been validated. -/
structure Ready (platform : Platform) (s : Server) (refs : List ConnRef) : Prop
    extends s.Greets platform refs where
  ready : ∀ ref ∈ refs, s.IsOpen ref → s.Validated ref

namespace Ready

theorem fields (h : s.Ready platform refs) (hdeque : t.m_deqConnections = s.m_deqConnections)
    (happroved : t.approved = s.approved) (hgetID : t.getID = s.getID)
    (hisConnected : t.isConnected = s.isConnected) (hlog : t.log = s.log) :
    t.Ready platform refs := by
  refine ⟨h.toGreets.fields hdeque happroved hgetID hlog, fun ref href hopen ↦ ?_⟩
  rw [Validated, hlog]
  exact h.ready ref href (by rwa [IsOpen, hisConnected] at hopen)

theorem logged (h : s.Ready platform refs) {effects : List Effect}
    (hheard : ∀ e ∈ effects, s.Heard refs e) : (s.logged effects).Ready platform refs := by
  refine ⟨h.toGreets.append (h.toEnrolled.fields rfl rfl) rfl rfl rfl (fun ref msg hmem ↦ ?_)
    fun ref hmem ↦ hheard _ hmem, fun ref href hopen ↦ ?_⟩
  · obtain ⟨href, hopen⟩ := hheard _ hmem
    exact h.ready ref href hopen
  · exact List.mem_append_left _ (h.ready ref href hopen)

theorem told {ignoreClient : Option ConnRef} (h : s.Ready platform refs)
    (htold : Told s refs msg ignoreClient t refs') : t.Ready platform refs' := by
  obtain ⟨effects, hlog, hheard⟩ := htold.heard
  have hext := htold.extends_
  refine ⟨h.toGreets.append (htold.enrolled h.toEnrolled) hext.getID hext.approved hlog
    (fun ref msg hmem ↦ ?_) fun ref hmem ↦ hheard _ hmem, fun ref href hopen ↦ ?_⟩
  · obtain ⟨href, hopen⟩ := hheard _ hmem
    exact h.ready ref href hopen
  · rw [IsOpen, hext.isConnected] at hopen
    exact (hext.validated_iff ref).mpr (h.ready ref (htold.mem_of_told href) hopen)

theorem robust (platform : Platform) : Robust (Ready platform) (fun _ s ↦ s.Gate platform) where
  listed h := h.toListed
  fields h _ _ _ := h.fields rfl rfl rfl rfl rfl
  logged h _ hheard := h.logged hheard
  told h htold := h.told htold
  insert h _ _ := h.fields rfl rfl rfl rfl rfl
  fault h _ _ := h.toGate

theorem ends_onMessage (h : s.Ready platform refs) (env : Env) (depth : ℕ) (r : ConnRef)
    (msg : Msg) :
    Ends (fun s' ↦ ∃ refs', s'.Ready platform refs') (fun _ s' ↦ s'.Gate platform)
      ((Server.onMessage platform env depth r msg).run s) := by
  apply (robust platform).onMessage h
  intro _ t refs' player clientID direction tail rest _ _ _ hmoved _ _ _ _
  exact ⟨hmoved.gated, hmoved.first⟩

end Ready

/-- `OnClientValidated` is recorded, and no other connection is. -/
theorem log_onClientValidated (platform : Platform) (env : Env) (depth : ℕ) (r : ConnRef)
    (s : Server) : ∃ effects,
      (after ((onClientValidated platform env depth r).run s)).log =
        s.log ++ .validated r :: effects ∧ ∀ other, .validated other ∉ effects := by
  cases hspawn : s.spawnpoints.getLast? with
  | none =>
      rw [run_onClientValidated_none platform hspawn]
      exact ⟨[], rfl, by simp⟩
  | some spawnpoint =>
      rw [run_onClientValidated platform hspawn]
      obtain ⟨effects, hlog, hspeaks⟩ := (only_announce platform env depth r (s.getID r)
        { direction := .up, tail := [spawnpoint], color := env.color }
        (s.welcomed platform env r spawnpoint)).log
      refine ⟨.sent r (s.snapshotMsg platform env r spawnpoint) :: effects, ?_, fun other hmem ↦ ?_⟩
      · rw [hlog]
        simp [Server.welcomed]
      · rcases List.mem_cons.mp hmem with heq | hmem
        · cases heq
        · exact hspeaks _ hmem

/-- The message makes the server broadcast something. -/
def Relays (msg : Msg) : Prop :=
  msg.header.id = .updatePlayer ∨ msg.header.id = .startGame ∨
    msg.header.id = .powerupEaten ∧ (readField PowerupData msg).isOk = true

instance (msg : Msg) : Decidable (Relays msg) := inferInstanceAs (Decidable (_ ∨ _))

theorem run_onMessage_of_not_relays (s : Server) (h : ¬ Relays msg) (env : Env) (depth : ℕ)
    (r : ConnRef) :
    (onMessage platform env depth r msg).run s = .ok () s ∨
      (onMessage platform env depth r msg).run s = .error .shortBody s := by
  have hupdate : msg.header.id ≠ .updatePlayer := fun hid ↦ h (.inl hid)
  have hstart : msg.header.id ≠ .startGame := fun hid ↦ h (.inr (.inl hid))
  by_cases heaten : msg.header.id = .powerupEaten
  · right
    cases hread : readField PowerupData msg with
    | ok result => exact absurd (.inr (.inr ⟨heaten, by rw [hread]; rfl⟩)) h
    | error fault =>
        rw [onMessage, heaten, eq_shortBody_of_readField hread] at *
        simp only [onPowerupEaten, hread]
        rfl
  · exact .inl (run_onMessage_unhandled s heaten hupdate hstart)

/-- The open connections of the list but one have been validated. -/
def OthersValidated (s : Server) (r : Option ConnRef) : Prop :=
  ∀ client ∈ s.m_deqConnections, ∀ ref ∈ client, some ref ≠ r → s.IsOpen ref → s.Validated ref

instance (s : Server) (r : Option ConnRef) : Decidable (s.OthersValidated r) :=
  inferInstanceAs (Decidable (∀ _ ∈ _, _))

theorem OthersValidated.of_mem {other : Option ConnRef} (h : s.OthersValidated other)
    (hlisted : s.Listed refs) {ref : ConnRef} (href : ref ∈ refs) (hne : some ref ≠ other)
    (hopen : s.IsOpen ref) : s.Validated ref := by
  apply h (some ref) _ ref rfl hne hopen
  rw [hlisted.deque]
  exact List.mem_map_of_mem href

end Server

end SnekCpp
