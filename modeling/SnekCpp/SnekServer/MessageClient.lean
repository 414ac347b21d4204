import SnekCpp.SnekServer.Delivery

/-!
# A message to one client

`MessageClient` has its own copy of the pointer.  It resets the copy before it
looks for it in the list, so what it looks for is a null pointer.
-/

namespace SnekCpp.Server

open Lib Networking

def messageClient (depth : ℕ) (client : Option ConnRef) (msg : Msg) : ServerM Unit := do
  let s ← get
  match client.filter s.isConnected with
  | some ref => send ref msg
  | none =>
      onClientDisconnect depth client
      -- `client.reset()`
      let client : Option ConnRef := none
      modify fun s ↦ { s with m_deqConnections := s.m_deqConnections.filter (· ≠ client) }

/-- How often `OnClientDisconnect` has been called for a client. -/
def reports (s : Server) (client : ConnRef) : ℕ := s.log.count (.disconnected (some client))

/-- `MessageClient` takes the client off the list, keeps the others in their
order, and no later broadcast reports the client once more. -/
def DropsForGood (depth : ℕ) (s : Server) (client : ConnRef) (msg : Msg) : Prop :=
  ∀ s', (messageClient depth (some client) msg).run s = .ok () s' →
    s'.m_deqConnections = s.m_deqConnections.filter (· ≠ some client) ∧
      ∀ depth' msg' ignoreClient s'', (messageAllClients depth' msg' ignoreClient).run s' = .ok () s'' →
        s''.reports client = s'.reports client

variable {s : Server} {before after : List ConnRef} {gone : ConnRef}

/-- The closed client is reported, and the list stays as it is. -/
theorem run_messageClient_closed (h : s.Listed (before ++ gone :: after))
    (hclosed : ¬ s.IsOpen gone) (hopen : ∀ ref ∈ before ++ after, s.IsOpen ref) (depth : ℕ)
    (msg : Msg) :
    (messageClient (depth + 1) (some gone) msg).run s = .ok () (s.reported gone (before ++ after)) := by
  have hfilter : (some gone).filter s.isConnected = none := by
    have hclosed' : s.isConnected gone = false := by simpa [IsOpen] using hclosed
    simp [hclosed']
  have hkeep : (s.reported gone (before ++ after)).m_deqConnections.filter (· ≠ none) =
      (s.reported gone (before ++ after)).m_deqConnections := by
    rw [show (s.reported gone (before ++ after)).m_deqConnections = _ from h.deque]
    exact filter_isSome_map_some _
  simp only [messageClient, EStateM.run_bind, EStateM.run_get, hfilter, onClientDisconnect,
    run_onClientDisconnect_open h hopen, EStateM.run_modify, hkeep]

theorem reports_departed (s : Server) (before : List ConnRef) (gone : ConnRef)
    (after : List ConnRef) (msg : Msg) :
    (s.departed msg none before gone after).reports gone = s.reports gone + 1 := by
  have hsends : ∀ m refs, (sends m refs).count (.disconnected (some gone)) = 0 := by
    intro m refs
    apply List.count_eq_zero.mpr
    intro hmem
    obtain ⟨ref, -, heq⟩ := List.mem_map.mp hmem
    cases heq
  simp [reports, departed, departure, List.count_append, hsends]

/-- A closed client stays on the list, and the next broadcast reports it once more. -/
theorem not_dropsForGood (h : s.Listed (before ++ gone :: after)) (hclosed : ¬ s.IsOpen gone)
    (hopen : ∀ ref ∈ before ++ after, s.IsOpen ref) (depth : ℕ) (msg : Msg) :
    ¬ DropsForGood (depth + 1) s gone msg ∧
      ∃ s', (messageClient (depth + 1) (some gone) msg).run s = .ok () s' ∧
        s'.m_deqConnections = s.m_deqConnections ∧
          ∃ s'', (messageAllClients 2 msg none).run s' = .ok () s'' ∧
            s''.reports gone = s'.reports gone + 1 := by
  have hrun := run_messageClient_closed h hclosed hopen depth msg
  have hlisted : (s.reported gone (before ++ after)).Listed (before ++ gone :: after) :=
    ⟨h.deque, h.nodup⟩
  have hlater := run_messageAllClients_departed hlisted (show some gone ≠ none by simp) hclosed
    hopen 0 msg
  have hagain := reports_departed (s.reported gone (before ++ after)) before gone after msg
  refine ⟨fun hdrops ↦ ?_, _, hrun, rfl, _, hlater, hagain⟩
  have hsame := (hdrops _ hrun).2 2 msg none _ hlater
  omega

theorem not_dropsForGood_three :
    ¬ DropsForGood 1 threeConnections 1 (.new .startGame) ∧
      ∃ s', (messageClient 1 (some 1) (.new .startGame)).run threeConnections = .ok () s' ∧
        s'.m_deqConnections = threeConnections.m_deqConnections ∧
          ∃ s'', (messageAllClients 2 (.new .startGame) none).run s' = .ok () s'' ∧
            s''.reports 1 = s'.reports 1 + 1 :=
  @not_dropsForGood threeConnections [0] [2] 1 ⟨rfl, by decide⟩ (by simp [IsOpen, threeConnections])
    (by simp [IsOpen, threeConnections]) 0 _

/-- After the call the list is still the one with the closed connection in the middle. -/
theorem not_dropsForGood_middle : ¬ ∀ (s : Server) (refs : List ConnRef) (client : ConnRef),
    s.Listed refs → client ∈ refs → ¬ s.IsOpen client →
      (∀ ref ∈ refs, ref ≠ client → s.IsOpen ref) → DropsForGood 1 s client (.new .startGame) := by
  intro hdrops
  have hlist := hdrops threeConnections [0, 1, 2] 1 ⟨rfl, by decide⟩ (by simp)
    (by simp [IsOpen, threeConnections]) (by simp [IsOpen, threeConnections])
  have hrun : (messageClient 1 (some 1) (.new .startGame)).run threeConnections =
      .ok () (threeConnections.reported 1 [0, 2]) := rfl
  exact absurd (hlist _ hrun).1 (by decide)

end SnekCpp.Server
