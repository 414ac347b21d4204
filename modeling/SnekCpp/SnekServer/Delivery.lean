import SnekCpp.SnekServer.Broadcast

/-!
# Exactly-once delivery

A broadcast that meets at most one closed client.  Every open client that it
does not ignore is sent the message once; if it meets a closed one, every open
client is sent the news of that one once, the ignored client included.
-/

namespace SnekCpp.Server

open Lib Networking

/-- What a broadcast of `msg` over the connections `refs` has done when it has
led from `s` to `s'` with the effects `effects`. -/
structure ExactlyOnce (s : Server) (refs : List ConnRef) (msg : Msg)
    (ignoreClient : Option ConnRef) (s' : Server) (effects : List Effect) : Prop where
  log : s'.log = s.log ++ effects
  /-- Nothing is sent to a closed connection or to one that is not listed. -/
  nobodyElse : ∀ r, ¬ (r ∈ refs ∧ s.IsOpen r) → sentTo effects r = []
  /-- No closed client, or only the ignored one. -/
  unmet : (∀ r ∈ refs, ¬ s.IsOpen r → some r = ignoreClient) →
    (∀ r ∈ refs, s.IsOpen r → sentTo effects r = if some r = ignoreClient then [] else [msg]) ∧
      s'.m_deqConnections = s.m_deqConnections ∧ s'.players = s.players
  /-- The closed client is not the ignored one. -/
  met : ∀ gone ∈ refs, ¬ s.IsOpen gone → some gone ≠ ignoreClient →
    (∀ r ∈ refs, s.IsOpen r → (sentTo effects r).Perm
      ((if some r = ignoreClient then [] else [msg]) ++
        [removePlayerMsg (s.getID gone).toInt32])) ∧
      s'.m_deqConnections = s.m_deqConnections.filter (· ≠ some gone) ∧
      ∀ id, s'.players.lookup id = if id = s.getID gone then none else s.players.lookup id

variable {s : Server} {refs before after : List ConnRef} {gone : ConnRef} {msg : Msg}
  {ignoreClient : Option ConnRef}

theorem sentTo_sends_addressed (hnodup : refs.Nodup) (msg : Msg) (r : ConnRef) :
    sentTo (sends msg (addressed ignoreClient refs)) r =
      if r ∈ refs ∧ some r ≠ ignoreClient then [msg] else [] := by
  split
  · next hmem => exact sentTo_sends_of_mem (nodup_addressed hnodup) (mem_addressed.mpr hmem)
  · next hmem => exact sentTo_sends_of_notMem fun h ↦ hmem (mem_addressed.mp h)

/-- What the connections are sent while `gone` departs: the message before or
after the news of the departure, by the place in the list. -/
theorem sentTo_departure_perm (s : Server) (msg : Msg) (ignoreClient : Option ConnRef)
    (before : List ConnRef) (gone : ConnRef) (after : List ConnRef) (r : ConnRef) :
    (sentTo (s.departure msg ignoreClient before gone after) r).Perm
      (sentTo (sends msg (addressed ignoreClient (before ++ after))) r ++
        sentTo (sends (removePlayerMsg (s.getID gone).toInt32) (before ++ after)) r) := by
  have hsplit : sentTo (sends msg (addressed ignoreClient (before ++ after))) r =
      sentTo (sends msg (addressed ignoreClient before)) r ++
        sentTo (sends msg (addressed ignoreClient after)) r := by
    rw [addressed_append, sends, List.map_append, sentTo_append]
    rfl
  have hreport : sentTo [.disconnected (some gone)] r = [] := rfl
  rw [hsplit, departure, sentTo_append, sentTo_append, sentTo_append, hreport, List.append_nil,
    List.append_assoc, List.append_assoc]
  exact (List.perm_append_comm).append_left _

theorem filter_ne_gone (hnodup : (before ++ gone :: after).Nodup) :
    ((before ++ gone :: after).map some).filter (· ≠ some gone) = (before ++ after).map some := by
  have hrest := addressed_some hnodup
  rw [List.filter_map]
  exact congrArg (List.map some) hrest

theorem exactlyOnce_of_open (h : s.Listed refs)
    (hopen : ∀ ref ∈ addressed ignoreClient refs, s.IsOpen ref) (msg : Msg) :
    ExactlyOnce s refs msg ignoreClient (s.logged (sends msg (addressed ignoreClient refs)))
      (sends msg (addressed ignoreClient refs)) where
  log := rfl
  nobodyElse r hr := by
    apply sentTo_sends_of_notMem
    intro hmem
    exact hr ⟨(mem_addressed.mp hmem).1, hopen r hmem⟩
  unmet _ := by
    refine ⟨fun r hr _ ↦ ?_, rfl, rfl⟩
    rw [sentTo_sends_addressed h.nodup]
    by_cases hignored : some r = ignoreClient
    · simp [hignored]
    · simp [hr, hignored]
  met gone hgone hclosed hne := absurd (hopen gone (mem_addressed.mpr ⟨hgone, hne⟩)) hclosed

theorem exactlyOnce_of_departed (h : s.Listed (before ++ gone :: after))
    (hgone : some gone ≠ ignoreClient) (hclosed : ¬ s.IsOpen gone)
    (hopen : ∀ ref ∈ before ++ after, s.IsOpen ref) (msg : Msg) :
    ExactlyOnce s (before ++ gone :: after) msg ignoreClient
      (s.departed msg ignoreClient before gone after)
      (s.departure msg ignoreClient before gone after) where
  log := rfl
  nobodyElse r hr := by
    have hnodup := (List.nodup_cons.mp ((List.perm_middle.nodup_iff).mp h.nodup)).2
    have hnot : r ∉ before ++ after := fun hmem ↦
      hr ⟨mem_of_mem_others hmem, hopen r hmem⟩
    have hperm := sentTo_departure_perm s msg ignoreClient before gone after r
    rw [sentTo_sends_addressed hnodup, if_neg fun h ↦ hnot h.1, sentTo_sends_of_notMem hnot] at hperm
    exact hperm.eq_nil
  unmet hall := absurd (hall gone (by simp) hclosed) hgone
  met gone' hgone' hclosed' _ := by
    have hnodup := (List.nodup_cons.mp ((List.perm_middle.nodup_iff).mp h.nodup)).2
    -- the client that the broadcast meets is the only closed one
    have hmem : ∀ r ∈ before ++ gone :: after, r = gone ∨ r ∈ before ++ after := fun r hr ↦
      List.mem_cons.mp ((List.perm_middle.mem_iff).mp hr)
    obtain rfl : gone' = gone := (hmem gone' hgone').resolve_right fun hr ↦ hclosed' (hopen gone' hr)
    refine ⟨fun r hr hrOpen ↦ ?_, ?_, fun id ↦ AssocMap.lookup_erase_eq _ _ _⟩
    · have hr' : r ∈ before ++ after := (hmem r hr).resolve_left fun heq ↦ hclosed' (heq ▸ hrOpen)
      have hperm := sentTo_departure_perm s msg ignoreClient before gone' after r
      rw [sentTo_sends_addressed hnodup, sentTo_sends_of_mem hnodup hr'] at hperm
      by_cases hignored : some r = ignoreClient
      · simpa [hignored] using hperm
      · simpa [hr', hignored] using hperm
    · rw [h.deque, filter_ne_gone h.nodup]
      rfl

/-- With at most one closed connection a broadcast returns, and delivers exactly once. -/
theorem messageAllClients_exactlyOnce (h : s.Listed refs) (hclosed : s.AtMostOneClosed refs)
    (depth : ℕ) (msg : Msg) (ignoreClient : Option ConnRef) :
    ∃ s' effects, (messageAllClients (depth + 2) msg ignoreClient).run s = .ok () s' ∧
      ExactlyOnce s refs msg ignoreClient s' effects := by
  by_cases hall : ∀ ref ∈ addressed ignoreClient refs, s.IsOpen ref
  · exact ⟨_, _, run_messageAllClients_open h hall _ msg, exactlyOnce_of_open h hall msg⟩
  · obtain ⟨before, gone, after, rfl, hgone, hgoneClosed, hopen⟩ := exists_only_closed h hclosed hall
    exact ⟨_, _, run_messageAllClients_departed h hgone hgoneClosed hopen depth msg,
      exactlyOnce_of_departed h hgone hgoneClosed hopen msg⟩

/-- Three connections: the second one is closed and the third one is ignored. -/
def threeConnections : Server :=
  { m_deqConnections := [some 0, some 1, some 2]
    getID := fun ref ↦ UInt32.ofNat (10000 + ref)
    isConnected := (· ≠ 1) }

theorem messageAllClients_exactlyOnce_three :
    ∃ s' effects,
      (messageAllClients 2 (.new .startGame) (some 2)).run threeConnections = .ok () s' ∧
        ExactlyOnce threeConnections [0, 1, 2] (.new .startGame) (some 2) s' effects :=
  messageAllClients_exactlyOnce ⟨rfl, by decide⟩
    (by simp [AtMostOneClosed, IsOpen, threeConnections]) 0 _ _

end SnekCpp.Server
