import SnekCpp.Game.Clients
import SnekCpp.Game.DeadPlayers

/-!
# Roster agreement

Every packet about a player makes the player known to the client that handles
it, also one that arrives after the player's removal.  The set of players that
the packets of a stream leave behind is compared with the server's players.
-/

namespace SnekCpp

open Lib Networking

/-- The players that a client knows after a packet. -/
def Packet.known (ids : Finset UInt32) : Packet → Finset UInt32
  | .serverValidation _ _ roster => ids ∪ (roster.map Prod.fst).toFinset
  | .newPlayer id _ _ => insert id ids
  | .removePlayer id => ids.erase id
  | .updatePlayer id _ _ => insert id ids
  | .killPlayer id => insert id ids
  | _ => ids

def known (packets : List Packet) : Finset UInt32 := packets.foldl Packet.known ∅

def Server.ids (s : Server) : Finset UInt32 := s.players.keys.toFinset

/-- The collision check will find the reported head on a cell. -/
def Report.Touches (report : Report) (s : Server) : Prop :=
  ∃ head ∈ report.tail.head?, head ∈ report.tail.drop 4 ∨
    ∃ entry ∈ s.players.entries, entry.1 ≠ report.id ∧ head ∈ entry.2.tail

instance (report : Report) (s : Server) : Decidable (report.Touches s) := by
  unfold Report.Touches
  cases report.tail.head? with
  | none => exact .isFalse (by simp)
  | some head => exact decidable_of_iff (head ∈ report.tail.drop 4 ∨
      ∃ entry ∈ s.players.entries, entry.1 ≠ report.id ∧ head ∈ entry.2.tail) (by simp)

/-- No client is killed whose connection is found closed by the news of its
death and has other connections behind it, and no id is given out twice. -/
def KillsLast (platform : Platform) (S : System) : Event → Prop
  | .accept => S.server.approved < 2 ^ 32
  | .update _ => ∀ report ∈ S.nextReport platform,
      S.server.isConnected report.client = false → ¬ S.server.Left report.client →
        report.Touches S.server → S.server.m_deqConnections.getLast? = some (some report.client)
  | _ => True

instance (platform : Platform) (S : System) (e : Event) : Decidable (KillsLast platform S e) := by
  rcases e <;> unfold KillsLast <;> infer_instance

/-- The client has read all that was sent to it, and handled all it has read. -/
structure System.Drained (S : System) (r : ConnRef) : Prop where
  stream : (S.peers r).reader.consumed = (S.downstream r).length
  queue : (S.peers r).m_qMessagesIn = []

instance (S : System) (r : ConnRef) : Decidable (S.Drained r) :=
  decidable_of_iff ((S.peers r).reader.consumed = (S.downstream r).length ∧
    (S.peers r).m_qMessagesIn = []) ⟨fun h ↦ ⟨h.1, h.2⟩, fun h ↦ ⟨h.stream, h.queue⟩⟩

/-- While the server runs and all streams to clients are drained, its validated
and connected clients know the players that it has. -/
def System.RostersAgree (S : System) : Prop :=
  S.fault = none → (∀ r < S.server.approved, S.Drained r) →
    ∀ r, S.server.isConnected r = true → S.server.Validated r →
      ∀ id, id ∈ (S.peers r).client.players ↔ id ∈ S.server.players

/-! ## What packets leave behind -/

theorem known_append_singleton (packets : List Packet) (packet : Packet) :
    known (packets ++ [packet]) = packet.known (known packets) := by
  rw [known, List.foldl_append]
  rfl

namespace Server

theorem mem_ids {s : Server} {id : UInt32} : id ∈ s.ids ↔ id ∈ s.players := by
  rw [ids, List.mem_toFinset]
  exact AList.mem_keys.symm

/-- Each connection will know the server's players, once it has heard what is
still due to it. -/
structure Rosters (platform : Platform) (due : ConnRef → Finset UInt32) (s : Server)
    (refs : List ConnRef) : Prop extends Membership s refs where
  agree : ∀ r ∈ refs, s.Validated r → due r ∪ known (s.news platform r) = s.ids
  waiting : ∀ r ∈ refs, ¬ s.Validated r → due r ∪ known (s.news platform r) ⊆ s.ids
  own : ∀ r, .removePlayer (idOf r) ∉ s.news platform r
  unheard : ∀ r, s.approved ≤ r → s.news platform r = []

/-- What a broadcast of news about players is to tell. -/
def dueFrom (ignoreClient : Option ConnRef) (about : Finset UInt32) (r : ConnRef) :
    Finset UInt32 :=
  if some r = ignoreClient then ∅ else about

/-- A message that makes players known and removes none. -/
structure MakesKnown (platform : Platform) (msg : Msg) (about : Finset UInt32) : Prop where
  known : ∀ ids, (packetOf platform msg).known ids = about ∪ ids
  removal : ∀ id, packetOf platform msg ≠ .removePlayer id

theorem AtLarge.makesKnown {platform : Platform} {msg : Msg} (h : AtLarge msg) :
    MakesKnown platform msg ∅ := by
  rcases @AtLarge.packet platform _ h with heq | ⟨powerup, heq⟩ | ⟨powerup, heq⟩
  · exact ⟨fun ids ↦ by rw [heq, Finset.empty_union]; rfl, fun id ↦ by rw [heq]; simp⟩
  · exact ⟨fun ids ↦ by rw [heq, Finset.empty_union]; rfl, fun id ↦ by rw [heq]; simp⟩
  · exact ⟨fun ids ↦ by rw [heq, Finset.empty_union]; rfl, fun id ↦ by rw [heq]; simp⟩

theorem MakesKnown.of_carries {platform : Platform} {msg : Msg} {packet : Packet} {id : UInt32}
    (h : Carries platform msg packet) (hknown : ∀ ids, packet.known ids = insert id ids)
    (hremoval : ∀ id, packet ≠ .removePlayer id) : MakesKnown platform msg {id} := by
  rw [← h.packetOf_eq] at hknown hremoval
  exact ⟨fun ids ↦ by rw [hknown, Finset.insert_eq], hremoval⟩

section Broadcast

variable {platform : Platform} {s s' : Server} {refs refs' : List ConnRef} {msg : Msg}
  {ignoreClient : Option ConnRef} {about : Finset UInt32}

theorem known_addressed (hmsg : MakesKnown platform msg about) {packets : List Packet}
    {r : ConnRef} {part : List ConnRef} (hr : r ∈ part) :
    known (packets ++ if r ∈ addressed ignoreClient part then [packetOf platform msg] else []) =
      dueFrom ignoreClient about r ∪ known packets := by
  unfold dueFrom
  by_cases hignored : some r = ignoreClient
  · have hnot : r ∉ addressed ignoreClient part := fun hmem ↦ (mem_addressed.mp hmem).2 hignored
    rw [if_neg hnot, if_pos hignored, List.append_nil, Finset.empty_union]
  · rw [if_pos (mem_addressed.mpr ⟨hr, hignored⟩), if_neg hignored, known_append_singleton,
      hmsg.known]

/-- The order of a message and of the removal in it matters only for clients
behind the removed one, and only if the message is about the removed one. -/
theorem Told.known (h : Told s refs msg ignoreClient s' refs') (hnodup : refs.Nodup)
    (hmsg : MakesKnown platform msg about)
    (hgone : ∀ before gone after, refs = before ++ gone :: after → some gone ≠ ignoreClient →
      ¬ s.IsOpen gone → after = [] ∨ s.getID gone ∉ about) :
    ∃ removed, s'.ids = s.ids \ removed ∧ ∀ r ∈ refs', known (s'.news platform r) =
      (dueFrom ignoreClient about r ∪ known (s.news platform r)) \ removed := by
  cases h with
  | delivered hopen =>
      refine ⟨∅, (Finset.sdiff_empty).symm, fun r hr ↦ ?_⟩
      rw [news_delivered hnodup, known_addressed hmsg hr, Finset.sdiff_empty]
  | @departed before after gone hrefs hne hclosed hopen =>
      subst hrefs
      have hnodup' := (List.nodup_cons.mp ((List.perm_middle.nodup_iff).mp hnodup)).2
      have hdisjoint := (List.nodup_append.mp hnodup').2.2
      refine ⟨{s.getID gone}, ?_, fun r hr ↦ ?_⟩
      · ext id
        rw [mem_ids, Finset.mem_sdiff, Finset.mem_singleton, mem_ids]
        change id ∈ s.players.erase (s.getID gone) ↔ _
        rw [AList.mem_erase]
        exact and_comm
      · rw [news_departed hnodup, if_pos hr, Finset.sdiff_singleton_eq_erase]
        rcases List.mem_append.mp hr with hbefore | hafter
        · have hnot : r ∉ addressed ignoreClient after := fun hmem ↦
            hdisjoint r hbefore r (mem_addressed.mp hmem).1 rfl
          rw [if_neg hnot, List.append_nil, ← List.append_assoc, known_append_singleton,
            known_addressed hmsg hbefore]
          rfl
        · have hnot : r ∉ addressed ignoreClient before := fun hmem ↦
            hdisjoint r (mem_addressed.mp hmem).1 r hafter rfl
          have hother : s.getID gone ∉ dueFrom ignoreClient about r := by
            rcases hgone before gone after rfl hne hclosed with hnil | hnotAbout
            · rw [hnil] at hafter
              cases hafter
            · unfold dueFrom
              split
              · exact Finset.notMem_empty _
              · exact hnotAbout
          rw [if_neg hnot, List.nil_append, ← List.append_assoc, known_addressed hmsg hafter,
            known_append_singleton, Finset.erase_union_distrib, Finset.erase_eq_of_notMem hother]
          rfl

end Broadcast

namespace Rosters

variable {platform : Platform} {s s' : Server} {refs refs' : List ConnRef} {msg : Msg}
  {ignoreClient : Option ConnRef} {about : Finset UInt32} {due : ConnRef → Finset UInt32}
  {r : ConnRef} {env : Env} {depth : ℕ}

theorem own_told (h : s.Rosters platform due refs) (hmsg : MakesKnown platform msg about)
    (htold : Told s refs msg ignoreClient s' refs') (r : ConnRef) :
    .removePlayer (idOf r) ∉ s'.news platform r := by
  intro hmem
  obtain ⟨fresh, hnews, hfresh⟩ := @Told.news platform _ _ _ _ _ _ htold h.listed.nodup r
  rw [hnews] at hmem
  rcases List.mem_append.mp hmem with hmem | hmem
  · exact h.own r hmem
  · rcases hfresh _ hmem with heq | ⟨hr, gone, hgone, hne, -, -, heq⟩
    · exact hmsg.removal _ heq.symm
    · rw [h.getID_of_mem hgone, Packet.removePlayer.injEq] at heq
      exact hne (h.inj (h.lt_of_mem hgone) (h.lt_of_mem hr) heq.symm)

theorem own_overflow (h : s.Rosters platform due refs) (hmsg : MakesKnown platform msg about)
    (hoverflow : Overflows s refs msg s') (r : ConnRef) :
    .removePlayer (idOf r) ∉ s'.news platform r := by
  intro hmem
  obtain ⟨told, removed, hnews, htold, hremoved⟩ := @Overflows.news platform _ _ _ _ hoverflow r
  rw [hnews, List.mem_append, List.mem_append] at hmem
  rcases hmem with (hmem | hmem) | hmem
  · exact h.own r hmem
  · exact hmsg.removal _ (htold _ hmem).symm
  · obtain ⟨hr, gone, hgone, hne, heq⟩ := hremoved _ hmem
    rw [h.getID_of_mem hgone, Packet.removePlayer.injEq] at heq
    exact hne (h.inj (h.lt_of_mem hgone) (h.lt_of_mem hr) heq.symm)

theorem getID_notMem (h : s.Rosters platform due refs) {gone r : ConnRef} (hgone : gone ∈ refs)
    (happroved : r < s.approved) (hne : gone ≠ r) : s.getID gone ∉ ({idOf r} : Finset UInt32) := by
  rw [h.getID_of_mem hgone, Finset.mem_singleton]
  exact fun hid ↦ hne (h.inj (h.lt_of_mem hgone) happroved hid)

theorem told (h : s.Rosters platform (dueFrom ignoreClient about) refs)
    (hmsg : MakesKnown platform msg about) (htold : Told s refs msg ignoreClient s' refs')
    (hgone : ∀ before gone after, refs = before ++ gone :: after → some gone ≠ ignoreClient →
      ¬ s.IsOpen gone → after = [] ∨ s.getID gone ∉ about) :
    s'.Rosters platform (fun _ ↦ ∅) refs' := by
  obtain ⟨removed, hids, hknown⟩ := htold.known h.listed.nodup hmsg hgone
  have hsub : ∀ r ∈ refs', r ∈ refs := fun r hr ↦ htold.mem_of_told hr
  refine ⟨h.toMembership.told htold, fun r hr hvalidated ↦ ?_, fun r hr hnew ↦ ?_,
    h.own_told hmsg htold, fun r hr ↦ ?_⟩
  · rw [Finset.empty_union, hknown r hr, hids,
      h.agree r (hsub r hr) ((htold.extends_.validated_iff r).mp hvalidated)]
  · rw [Finset.empty_union, hknown r hr, hids]
    have hwaiting := h.waiting r (hsub r hr) fun hv ↦ hnew ((htold.extends_.validated_iff r).mpr hv)
    exact Finset.sdiff_subset_sdiff hwaiting (Finset.Subset.refl _)
  · rw [htold.extends_.approved] at hr
    rw [htold.news_of_notMem h.listed.nodup fun hmem ↦ absurd (h.lt_of_mem hmem) (Nat.not_lt.mpr hr)]
    exact h.unheard r hr

/-- News about players that the server has changes nothing. -/
theorem due_of_subset (h : s.Rosters platform (fun _ ↦ ∅) refs) (hdue : ∀ r, due r ⊆ s.ids) :
    s.Rosters platform due refs := by
  refine ⟨h.toMembership, fun r hr hvalidated ↦ ?_, fun r hr hnew ↦ ?_, h.own,
    h.unheard⟩
  · have hagree := h.agree r hr hvalidated
    rw [Finset.empty_union] at hagree
    rw [hagree]
    exact Finset.union_eq_right.mpr (hdue r)
  · have hwaiting := h.waiting r hr hnew
    rw [Finset.empty_union] at hwaiting
    exact Finset.union_subset (hdue r) hwaiting

theorem dueFrom_subset (h : about ⊆ s.ids) (ignoreClient : Option ConnRef) (r : ConnRef) :
    dueFrom ignoreClient about r ⊆ s.ids := by
  unfold dueFrom
  split
  · exact Finset.empty_subset _
  · exact h

theorem congr (h : s.Rosters platform due refs) (hmember : s'.Membership refs)
    (hnews : ∀ r, s'.news platform r = s.news platform r)
    (hvalidated : ∀ r, s'.Validated r ↔ s.Validated r) (hids : s'.ids = s.ids)
    (happroved : s'.approved = s.approved) : s'.Rosters platform due refs := by
  refine ⟨hmember, fun r hr hval ↦ ?_, fun r hr hnew ↦ ?_, fun r ↦ ?_, fun r hr ↦ ?_⟩
  · rw [hnews, hids]
    exact h.agree r hr ((hvalidated r).mp hval)
  · rw [hnews, hids]
    exact h.waiting r hr fun hval ↦ hnew ((hvalidated r).mpr hval)
  · rw [hnews]
    exact h.own r
  · rw [happroved] at hr
    rw [hnews, h.unheard r hr]

theorem onAccept (h : s.Rosters platform (fun _ ↦ ∅) refs) (haccept : s.onClientConnect = true)
    (hfew : s.approved < 2 ^ 32) :
    s.onAccept.Rosters platform (fun _ ↦ ∅) (refs ++ [s.approved]) := by
  have hmember := h.toMembership.onAccept haccept hfew
  have hnew : ¬ s.Validated s.approved := fun hval ↦
    Nat.lt_irrefl _ (h.approvals.validated _ hval)
  unfold Server.onAccept at hmember ⊢
  rw [if_pos haccept] at hmember ⊢
  refine ⟨hmember, fun r hr hval ↦ ?_, fun r hr hwait ↦ ?_, h.own, fun r hr ↦ ?_⟩
  · rcases List.mem_append.mp hr with hr | hr
    · exact h.agree r hr hval
    · rw [List.mem_singleton] at hr
      exact absurd (hr ▸ hval) hnew
  · rcases List.mem_append.mp hr with hr | hr
    · exact h.waiting r hr hwait
    · rw [List.mem_singleton] at hr
      subst hr
      have hnone : s.news platform s.approved = [] := h.unheard _ (Nat.le_refl _)
      change ∅ ∪ known (s.news platform s.approved) ⊆ s.ids
      rw [hnone]
      simp [known]
  · exact h.unheard r (Nat.le_of_succ_le hr)

theorem indifferent (platform : Platform) :
    Indifferent (Rosters platform fun _ ↦ ∅)
      fun _ s ↦ ∀ r, .removePlayer (idOf r) ∉ s.news platform r where
  listed h := h.listed
  fields h powerups gameStarted m_qMessagesIn :=
    h.congr (h.toMembership.fields powerups gameStarted m_qMessagesIn) (fun _ ↦ rfl)
      (fun _ ↦ .rfl) rfl rfl
  told {s refs msg ignoreClient s' refs'} h hmsg htold := by
    have hdue : s.Rosters platform (dueFrom ignoreClient ∅) refs :=
      h.due_of_subset (dueFrom_subset (Finset.empty_subset _) ignoreClient)
    exact hdue.told hmsg.makesKnown htold fun _ _ _ _ _ _ ↦ .inr (Finset.notMem_empty _)
  overflow h hmsg hoverflow := h.own_overflow hmsg.makesKnown hoverflow
  noCell h _ := h.own

/-- The snapshot lists all players, and the others are still to hear of the new one. -/
theorem welcomed (h : s.Rosters platform (fun _ ↦ ∅) refs) (hmem : r ∈ refs)
    (hnew : ¬ s.Validated r) {spawnpoint : Position}
    (hsize : (s.snapshotMsg platform env r spawnpoint).body.length < 2 ^ 32) :
    (s.welcomed platform env r spawnpoint).Rosters platform (dueFrom (some r) {idOf r}) refs := by
  have hpacket := Carries.packetOf_eq (Carries.stateMsg hsize)
  rw [← snapshotMsg] at hpacket
  have hids : (s.welcomed platform env r spawnpoint).ids = {idOf r} ∪ s.ids := by
    ext id
    rw [mem_ids, Finset.mem_union, Finset.mem_singleton, mem_ids]
    change id ∈ s.players.insert (s.getID r) _ ↔ _
    rw [AList.mem_insert, h.getID_of_mem hmem]
  have hroster : (((env.iteration (s.joined env r spawnpoint)).map
      Packet.rosterEntry).reverse.map Prod.fst).toFinset =
        (s.welcomed platform env r spawnpoint).ids := by
    ext id
    rw [mem_ids, List.mem_toFinset, List.map_reverse, List.mem_reverse, List.map_map, List.mem_map]
    constructor
    · rintro ⟨entry, hentry, rfl⟩
      exact AssocMap.mem_of_lookup (env.mem_iteration.mp hentry)
    · intro hid
      obtain ⟨player, hplayer⟩ := AssocMap.lookup_eq_some_of_mem hid
      exact ⟨(id, player), env.mem_iteration.mpr hplayer, rfl⟩
  refine ⟨h.toMembership.welcomed hmem, fun r' hr' hval ↦ ?_, fun r' hr' hnew' ↦ ?_,
    fun r' hown ↦ ?_, fun r' hr' ↦ ?_⟩
  · rw [news_welcomed]
    by_cases heq : r' = r
    · subst heq
      have hwaiting := h.waiting r' hr' hnew
      rw [Finset.empty_union] at hwaiting
      rw [if_pos rfl, dueFrom, if_pos rfl, Finset.empty_union, known_append_singleton, hpacket,
        Packet.known, hroster]
      apply Finset.union_eq_right.mpr
      rw [hids]
      exact hwaiting.trans Finset.subset_union_right
    · have hagree := h.agree r' hr' ((Membership.validated_welcomed.mp hval).resolve_right heq)
      rw [Finset.empty_union] at hagree
      rw [if_neg heq, List.append_nil, dueFrom, if_neg (by simpa using heq), hagree, hids]
  · have hne : r' ≠ r := fun heq ↦ hnew' (Membership.validated_welcomed.mpr (.inr heq))
    have hwaiting := h.waiting r' hr' fun hval ↦
      hnew' (Membership.validated_welcomed.mpr (.inl hval))
    rw [Finset.empty_union] at hwaiting
    rw [news_welcomed, if_neg hne, List.append_nil, dueFrom, if_neg (by simpa using hne), hids]
    exact Finset.union_subset_union (Finset.Subset.refl _) hwaiting
  · rw [news_welcomed] at hown
    rcases List.mem_append.mp hown with hown | hown
    · exact h.own r' hown
    · split at hown
      · rw [List.mem_singleton, hpacket] at hown
        cases hown
      · cases hown
  · have hne : r' ≠ r := fun heq ↦ absurd (h.lt_of_mem hmem) (Nat.not_lt.mpr (heq ▸ hr'))
    rw [news_welcomed, if_neg hne, List.append_nil]
    exact h.unheard r' hr'

theorem ends_onClientValidated (h : s.Rosters platform (fun _ ↦ ∅) refs) (hmem : r ∈ refs)
    (hnew : ¬ s.Validated r)
    (hsize : ∀ spawnpoint ∈ s.spawnpoints.getLast?,
      (s.snapshotMsg platform env r spawnpoint).body.length < 2 ^ 32) :
    Ends (fun s' ↦ ∃ refs', s'.Rosters platform (fun _ ↦ ∅) refs')
      (fun _ s' ↦ ∀ r, .removePlayer (idOf r) ∉ s'.news platform r)
      ((onClientValidated platform env depth r).run s) := by
  have hmsg : ∀ spawnpoint : Position, MakesKnown platform
      (newPlayerMsg platform { direction := .up, tail := [spawnpoint], color := env.color }
        (idOf r)) {idOf r} :=
    fun spawnpoint ↦ .of_carries (.newPlayerMsg (by simp) _) (fun _ ↦ rfl) (by simp)
  apply h.toRoll.ends_onClientValidated (indifferent platform) (h.lt_of_mem hmem)
  · intro r'
    rw [news_logged]
    exact fun hown ↦ h.own r' (by simpa [sentTo] using hown)
  · intro spawnpoint hspawn s' refs' htold
    have hwelcomed := h.welcomed hmem hnew (hsize spawnpoint hspawn)
    apply hwelcomed.told (hmsg spawnpoint) htold
    intro before gone after hrefs hne _
    right
    exact hwelcomed.getID_notMem (by simp [hrefs]) (h.lt_of_mem hmem) fun heq ↦
      hne (congrArg some heq)
  · intro spawnpoint hspawn s' hoverflow
    exact (h.welcomed hmem hnew (hsize spawnpoint hspawn)).own_overflow (hmsg spawnpoint) hoverflow

theorem makesKnown_updatePlayerMsg {r : ConnRef} {tail : List Position} {direction : Direction}
    {clientID : Int32} (hid : clientID.toUInt32 = idOf r)
    (hsize : (SnakeClient.updatePlayerMsg platform tail direction clientID).body.length < 2 ^ 32) :
    MakesKnown platform (SnakeClient.updatePlayerMsg platform tail direction clientID) {idOf r} := by
  rw [← hid]
  exact .of_carries (.updatePlayerMsg hsize) (fun _ ↦ rfl) (by simp)

/-- A client whose player is still there after a relay has not been removed by it. -/
theorem mem_of_told_of_lookup (h : s.Rosters platform (fun _ ↦ ∅) refs) (hvalidated : s.Validated r)
    (htold : Told s refs msg ignoreClient s' refs') {player : PlayerData}
    (hlookup : s'.players.lookup (idOf r) = some player) : r ∈ refs' :=
  ((h.toMembership.told htold).mem_players_iff ((htold.extends_.validated_iff r).mpr hvalidated)).mp
    (AssocMap.mem_of_lookup hlookup)

theorem moved (h : s.Rosters platform (fun _ ↦ ∅) refs) (hvalidated : s.Validated r)
    {tail : List Position} {direction : Direction} {clientID : Int32}
    (hid : clientID.toUInt32 = idOf r)
    (hsize : (SnakeClient.updatePlayerMsg platform tail direction clientID).body.length < 2 ^ 32)
    (htold : Told s refs (SnakeClient.updatePlayerMsg platform tail direction clientID) (some r)
      s' refs') {player : PlayerData} (hlookup : s'.players.lookup (idOf r) = some player) :
    (s'.moved (idOf r) player tail direction).Rosters platform (fun _ ↦ ∅) refs' := by
  have happroved := h.approvals.validated r hvalidated
  have hmem := htold.mem_of_told (h.mem_of_told_of_lookup hvalidated htold hlookup)
  have hplayer : {idOf r} ⊆ s.ids := by
    rw [Finset.singleton_subset_iff, mem_ids, h.mem_players_iff hvalidated]
    exact hmem
  have hrelayed : s'.Rosters platform (fun _ ↦ ∅) refs' := by
    apply (h.due_of_subset (dueFrom_subset hplayer (some r))).told
      (makesKnown_updatePlayerMsg hid hsize) htold
    intro before gone after hrefs hne _
    right
    exact h.getID_notMem (by simp [hrefs]) happroved fun heq ↦ hne (congrArg some heq)
  refine hrelayed.congr (hrelayed.toMembership.moved hlookup tail direction) (fun _ ↦ rfl)
    (fun _ ↦ .rfl) ?_ rfl
  ext id
  rw [mem_ids, mem_ids]
  change id ∈ s'.players.insert (idOf r) _ ↔ _
  rw [AList.mem_insert, or_iff_right_of_imp]
  rintro rfl
  exact AssocMap.mem_of_lookup hlookup

theorem collided (h : s.Rosters platform (fun _ ↦ ∅) refs) (clientID owner : UInt32) :
    (s.logged [.collided clientID owner]).Rosters platform (fun _ ↦ ∅) refs := by
  apply h.congr (h.toMembership.collided clientID owner)
  · intro r'
    rw [news_logged]
    exact List.append_nil _
  · intro r'
    simp [Validated, logged]
  · rfl
  · rfl

/-- A collision that is found after the move can be seen in the report. -/
theorem touches_of_cell (htold : Told s refs msg ignoreClient s' refs') {r : ConnRef}
    {player p : PlayerData} {owner : UInt32} {head : Position} {cells : List Position}
    {direction : Direction}
    (howner : (s'.moved (idOf r) player (head :: cells) direction).players.lookup owner = some p)
    (hcell : head ∈ collisionCells (idOf r) (owner, p)) :
    Report.Touches { client := r, id := idOf r, tail := head :: cells } s := by
  refine ⟨head, rfl, ?_⟩
  by_cases heq : owner = idOf r
  · left
    subst heq
    rw [Server.moved, AList.lookup_insert, Option.some.injEq] at howner
    rw [collisionCells, if_pos rfl, ← howner] at hcell
    exact hcell
  · right
    rw [lookup_moved_ne heq] at howner
    rw [collisionCells, if_neg heq] at hcell
    exact ⟨⟨owner, p⟩, (AssocMap.mem_entries_iff _ _ _).mpr (htold.lookup howner), heq, hcell⟩

theorem eq_nil_of_getLast? {before after : List ConnRef} {gone : ConnRef}
    (hnodup : (before ++ gone :: after).Nodup)
    (hlast : (before ++ gone :: after).getLast? = some gone) : after = [] := by
  by_contra hne
  obtain ⟨last, hend⟩ := Option.isSome_iff_exists.mp (List.getLast?_isSome.mpr hne)
  rw [List.getLast?_append, List.getLast?_cons, hend] at hlast
  have hmem : gone ∈ after := by
    have heq : last = gone := by simpa using hlast
    exact heq ▸ List.mem_of_getLast? hend
  exact (List.nodup_cons.mp ((List.perm_middle.nodup_iff).mp hnodup)).1
    (List.mem_append_right _ hmem)

theorem ends_updatePlayer (h : s.Rosters platform (fun _ ↦ ∅) refs) (hvalidated : s.Validated r)
    {tail : List Position} {direction : Direction} {clientID : Int32}
    (hid : clientID.toUInt32 = idOf r)
    (hsize : (SnakeClient.updatePlayerMsg platform tail direction clientID).body.length < 2 ^ 32)
    (hlast : s.isConnected r = false → r ∈ refs →
      Report.Touches { client := r, id := idOf r, tail } s → refs.getLast? = some r) :
    Ends (fun s' ↦ ∃ refs', s'.Rosters platform (fun _ ↦ ∅) refs')
      (fun _ s' ↦ ∀ r, .removePlayer (idOf r) ∉ s'.news platform r)
      ((onMessage platform env depth r
        (SnakeClient.updatePlayerMsg platform tail direction clientID)).run s) := by
  have happroved := h.approvals.validated r hvalidated
  have hrelay := makesKnown_updatePlayerMsg hid hsize
  have hkill : MakesKnown platform (killPlayerMsg clientID) {idOf r} := by
    rw [← hid]
    exact .of_carries (.killPlayerMsg clientID) (fun _ ↦ rfl) (by simp)
  apply h.toRoll.ends_updatePlayer happroved hid hsize
  · exact fun s' hoverflow ↦ h.own_overflow hrelay hoverflow
  · exact fun s' refs' htold _ ↦ h.own_told hrelay htold
  · exact fun s' refs' player htold hlookup ↦
      ⟨refs', h.moved hvalidated hid hsize htold hlookup⟩
  · exact fun s' refs' player other p htold hlookup _ _ _ _ ↦
      (h.moved hvalidated hid hsize htold hlookup).own
  · intro s' refs' player owner p head rest htold hlookup htail howner hcell
    subst htail
    have hcollided := (h.moved hvalidated hid hsize htold hlookup).collided (idOf r) owner
    have hmem := htold.mem_of_told (h.mem_of_told_of_lookup hvalidated htold hlookup)
    have hplayer : {idOf r} ⊆ ((s'.moved (idOf r) player (head :: rest) direction).logged
        [.collided (idOf r) owner]).ids := by
      rw [Finset.singleton_subset_iff, mem_ids]
      exact (AList.mem_insert _).mpr (.inl rfl)
    apply ends_messageAllClients hcollided.listed
    · intro t refs'' htold'
      refine ⟨refs'', (hcollided.due_of_subset (dueFrom_subset hplayer none)).told hkill htold' ?_⟩
      intro before gone after hrefs _ hclosed
      by_cases hself : gone = r
      · left
        subst hself
        have hdown : s.isConnected gone = false := by
          have hsame : s'.isConnected gone = s.isConnected gone := by
            rw [htold.extends_.isConnected]
          rw [← hsame]
          simpa [IsOpen, Server.moved, logged] using hclosed
        have hrefs' : refs' = refs := htold.refs_eq_of_closed hmem (by simpa [IsOpen] using hdown)
        have hend := hlast hdown hmem (touches_of_cell htold howner hcell)
        rw [← hrefs', hrefs] at hend
        exact eq_nil_of_getLast? (hrefs ▸ hcollided.listed.nodup) hend
      · right
        have happroved' : r < s'.approved := by
          rw [htold.extends_.approved]
          exact happroved
        exact hcollided.getID_notMem (by simp [hrefs]) happroved' hself
    · exact fun t hoverflow ↦ hcollided.own_overflow hkill hoverflow

end Rosters

end Server

theorem rosters_rules (platform : Platform) (depth : ℕ) :
    ServerRules platform depth (fun S e ↦ Framed platform S e ∧ KillsLast platform S e)
      (Server.Rosters platform fun _ ↦ ∅)
      fun _ s ↦ ∀ r, .removePlayer (idOf r) ∉ s.news platform r where
  toIndifferent := Server.Rosters.indifferent platform
  accept {S refs} h hallowed := by
    have hfew : S.server.approved < 2 ^ 32 := hallowed.2
    cases haccept : S.server.onClientConnect with
    | false =>
        refine ⟨refs, ?_⟩
        rwa [Server.onAccept, haccept, if_neg (by simp)]
    | true => exact ⟨_, h.onAccept haccept hfew⟩
  close h r := h.congr (h.toMembership.close r) (fun _ ↦ rfl) (fun _ ↦ .rfl) rfl rfl
  closeDown h _ := h
  validate h hopen hnew hallowed :=
    h.ends_onClientValidated (h.mem_of_isConnected hopen) hnew hallowed.1
  updatePlayer {S refs r env tail direction clientID rest} h hqueue hvalidated hid hsize
      hallowed := by
    have hpopped := (Server.Rosters.indifferent platform).fields h S.server.powerups
      S.server.gameStarted rest
    apply hpopped.ends_updatePlayer hvalidated hid hsize
    intro hclosed hmem htouches
    have hend := hallowed.2 _ (System.nextReport_eq hqueue hsize) hclosed
      ((h.mem_iff r).mp hmem).2 (hid ▸ htouches)
    rw [h.listed.deque, List.getLast?_map] at hend
    simpa using hend

/-! ## The clients -/

/-- A client that knows the players of `ids` knows those that the packet leaves. -/
theorem mem_handlePacket {client : SnakeClient} {ids : Finset UInt32}
    (h : ∀ id, id ∈ client.players ↔ id ∈ ids) (packet : Packet) (id : UInt32) :
    id ∈ (client.handlePacket packet).players ↔ id ∈ packet.known ids := by
  cases packet with
  | serverValidation clientID powerups roster =>
      simp only [SnakeClient.handlePacket, mem_insertEntries, Packet.known, Finset.mem_union,
        List.mem_toFinset, h]
      exact or_comm
  | newPlayer id' color tail =>
      simp only [SnakeClient.handlePacket, SnakeClient.insertEntry, AList.mem_insert, Packet.known,
        Finset.mem_insert, h]
  | removePlayer id' =>
      simp only [SnakeClient.handlePacket, AList.mem_erase, Packet.known, Finset.mem_erase, h, ne_eq]
  | updatePlayer id' direction tail =>
      simp only [SnakeClient.handlePacket, AList.mem_insert, AssocMap.mem_subscript, Packet.known,
        Finset.mem_insert, h]
      exact ⟨fun hor ↦ hor.elim .inl fun hor ↦ hor, .inr⟩
  | killPlayer id' =>
      simp only [SnakeClient.handlePacket, AList.mem_insert, AssocMap.mem_subscript, Packet.known,
        Finset.mem_insert, h]
      exact ⟨fun hor ↦ hor.elim .inl fun hor ↦ hor, .inr⟩
  | _ => exact h id

/-- Only its removal makes a player unknown. -/
theorem mem_known_of_mem {packet : Packet} {ids : Finset UInt32} {id : UInt32} (h : id ∈ ids)
    (hpacket : packet ≠ .removePlayer id) : id ∈ packet.known ids := by
  cases packet with
  | serverValidation clientID powerups roster => exact Finset.mem_union_left _ h
  | newPlayer id' color tail => exact Finset.mem_insert_of_mem h
  | removePlayer id' =>
      refine Finset.mem_erase.mpr ⟨fun heq ↦ hpacket ?_, h⟩
      rw [heq]
  | updatePlayer id' direction tail => exact Finset.mem_insert_of_mem h
  | killPlayer id' => exact Finset.mem_insert_of_mem h
  | _ => exact h

/-- The players of a client are those that the packets it has handled leave. -/
structure Learnt (r : ConnRef) (packets : List Packet) (client : SnakeClient) : Prop where
  players : ∀ id, id ∈ client.players ↔ id ∈ known packets
  own : client.clientID ≠ -1 → client.ownID = idOf r ∧ idOf r ∈ known packets

theorem learnt_rules (platform : Platform) :
    ClientRules platform (fun r news ↦ .removePlayer (idOf r) ∉ news) Learnt where
  start r := ⟨fun id ↦ by simp [known], fun hne ↦ absurd rfl hne⟩
  plays {r packets client client'} h hplaying hplays := by
    have hne : client.clientID ≠ -1 := fun heq ↦ by
      rw [heq] at hplaying
      exact absurd hplaying (by decide)
    obtain ⟨hid, hown⟩ := h.own hne
    refine ⟨fun id ↦ ?_, fun _ ↦ ?_⟩
    · rw [hplays.mem_players_iff, h.players]
      rw [hid, h.players]
      exact hown
    · rw [SnakeClient.ownID, hplays.clientID]
      exact ⟨hid, hown⟩
  handle {r packets packet rest client} h hnews haddressed hid := by
    have hpacket : packet ≠ .removePlayer (idOf r) := fun heq ↦ hnews (by simp [heq])
    refine ⟨fun id ↦ ?_, fun hne ↦ ?_⟩
    · rw [known_append_singleton]
      exact mem_handlePacket h.players packet id
    · rw [known_append_singleton]
      by_cases hkept : (client.handlePacket packet).clientID = client.clientID
      · rw [hkept] at hne
        obtain ⟨hown, hmem⟩ := h.own hne
        refine ⟨?_, mem_known_of_mem hmem hpacket⟩
        rw [SnakeClient.ownID, hkept]
        exact hown
      · cases packet with
        | serverValidation clientID powerups roster =>
            obtain ⟨msg, hmsg⟩ := haddressed
            obtain ⟨rfl, hmem⟩ := hmsg.id _ _ _ rfl
            refine ⟨UInt32.toUInt32_toInt32 _, Finset.mem_union_right _ ?_⟩
            exact List.mem_toFinset.mpr hmem
        | _ => exact absurd rfl hkept

/-- A client that has handled all that was sent to it. -/
theorem InStream.learnt_eq {platform : Platform} {toClient : List Msg} {peer : Peer}
    (h : InStream platform toClient peer) (hqueue : peer.m_qMessagesIn = [])
    (hstream : peer.reader.consumed = (stream toClient).length) :
    peer.learnt platform = toClient.map (packetOf platform) := by
  have hunread := h.reader.unread_eq_nil hstream
  have hall := h.learnt_append
  rw [hqueue, List.map_nil, List.append_nil] at hall
  rw [hall, List.take_of_length_le]
  rw [List.length_map]
  exact List.drop_eq_nil_iff.mp hunread

/-- The rosters agree in every run in which no client is killed whose
connection is closed and has other connections behind it. -/
theorem rostersAgree_of_reaches {platform : Platform} {depth : ℕ} {S : System}
    (h : Reaches (System.step platform depth)
      (fun S e ↦ Framed platform S e ∧ KillsLast platform S e) {} S) : S.RostersAgree := by
  have hrosters : ∀ S, Reaches (System.step platform depth)
      (fun S e ↦ Framed platform S e ∧ KillsLast platform S e) {} S →
        Holds (Server.Rosters platform fun _ ↦ ∅)
          (fun _ s ↦ ∀ r, .removePlayer (idOf r) ∉ s.news platform r) S := by
    intro S h
    apply Holds.of_reaches (rosters_rules platform depth)
      (fun h ↦ (Sound.of_reaches (h.mono fun _ _ h ↦ h.1)).toReporting) ?_ h
    exact ⟨.init, fun r hr _ ↦ (by cases hr), fun r hr _ ↦ (by cases hr),
      fun r hmem ↦ (by cases hmem), fun r _ ↦ rfl⟩
  have hnews : ∀ S, Reaches (System.step platform depth)
      (fun S e ↦ Framed platform S e ∧ KillsLast platform S e) {} S →
        ∀ r, .removePlayer (idOf r) ∉ S.server.news platform r := by
    intro S h r
    cases hfault : S.fault with
    | none =>
        obtain ⟨refs, hup⟩ := (hrosters S h).up hfault
        exact hup.own r
    | some fault => exact (hrosters S h).down fault hfault r
  intro hup hdrained r hopen hvalidated id
  obtain ⟨refs, hserver⟩ := (hrosters S h).up hup
  have hsound := Sound.of_reaches (h.mono fun _ _ h ↦ h.1)
  have hclient := (learnt_rules platform).of_reaches (fun _ _ h ↦ h.1) hnews h r
  have hmem := hserver.mem_of_isConnected hopen
  obtain ⟨hstream, hqueue⟩ := hdrained r (hserver.lt_of_mem hmem)
  rw [hclient.players, (hsound.streams r).learnt_eq hqueue hstream, ← Server.mem_ids,
    ← hserver.agree r hmem hvalidated, Finset.empty_union]
  rfl

theorem rostersAgree_runsInto :
    ∃ S, run (guarded (System.step .x64 8) fun S e ↦ Framed .x64 S e ∧ KillsLast .x64 S e) {}
        runsInto = some S ∧ S.RostersAgree := by
  obtain ⟨S, hrun⟩ : ∃ S, run (guarded (System.step .x64 8)
      fun S e ↦ Framed .x64 S e ∧ KillsLast .x64 S e) {} runsInto = some S :=
    Option.isSome_iff_exists.mp (by decide +kernel)
  exact ⟨S, hrun, rostersAgree_of_reaches (reaches_of_guarded hrun)⟩

/-- The first client dies as its connection is found closed, and the second one
hears of its removal before it hears of its death. -/
def diesLeaving : List Event :=
  runsInto.dropLast ++ [.close 0, .update .plain] ++ List.replicate 15 (.receive 1) ++
    List.replicate 15 (.handle 1) ++ [.frame 0, .receive 0, .receive 0, .handle 0, .handle 0]

theorem not_rostersAgree_diesLeaving :
    ¬ ∀ S, Reaches (System.step .x64 8) (fun _ _ ↦ True) {} S → S.RostersAgree := by
  intro hagree
  obtain ⟨S, hreaches, hcheck⟩ := @exists_reaches_of_run _ _ (System.step .x64 8) {} diesLeaving
    (fun S ↦ decide (S.fault = none ∧ (∀ r < S.server.approved, S.Drained r) ∧
      S.server.isConnected 1 = true ∧ S.server.Validated 1 ∧
        10000 ∈ (S.peers 1).client.players.keys ∧ 10000 ∉ S.server.players.keys))
    (by decide +kernel)
  obtain ⟨hup, hdrained, hopen, hvalidated, hkept, hgone⟩ := of_decide_eq_true hcheck
  have hmem := (hagree S hreaches hup hdrained 1 hopen hvalidated 10000).mp (AList.mem_keys.mpr hkept)
  exact hgone (AList.mem_keys.mp hmem)

end SnekCpp
