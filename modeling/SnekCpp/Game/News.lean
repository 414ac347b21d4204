import SnekCpp.Game.Membership

/-!
# What a client is told

The packets that the server has sent to one client, and what a broadcast adds
to them.
-/

namespace SnekCpp

open Lib Networking

def packetOf (platform : Platform) (msg : Msg) : Packet :=
  (Packet.decode platform msg).toOption.getD .unnamed

theorem Carries.packetOf_eq {platform : Platform} {msg : Msg} {packet : Packet}
    (h : Carries platform msg packet) : packetOf platform msg = packet := by
  rw [packetOf, h.decode]
  rfl

theorem packetOf_startGame {platform : Platform} {msg : Msg} (h : msg.header.id = .startGame) :
    packetOf platform msg = .startGame := by
  rw [packetOf, Packet.decode_of_startGame h]
  rfl

/-- Nothing about a player comes after the packet that is the end of it. -/
def NeverAfter (ending : UInt32 → Packet) (about : UInt32 → Packet → Prop)
    (packets : List Packet) : Prop :=
  packets.Pairwise fun earlier later ↦ ∀ id, earlier = ending id → ¬ about id later

section NeverAfter

variable {ending : UInt32 → Packet} {about : UInt32 → Packet → Prop}

theorem NeverAfter.append {packets fresh : List Packet} (h : NeverAfter ending about packets)
    (hfresh : NeverAfter ending about fresh)
    (hcross : ∀ later ∈ fresh, ∀ id, about id later → ending id ∉ packets) :
    NeverAfter ending about (packets ++ fresh) := by
  refine List.pairwise_append.mpr ⟨h, hfresh, fun earlier hearlier later hlater id hend habout ↦ ?_⟩
  exact hcross later hlater id habout (hend ▸ hearlier)

/-- Packets of which none is about a player that one of them is the end of. -/
theorem neverAfter_of_forall {packets : List Packet}
    (h : ∀ earlier ∈ packets, ∀ later ∈ packets, ∀ id, about id later → ending id ≠ earlier) :
    NeverAfter ending about packets :=
  List.pairwise_of_forall_mem_list fun earlier hearlier later hlater id hend habout ↦
    h earlier hearlier later hlater id habout hend.symm

end NeverAfter

namespace Server

variable (platform : Platform)

/-- The packets sent to one client. -/
def news (s : Server) (r : ConnRef) : List Packet :=
  (sentTo s.log r).map (packetOf platform)

theorem news_congr {s s' : Server} (h : s'.log = s.log) (r : ConnRef) :
    s'.news platform r = s.news platform r := by
  rw [news, news, h]

theorem news_logged (s : Server) (effects : List Effect) (r : ConnRef) :
    (s.logged effects).news platform r =
      s.news platform r ++ (sentTo effects r).map (packetOf platform) := by
  rw [news, logged, sentTo_append, List.map_append]
  rfl

variable {platform} {s s' : Server} {refs refs' : List ConnRef} {msg : Msg}
  {ignoreClient : Option ConnRef}

theorem packetOf_removePlayerMsg {id : UInt32} :
    packetOf platform (removePlayerMsg id.toInt32) = .removePlayer id :=
  (Carries.removePlayerMsg id.toInt32).packetOf_eq

theorem news_sends (hnodup : refs.Nodup) (r : ConnRef) :
    (sentTo (sends msg refs) r).map (packetOf platform) =
      if r ∈ refs then [packetOf platform msg] else [] := by
  split
  · next hmem =>
      rw [sentTo_sends_of_mem hnodup hmem]
      rfl
  · next hmem =>
      rw [sentTo_sends_of_notMem hmem]
      rfl

theorem news_delivered (hnodup : refs.Nodup) (r : ConnRef) :
    (s.logged (sends msg (addressed ignoreClient refs))).news platform r = s.news platform r ++
      if r ∈ addressed ignoreClient refs then [packetOf platform msg] else [] := by
  rw [news_logged, news_sends (nodup_addressed hnodup)]

theorem news_departed {before after : List ConnRef} {gone : ConnRef}
    (hnodup : (before ++ gone :: after).Nodup) (r : ConnRef) :
    (s.departed msg ignoreClient before gone after).news platform r = s.news platform r ++
      ((if r ∈ addressed ignoreClient before then [packetOf platform msg] else []) ++
        (if r ∈ before ++ after then [.removePlayer (s.getID gone)] else []) ++
          if r ∈ addressed ignoreClient after then [packetOf platform msg] else []) := by
  have hnodup' := (List.nodup_cons.mp ((List.perm_middle.nodup_iff).mp hnodup)).2
  obtain ⟨hbefore, hafter, -⟩ := List.nodup_append.mp hnodup'
  have hlogged : (s.departed msg ignoreClient before gone after).news platform r =
      (s.logged (s.departure msg ignoreClient before gone after)).news platform r := rfl
  have hreport : sentTo [.disconnected (some gone)] r = [] := rfl
  rw [hlogged, news_logged, departure, sentTo_append, sentTo_append, sentTo_append, hreport,
    List.append_nil, List.map_append, List.map_append, news_sends (nodup_addressed hbefore),
    news_sends hnodup', news_sends (nodup_addressed hafter), packetOf_removePlayerMsg]

/-- A broadcast that returns tells its message and at most one removal, of another client. -/
theorem Told.news (h : Told s refs msg ignoreClient s' refs') (hnodup : refs.Nodup) (r : ConnRef) :
    ∃ fresh, s'.news platform r = s.news platform r ++ fresh ∧
      ∀ packet ∈ fresh, packet = packetOf platform msg ∨
        r ∈ refs ∧ ∃ gone ∈ refs, gone ≠ r ∧ some gone ≠ ignoreClient ∧ s'.Left gone ∧
          packet = .removePlayer (s.getID gone) := by
  cases h with
  | delivered hopen =>
      refine ⟨_, news_delivered hnodup r, fun packet hpacket ↦ .inl ?_⟩
      split at hpacket
      · exact List.mem_singleton.mp hpacket
      · cases hpacket
  | @departed before after gone hrefs hgone hclosed hopen =>
      subst hrefs
      have hnot := (List.nodup_cons.mp ((List.perm_middle.nodup_iff).mp hnodup)).1
      refine ⟨_, news_departed hnodup r, fun packet hpacket ↦ ?_⟩
      rcases List.mem_append.mp hpacket with hpacket | hpacket
      · rcases List.mem_append.mp hpacket with hpacket | hpacket
        · split at hpacket
          · exact .inl (List.mem_singleton.mp hpacket)
          · cases hpacket
        · split at hpacket
          · next hmem =>
              refine .inr ⟨?_, gone, by simp, fun heq ↦ hnot (heq ▸ hmem), hgone,
                (left_departed gone).mpr (.inr rfl), List.mem_singleton.mp hpacket⟩
              exact mem_of_mem_others hmem
          · cases hpacket
      · split at hpacket
        · exact .inl (List.mem_singleton.mp hpacket)
        · cases hpacket

theorem Told.news_of_notMem (h : Told s refs msg ignoreClient s' refs') (hnodup : refs.Nodup)
    {r : ConnRef} (hr : r ∉ refs) : s'.news platform r = s.news platform r := by
  have hnot : ∀ part : List ConnRef, (∀ ref ∈ part, ref ∈ refs) →
      r ∉ part ∧ r ∉ addressed ignoreClient part := by
    intro part hpart
    exact ⟨fun hmem ↦ hr (hpart r hmem), fun hmem ↦ hr (hpart r (mem_addressed.mp hmem).1)⟩
  cases h with
  | delivered hopen =>
      rw [news_delivered hnodup, if_neg (hnot refs fun _ h ↦ h).2, List.append_nil]
  | @departed before after gone hrefs =>
      subst hrefs
      rw [news_departed hnodup, if_neg (hnot before (by simp +contextual)).2,
        if_neg (hnot (before ++ after) (by simp +contextual [or_imp])).1,
        if_neg (hnot after (by simp +contextual)).2, List.append_nil, List.append_nil,
        List.append_nil]

/-- Every client that is left and not ignored is told the message once.  Around
it there may be the removal of a player that is gone then. -/
theorem Told.once (h : Told s refs msg ignoreClient s' refs') (hnodup : refs.Nodup) (r : ConnRef) :
    ∃ before after, s'.news platform r = s.news platform r ++
        (before ++ (if r ∈ addressed ignoreClient refs' then [packetOf platform msg] else []) ++
          after) ∧
      ∀ packet ∈ before ++ after, ∃ id, id ∉ s'.players ∧ packet = .removePlayer id := by
  cases h with
  | delivered hopen =>
      exact ⟨[], [], by rw [news_delivered hnodup, List.nil_append, List.append_nil], by simp⟩
  | @departed before after gone hrefs hgone hclosed hopen =>
      subst hrefs
      have hnodup' := (List.nodup_cons.mp ((List.perm_middle.nodup_iff).mp hnodup)).2
      have hdisjoint := (List.nodup_append.mp hnodup').2.2
      have hremoved : s.getID gone ∉
          (s.departed msg ignoreClient before gone after).players := fun hmem ↦
        (AList.mem_erase.mp hmem).1 rfl
      have hnot : ∀ part, r ∉ part → r ∉ addressed ignoreClient part := fun part hr hmem ↦
        hr (mem_addressed.mp hmem).1
      have haddressed : r ∈ addressed ignoreClient (before ++ after) ↔
          r ∈ addressed ignoreClient before ∨ r ∈ addressed ignoreClient after := by
        simp only [mem_addressed, List.mem_append]
        tauto
      rw [news_departed hnodup]
      by_cases hbefore : r ∈ before
      · have hafter := hnot after fun hafter ↦ hdisjoint r hbefore r hafter rfl
        refine ⟨[], [.removePlayer (s.getID gone)], ?_, by simpa using hremoved⟩
        simp only [haddressed, hbefore, hafter, List.mem_append, true_or, or_false, if_true,
          if_false, List.append_nil, List.nil_append]
      · by_cases hafter : r ∈ after
        · refine ⟨[.removePlayer (s.getID gone)], [], ?_, by simpa using hremoved⟩
          simp only [haddressed, hnot before hbefore, hafter, List.mem_append, or_true, false_or,
            if_true, if_false, List.append_nil, List.nil_append]
        · refine ⟨[], [], ?_, by simp⟩
          simp only [haddressed, hnot before hbefore, hnot after hafter, hbefore, hafter,
            List.mem_append, or_false, if_false, List.append_nil]

/-- One that fails tells its message first and removals after it. -/
theorem Overflows.news (h : Overflows s refs msg s') (r : ConnRef) :
    ∃ told removed, s'.news platform r = s.news platform r ++ told ++ removed ∧
      (∀ packet ∈ told, packet = packetOf platform msg) ∧
        ∀ packet ∈ removed, r ∈ refs ∧
          ∃ gone ∈ refs, gone ≠ r ∧ packet = .removePlayer (s.getID gone) := by
  obtain ⟨reached, removals, -, hremovals, rfl⟩ := h
  refine ⟨(sentTo (sends msg reached) r).map (packetOf platform),
    (sentTo removals r).map (packetOf platform), ?_, fun packet hpacket ↦ ?_, fun packet hpacket ↦ ?_⟩
  · rw [news_logged, sentTo_append, List.map_append, List.append_assoc]
  · obtain ⟨m, hm, rfl⟩ := List.mem_map.mp hpacket
    rw [eq_of_mem_sentTo_sends hm]
  · obtain ⟨m, hm, rfl⟩ := List.mem_map.mp hpacket
    obtain ⟨hr, hopen, gone, hgone, hclosed, rfl⟩ := hremovals _ (mem_sentTo.mp hm)
    exact ⟨hr, gone, hgone, fun heq ↦ hclosed (heq ▸ hopen), packetOf_removePlayerMsg⟩

/-! ## The order of the news -/

section NeverAfter

variable {ending : UInt32 → Packet} {about : UInt32 → Packet → Prop}

/-- A broadcast keeps the order if no end of what it is about has been told. -/
theorem Told.neverAfter (h : Told s refs msg ignoreClient s' refs') (hnodup : refs.Nodup)
    {r : ConnRef} (hold : NeverAfter ending about (s.news platform r))
    (hremoval : ∀ id gone, ¬ about id (.removePlayer gone))
    (hmsg : ∀ id, about id (packetOf platform msg) → ending id ∉ s.news platform r ∧
      ending id ≠ packetOf platform msg ∧ ∀ gone ∈ refs, some gone ≠ ignoreClient →
        ending id ≠ .removePlayer (s.getID gone)) :
    NeverAfter ending about (s'.news platform r) := by
  obtain ⟨fresh, hnews, hfresh⟩ := @Told.news platform _ _ _ _ _ _ h hnodup r
  have habout : ∀ packet ∈ fresh, ∀ id, about id packet → about id (packetOf platform msg) := by
    intro packet hpacket id hid
    rcases hfresh packet hpacket with rfl | ⟨-, gone, -, -, -, -, rfl⟩
    · exact hid
    · exact absurd hid (hremoval id _)
  rw [hnews]
  apply hold.append
  · apply neverAfter_of_forall
    intro earlier hearlier later hlater id hid
    obtain ⟨-, hself, hgone⟩ := hmsg id (habout later hlater id hid)
    rcases hfresh earlier hearlier with rfl | ⟨-, gone, hmem, -, hne, -, rfl⟩
    · exact hself
    · exact hgone gone hmem hne
  · intro later hlater id hid
    exact (hmsg id (habout later hlater id hid)).1

theorem Overflows.neverAfter (h : Overflows s refs msg s') {r : ConnRef}
    (hold : NeverAfter ending about (s.news platform r))
    (hremoval : ∀ id gone, ¬ about id (.removePlayer gone))
    (hmsg : ∀ id, about id (packetOf platform msg) → ending id ∉ s.news platform r ∧
      ending id ≠ packetOf platform msg) :
    NeverAfter ending about (s'.news platform r) := by
  obtain ⟨told, removed, hnews, htold, hremoved⟩ := @Overflows.news platform _ _ _ _ h r
  have hquiet : ∀ later ∈ removed, ∀ id, ¬ about id later := by
    intro later hlater id hid
    obtain ⟨-, gone, -, -, rfl⟩ := hremoved later hlater
    exact hremoval id _ hid
  rw [hnews]
  apply NeverAfter.append
  · apply hold.append
    · apply neverAfter_of_forall
      intro earlier hearlier later hlater id hid
      rw [htold earlier hearlier]
      rw [htold later hlater] at hid
      exact (hmsg id hid).2
    · intro later hlater id hid
      rw [htold later hlater] at hid
      exact (hmsg id hid).1
  · apply neverAfter_of_forall
    exact fun earlier _ later hlater id hid ↦ absurd hid (hquiet later hlater id)
  · exact fun later hlater id hid ↦ absurd hid (hquiet later hlater id)

end NeverAfter

theorem AtLarge.packet (h : AtLarge msg) :
    packetOf platform msg = .startGame ∨ (∃ powerup, packetOf platform msg = .newPowerup powerup) ∨
      ∃ powerup, packetOf platform msg = .powerupEaten powerup := by
  cases h with
  | startGame hid => exact .inl (packetOf_startGame hid)
  | newPowerup powerup => exact .inr (.inl ⟨powerup, (Carries.newPowerupMsg powerup).packetOf_eq⟩)
  | powerupEaten powerup =>
      exact .inr (.inr ⟨powerup, (Carries.powerupEatenMsg powerup).packetOf_eq⟩)

theorem news_welcomed {env : Env} {r r' : ConnRef} {spawnpoint : Position} :
    (s.welcomed platform env r spawnpoint).news platform r' =
      s.news platform r' ++
        if r' = r then [packetOf platform (s.snapshotMsg platform env r spawnpoint)] else [] := by
  rw [Server.news, welcomed, sentTo_append, List.map_append]
  by_cases heq : r' = r
  · subst heq
    simp [sentTo]
    rfl
  · have hne : ¬ r = r' := fun h ↦ heq h.symm
    simp [sentTo, heq, hne]
    rfl

end Server

end SnekCpp
