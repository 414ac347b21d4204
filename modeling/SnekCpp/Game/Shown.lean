import SnekCpp.Game.Departures
import SnekCpp.Game.Roster
import SnekCpp.SnekServer.Transfer

/-!
# What clients are shown of each other

The snapshot and the packets after it tell a client the color and the cells of
every other snake.  What they have told last is what the server has, although
snapshots, relays and removals of several connections interleave.
-/

namespace SnekCpp

open Lib Networking

/-- What is known of a player after a packet: its color, and its tail as it was
reported last. -/
def Packet.shown (id : UInt32) (view : Option (ImU32 × List Position)) :
    Packet → Option (ImU32 × List Position)
  | .serverValidation _ _ roster =>
      roster.foldl (fun view entry ↦ if entry.1 = id then some entry.2 else view) view
  | .newPlayer id' color tail => if id' = id then some (color, tail) else view
  | .removePlayer id' => if id' = id then none else view
  | .updatePlayer id' _ tail => if id' = id then view.map fun view ↦ (view.1, tail) else view
  | _ => view

def shown (id : UInt32) (packets : List Packet) : Option (ImU32 × List Position) :=
  packets.foldl (Packet.shown id) none

/-- A packet that tells nothing of a player. -/
def Packet.Silent (id : UInt32) (packet : Packet) : Prop :=
  ∀ view, packet.shown id view = view

theorem shown_append (id : UInt32) (xs ys : List Packet) :
    shown id (xs ++ ys) = ys.foldl (Packet.shown id) (shown id xs) :=
  List.foldl_append ..

theorem shown_concat (id : UInt32) (packets : List Packet) (packet : Packet) :
    shown id (packets ++ [packet]) = packet.shown id (shown id packets) :=
  shown_append id packets [packet]

theorem foldl_shown_of_silent {id : UInt32} {packets : List Packet}
    (h : ∀ packet ∈ packets, packet.Silent id) (view : Option (ImU32 × List Position)) :
    packets.foldl (Packet.shown id) view = view := by
  induction packets generalizing view with
  | nil => rfl
  | cons packet packets ih =>
      rw [List.foldl_cons, h packet (List.mem_cons_self ..) view]
      exact ih (fun other hother ↦ h other (List.mem_cons_of_mem _ hother)) view

theorem silent_removePlayer {id gone : UInt32} (h : gone ≠ id) :
    (Packet.removePlayer gone).Silent id :=
  fun _ ↦ if_neg h

/-- A list that names every player at most once shows the entry of each. -/
theorem foldl_roster {roster : List RosterEntry} (hnodup : (roster.map Prod.fst).Nodup)
    {id : UInt32} {entry : ImU32 × List Position} (h : (id, entry) ∈ roster)
    (view : Option (ImU32 × List Position)) :
    roster.foldl (fun view entry ↦ if entry.1 = id then some entry.2 else view) view =
      some entry := by
  induction roster generalizing view with
  | nil => cases h
  | cons first roster ih =>
      obtain ⟨hfirst, hrest⟩ := List.nodup_cons.mp hnodup
      rw [List.foldl_cons]
      rcases List.mem_cons.mp h with rfl | hmem
      · simp only [if_true]
        have hothers : ∀ other ∈ roster, other.1 ≠ id := fun other hother heq ↦
          hfirst (List.mem_map.mpr ⟨other, hother, heq⟩)
        clear ih hfirst hrest hnodup h
        induction roster with
        | nil => rfl
        | cons other roster ih =>
            rw [List.foldl_cons, if_neg (hothers other (List.mem_cons_self ..))]
            exact ih fun next hnext ↦ hothers next (List.mem_cons_of_mem _ hnext)
      · exact ih hrest hmem _

namespace Server

/-- What a client has been told of a player.  Of itself it is told its color only. -/
structure ShownTo (platform : Platform) (s : Server) (r : ConnRef) (id : UInt32)
    (player : PlayerData) : Prop where
  color : (shown id (s.news platform r)).map Prod.fst = some player.color
  tail : id ≠ idOf r → shown id (s.news platform r) = some (player.color, player.tail)

/-- Every validated client of the list has been told what the server has of its players. -/
structure Shows (platform : Platform) (s : Server) (refs : List ConnRef) : Prop
    extends Membership s refs where
  agree : ∀ r ∈ refs, s.Validated r → ∀ id player, s.players.lookup id = some player →
    s.ShownTo platform r id player

variable {platform : Platform} {s s' : Server} {refs refs' : List ConnRef} {msg : Msg}
  {ignoreClient : Option ConnRef} {r : ConnRef} {id : UInt32} {player : PlayerData}

theorem ShownTo.of_eq (h : s.ShownTo platform r id player)
    (hsame : shown id (s'.news platform r) = shown id (s.news platform r)) :
    s'.ShownTo platform r id player where
  color := by rw [hsame, h.color]
  tail hne := by rw [hsame, h.tail hne]

/-! ## Broadcasts -/

theorem foldl_addressed {part : List ConnRef} (hr : r ∈ part)
    (view : Option (ImU32 × List Position)) :
    (if r ∈ addressed ignoreClient part then [packetOf platform msg] else []).foldl
        (Packet.shown id) view =
      if some r = ignoreClient then view else (packetOf platform msg).shown id view := by
  by_cases hignored : some r = ignoreClient
  · have hnot : r ∉ addressed ignoreClient part := fun hmem ↦ (mem_addressed.mp hmem).2 hignored
    simp [hnot, hignored]
  · have hmem := mem_addressed.mpr ⟨hr, hignored⟩
    simp [hmem, hignored]

/-- A broadcast shows its message to every client but the ignored one, once.  The
removal in it says nothing about a player that is still there. -/
theorem Told.shown (h : Told s refs msg ignoreClient s' refs') (hnodup : refs.Nodup)
    (hr : r ∈ refs') (hid : id ∈ s'.players) :
    SnekCpp.shown id (s'.news platform r) =
      if some r = ignoreClient then SnekCpp.shown id (s.news platform r)
      else (packetOf platform msg).shown id (SnekCpp.shown id (s.news platform r)) := by
  obtain ⟨before, after, hnews, hremovals⟩ := @Told.once platform _ _ _ _ _ _ h hnodup r
  have hsilent : ∀ packet ∈ before ++ after, packet.Silent id := by
    intro packet hpacket
    obtain ⟨gone, hgone, rfl⟩ := hremovals packet hpacket
    exact silent_removePlayer fun heq ↦ hgone (heq ▸ hid)
  rw [hnews, shown_append, List.foldl_append, List.foldl_append,
    foldl_shown_of_silent fun packet hmem ↦ hsilent packet (List.mem_append_left _ hmem),
    foldl_shown_of_silent fun packet hmem ↦ hsilent packet (List.mem_append_right _ hmem),
    foldl_addressed hr]

/-! ## What the server has is what it has shown -/

/-- The new client's snapshot shows it all players, itself included. -/
theorem shown_snapshot {env : Env} {spawnpoint : Position}
    (hsize : (s.snapshotMsg platform env r spawnpoint).body.length < 2 ^ 32)
    (hlookup : (s.joined env r spawnpoint).lookup id = some player) :
    SnekCpp.shown id ((s.welcomed platform env r spawnpoint).news platform r) =
      some (player.color, player.tail) := by
  have hpacket := Carries.packetOf_eq (Carries.stateMsg hsize)
  rw [← snapshotMsg] at hpacket
  have hnodup : (((env.iteration (s.joined env r spawnpoint)).map
      Packet.rosterEntry).reverse.map Prod.fst).Nodup := by
    rw [List.map_reverse, List.map_map]
    exact List.nodup_reverse.mpr (env.nodup_iteration _)
  have hentry : (id, player.color, player.tail) ∈
      ((env.iteration (s.joined env r spawnpoint)).map Packet.rosterEntry).reverse := by
    rw [List.mem_reverse]
    exact List.mem_map.mpr ⟨(id, player), env.mem_iteration.mpr hlookup, rfl⟩
  rw [news_welcomed, if_pos rfl, shown_concat, hpacket]
  exact foldl_roster hnodup hentry _

namespace Shows

variable {env : Env} {depth : ℕ}

theorem congr (h : s.Shows platform refs) (hmember : s'.Membership refs)
    (hnews : ∀ r, s'.news platform r = s.news platform r)
    (hvalidated : ∀ r, s'.Validated r ↔ s.Validated r) (hplayers : s'.players = s.players) :
    s'.Shows platform refs := by
  refine ⟨hmember, fun r hr hval id player hlookup ↦ ?_⟩
  have hbefore := h.agree r hr ((hvalidated r).mp hval) id player (hplayers ▸ hlookup)
  apply hbefore.of_eq
  rw [hnews]

/-- News that is silent on a player leaves what has been shown of it. -/
theorem shownTo_told (h : s.Shows platform refs) (htold : Told s refs msg ignoreClient s' refs')
    (hr : r ∈ refs') (hvalidated : s'.Validated r) (hsilent : (packetOf platform msg).Silent id)
    (hlookup : s'.players.lookup id = some player) : s'.ShownTo platform r id player := by
  have hbefore := h.agree r (htold.mem_of_told hr) ((htold.extends_.validated_iff r).mp hvalidated)
    id player (htold.lookup hlookup)
  apply hbefore.of_eq
  rw [htold.shown h.listed.nodup hr (AssocMap.mem_of_lookup hlookup), hsilent, ite_self]

theorem told (h : s.Shows platform refs) (hsilent : ∀ id, (packetOf platform msg).Silent id)
    (htold : Told s refs msg ignoreClient s' refs') : s'.Shows platform refs' :=
  ⟨h.toMembership.told htold, fun _ hr hvalidated id _ hlookup ↦
    h.shownTo_told htold hr hvalidated (hsilent id) hlookup⟩

theorem onAccept (h : s.Shows platform refs) (haccept : s.onClientConnect = true)
    (hfew : s.approved < 2 ^ 32) : s.onAccept.Shows platform (refs ++ [s.approved]) := by
  have hmember := h.toMembership.onAccept haccept hfew
  have hnew : ¬ s.Validated s.approved := fun hval ↦
    Nat.lt_irrefl _ (h.approvals.validated _ hval)
  unfold Server.onAccept at hmember ⊢
  rw [if_pos haccept] at hmember ⊢
  refine ⟨hmember, fun r hr hval id player hlookup ↦ ?_⟩
  rcases List.mem_append.mp hr with hr | hr
  · exact ⟨(h.agree r hr hval id player hlookup).color, (h.agree r hr hval id player hlookup).tail⟩
  · rw [List.mem_singleton] at hr
    exact absurd (hr ▸ hval) hnew

theorem silent_of_atLarge (h : AtLarge msg) (id : UInt32) : (packetOf platform msg).Silent id := by
  rcases @AtLarge.packet platform _ h with heq | ⟨powerup, heq⟩ | ⟨powerup, heq⟩ <;>
    exact heq ▸ fun _ ↦ rfl

theorem indifferent (platform : Platform) : Indifferent (Shows platform) fun _ _ ↦ True where
  listed h := h.listed
  fields h powerups gameStarted m_qMessagesIn :=
    h.congr (h.toMembership.fields powerups gameStarted m_qMessagesIn) (fun _ ↦ rfl)
      (fun _ ↦ .rfl) rfl
  told h hmsg htold := h.told (silent_of_atLarge hmsg) htold
  overflow _ _ _ := trivial
  noCell _ _ := trivial

/-- News about one player only. -/
theorem silent_updatePlayer {id' : UInt32} {direction : Direction} {tail : List Position}
    (h : id' ≠ id) : (Packet.updatePlayer id' direction tail).Silent id :=
  fun _ ↦ if_neg h

theorem silent_newPlayer {id' : UInt32} {color : ImU32} {tail : List Position}
    (h : id' ≠ id) : (Packet.newPlayer id' color tail).Silent id :=
  fun _ ↦ if_neg h

/-- The new client is shown all by its snapshot, and the others are shown the new client. -/
theorem joined (h : s.Shows platform refs) (hmem : r ∈ refs) {spawnpoint : Position}
    (hsize : (s.snapshotMsg platform env r spawnpoint).body.length < 2 ^ 32)
    (htold : Told (s.welcomed platform env r spawnpoint) refs
      (newPlayerMsg platform { direction := .up, tail := [spawnpoint], color := env.color } (idOf r))
      (some r) s' refs') : s'.Shows platform refs' := by
  have hmember : (s.welcomed platform env r spawnpoint).Membership refs :=
    h.toMembership.welcomed hmem
  have hpacket : packetOf platform (newPlayerMsg platform
      { direction := .up, tail := [spawnpoint], color := env.color } (idOf r)) =
        .newPlayer (idOf r) env.color [spawnpoint] :=
    (Carries.newPlayerMsg (by simp) _).packetOf_eq
  refine ⟨hmember.told htold, fun r' hr' hvalidated id player hlookup ↦ ?_⟩
  have hbefore := htold.lookup hlookup
  have hshown := @Told.shown platform _ _ _ _ _ _ r' id htold hmember.listed.nodup hr'
    (AssocMap.mem_of_lookup hlookup)
  rw [hpacket] at hshown
  by_cases hself : r' = r
  · subst hself
    rw [if_pos rfl, shown_snapshot hsize hbefore] at hshown
    exact ⟨by rw [hshown]; rfl, fun _ ↦ hshown⟩
  · have hother : SnekCpp.shown id ((s.welcomed platform env r spawnpoint).news platform r') =
        SnekCpp.shown id (s.news platform r') := by
      rw [news_welcomed, if_neg hself, List.append_nil]
    rw [if_neg (by simpa using hself), hother] at hshown
    by_cases hid : idOf r = id
    · subst hid
      have hplayer : player =
          { direction := .up, tail := [spawnpoint], color := env.color } := by
        rw [welcomed, Server.joined, h.getID_of_mem hmem, AList.lookup_insert] at hbefore
        exact (Option.some.inj hbefore).symm
      rw [Packet.shown, if_pos rfl] at hshown
      subst hplayer
      exact ⟨by rw [hshown]; rfl, fun _ ↦ hshown⟩
    · have hold : s.players.lookup id = some player := by
        rw [welcomed, Server.joined, h.getID_of_mem hmem,
          AList.lookup_insert_ne fun heq ↦ hid heq.symm] at hbefore
        exact hbefore
      have hval := ((Membership.validated_welcomed.mp
        ((htold.extends_.validated_iff r').mp hvalidated)).resolve_right hself)
      rw [silent_newPlayer hid] at hshown
      exact (h.agree r' (htold.mem_of_told hr') hval id player hold).of_eq hshown

/-- The others are shown the cells that the server takes over from the report. -/
theorem moved (h : s.Shows platform refs) {tail : List Position} {direction : Direction}
    {clientID : Int32} (hvalidated : s.Validated r) (hid : clientID.toUInt32 = idOf r)
    (hsize : (SnakeClient.updatePlayerMsg platform tail direction clientID).body.length < 2 ^ 32)
    (htold : Told s refs (SnakeClient.updatePlayerMsg platform tail direction clientID) (some r)
      s' refs') (hlookup : s'.players.lookup (idOf r) = some player) :
    (s'.moved (idOf r) player tail direction).Shows platform refs' := by
  have hmember := h.toMembership.told htold
  have hpacket : packetOf platform (SnakeClient.updatePlayerMsg platform tail direction clientID) =
      .updatePlayer (idOf r) direction tail := by
    rw [← hid]
    exact (Carries.updatePlayerMsg hsize).packetOf_eq
  refine ⟨hmember.moved hlookup tail direction, fun r' hr' hvalidated' id player' hlookup' ↦ ?_⟩
  have hval := (htold.extends_.validated_iff r').mp hvalidated'
  by_cases hown : id = idOf r
  · subst hown
    have hplayer : player' = { player with tail, direction } := by
      rw [Server.moved, AList.lookup_insert] at hlookup'
      exact (Option.some.inj hlookup').symm
    subst hplayer
    have hbefore := h.agree r' (htold.mem_of_told hr') hval _ player (htold.lookup hlookup)
    have hshown := @Told.shown platform _ _ _ _ _ _ r' (idOf r) htold h.listed.nodup hr'
      (AssocMap.mem_of_lookup hlookup)
    by_cases hself : r' = r
    · subst hself
      rw [if_pos rfl] at hshown
      exact ⟨(congrArg _ hshown).trans hbefore.color, fun hne ↦ absurd rfl hne⟩
    · have hne : idOf r ≠ idOf r' := fun heq ↦
        hself (hmember.inj (hmember.lt_of_mem hr') (hmember.approvals.validated r
          ((htold.extends_.validated_iff r).mpr hvalidated)) heq.symm)
      rw [if_neg (by simpa using hself), hpacket, hbefore.tail hne, Packet.shown, if_pos rfl]
        at hshown
      exact ⟨by rw [show (s'.moved (idOf r) player tail direction).news platform r' =
        s'.news platform r' from rfl, hshown]; rfl, fun _ ↦ hshown⟩
  · rw [lookup_moved_ne hown] at hlookup'
    have hsilent : (packetOf platform
        (SnakeClient.updatePlayerMsg platform tail direction clientID)).Silent id := by
      rw [hpacket]
      exact silent_updatePlayer fun heq ↦ hown heq.symm
    exact (h.shownTo_told htold hr' hvalidated' hsilent hlookup').of_eq rfl

theorem collided (h : s.Shows platform refs) (clientID owner : UInt32) :
    (s.logged [.collided clientID owner]).Shows platform refs := by
  apply h.congr (h.toMembership.collided clientID owner)
  · intro r'
    rw [news_logged]
    exact List.append_nil _
  · intro r'
    simp [Validated, logged]
  · rfl

theorem ends_onClientValidated (h : s.Shows platform refs) (hmem : r ∈ refs)
    (hsize : ∀ spawnpoint ∈ s.spawnpoints.getLast?,
      (s.snapshotMsg platform env r spawnpoint).body.length < 2 ^ 32) :
    Ends (fun s' ↦ ∃ refs', s'.Shows platform refs') (fun _ _ ↦ True)
      ((onClientValidated platform env depth r).run s) := by
  apply h.toRoll.ends_onClientValidated (indifferent platform) (h.lt_of_mem hmem) trivial
  · exact fun spawnpoint hspawn s' refs' htold ↦ h.joined hmem (hsize spawnpoint hspawn) htold
  · exact fun _ _ _ _ ↦ trivial

theorem ends_updatePlayer (h : s.Shows platform refs) (hvalidated : s.Validated r)
    {tail : List Position} {direction : Direction} {clientID : Int32}
    (hid : clientID.toUInt32 = idOf r)
    (hsize : (SnakeClient.updatePlayerMsg platform tail direction clientID).body.length < 2 ^ 32) :
    Ends (fun s' ↦ ∃ refs', s'.Shows platform refs') (fun _ _ ↦ True)
      ((onMessage platform env depth r
        (SnakeClient.updatePlayerMsg platform tail direction clientID)).run s) := by
  apply h.toRoll.ends_updatePlayer (h.approvals.validated r hvalidated) hid hsize
  · exact fun _ _ ↦ trivial
  · exact fun _ _ _ _ ↦ trivial
  · exact fun s' refs' player htold hlookup ↦ ⟨refs', h.moved hvalidated hid hsize htold hlookup⟩
  · exact fun _ _ _ _ _ _ _ _ _ _ _ ↦ trivial
  · intro s' refs' player owner p head rest htold hlookup htail howner hcell
    have hcollided := (h.moved hvalidated hid hsize htold hlookup).collided (idOf r) owner
    have hkill : ∀ id, (packetOf platform (killPlayerMsg clientID)).Silent id := by
      intro id view
      rw [(Carries.killPlayerMsg clientID).packetOf_eq]
      rfl
    apply ends_messageAllClients hcollided.listed
    · exact fun t refs'' htold' ↦ ⟨refs'', hcollided.told hkill htold'⟩
    · exact fun _ _ ↦ trivial

end Shows

end Server

/-! ## What the clients make of it -/

namespace SnakeClient

variable {client client' : SnakeClient}

/-- The client keeps its players, and their colors. -/
def KeepsColors (client client' : SnakeClient) : Prop :=
  AssocMap.Keeps Player.color client.players client'.players

theorem KeepsColors.trans {client'' : SnakeClient} (h : client.KeepsColors client')
    (h' : client'.KeepsColors client'') : client.KeepsColors client'' :=
  AssocMap.Keeps.trans h h'

theorem keepsColors_frame {msg : Option Msg} (h : client.frame = .ok (client', msg)) :
    client.KeepsColors client' := by
  obtain ⟨players, hmoved, hcheck⟩ := frame_cases h
  have hmove : AssocMap.Keeps Player.color client.players players :=
    .update (fun _ _ ↦ Player.color_of_move) hmoved
  cases hcheck with
  | noPowerups => exact hmove
  | @missed player looked hown =>
      have hlooked := @AssocMap.Keeps.subscript _ _ _ _ Player.color players client.ownID default
      rw [show players.subscript client.ownID default = (player, looked) from hown] at hlooked
      exact hmove.trans hlooked
  | ate hown => exact hmove.trans (.insert_subscript hown rfl)

theorem keepsColors_updateServer {platform : Platform} {msg : Msg}
    (h : client.updateServer platform = (client', msg)) : client.KeepsColors client' := by
  cases h
  exact .subscript _ _ _

theorem keepsColors_steer (client : SnakeClient) (pressed : Bool) (opposite direction : Direction) :
    client.KeepsColors (client.steer pressed opposite direction) := by
  rcases steer_cases client pressed opposite direction with
    heq | ⟨player, players, hown, heq | heq⟩
  · rw [heq]
    exact .refl _
  · rw [heq]
    have hlooked := @AssocMap.Keeps.subscript _ _ _ _ Player.color client.players client.ownID default
    rwa [hown] at hlooked
  · rw [heq]
    exact .insert_subscript hown rfl

theorem keepsColors_keyCallback {key : Key} {press : Bool} {msg : Option Msg}
    (h : client.keyCallback key press = (client', msg)) : client.KeepsColors client' := by
  unfold keyCallback at h
  split at h
  · cases h
    exact .refl _
  · cases h
    exact (((keepsColors_steer client _ _ _).trans (keepsColors_steer _ _ _ _)).trans
      (keepsColors_steer _ _ _ _)).trans (keepsColors_steer _ _ _ _)

/-- A client has the players that it has been shown, in their colors. -/
def Draws (client : SnakeClient) (packets : List Packet) : Prop :=
  ∀ id color, (shown id packets).map Prod.fst = some color →
    (client.players.lookup id).map Player.color = some color

theorem Draws.keeps {packets : List Packet} (h : client.Draws packets)
    (hkeeps : client.KeepsColors client') : client'.Draws packets :=
  fun id color hshown ↦ hkeeps id color (h id color hshown)

/-- Entries that are inserted in turn are the entries that are shown in turn. -/
theorem color_insertEntries (grid : Grid) (roster : List RosterEntry) (id : UInt32)
    {players : AssocMap UInt32 Player} {view : Option (ImU32 × List Position)}
    (h : ∀ color, view.map Prod.fst = some color →
      (players.lookup id).map Player.color = some color) :
    ∀ color, (roster.foldl (fun view entry ↦ if entry.1 = id then some entry.2 else view) view).map
        Prod.fst = some color →
      ((roster.foldl (insertEntry grid) players).lookup id).map Player.color = some color := by
  induction roster generalizing players view with
  | nil => exact h
  | cons entry roster ih =>
      rw [List.foldl_cons, List.foldl_cons]
      apply ih
      intro color hcolor
      rw [insertEntry, AssocMap.lookup_insert_eq]
      by_cases hid : entry.1 = id
      · rw [if_pos hid] at hcolor
        rw [if_pos hid.symm]
        exact hcolor
      · rw [if_neg hid] at hcolor
        rw [if_neg fun heq ↦ hid heq.symm]
        exact h color hcolor

theorem Draws.handlePacket {packets : List Packet} (h : client.Draws packets) (packet : Packet) :
    (client.handlePacket packet).Draws (packets ++ [packet]) := by
  intro id color hshown
  rw [shown_concat] at hshown
  cases packet with
  | serverValidation clientID powerups roster =>
      exact color_insertEntries client.gridPointer roster id (h id) color hshown
  | newPlayer id' color' tail =>
      simp only [Packet.shown] at hshown
      simp only [SnakeClient.handlePacket, insertEntry, AssocMap.lookup_insert_eq]
      by_cases hid : id' = id
      · rw [if_pos hid] at hshown
        rw [if_pos hid.symm]
        exact hshown
      · rw [if_neg hid] at hshown
        rw [if_neg fun heq ↦ hid heq.symm]
        exact h id color hshown
  | removePlayer gone =>
      simp only [Packet.shown] at hshown
      simp only [SnakeClient.handlePacket, AssocMap.lookup_erase_eq]
      by_cases hid : gone = id
      · rw [if_pos hid] at hshown
        cases hshown
      · rw [if_neg hid] at hshown
        rw [if_neg fun heq ↦ hid heq.symm]
        exact h id color hshown
  | updatePlayer id' direction tail =>
      have hold : (shown id packets).map Prod.fst = some color := by
        simp only [Packet.shown] at hshown
        split at hshown
        · rwa [Option.map_map] at hshown
        · exact hshown
      have hkeeps : client.KeepsColors (client.handlePacket (.updatePlayer id' direction tail)) :=
        .insert_subscript rfl rfl
      exact hkeeps id color (h id color hold)
  | killPlayer id' =>
      have hkeeps : client.KeepsColors (client.handlePacket (.killPlayer id')) :=
        .insert_subscript rfl rfl
      exact hkeeps id color (h id color hshown)
  | _ => exact h id color hshown

end SnakeClient

/-- A client that has handled packets has the players that they have shown it. -/
theorem draws_rules (platform : Platform) :
    PlayRules platform fun packets client ↦ client.Draws packets where
  start id color hshown := by cases hshown
  frame h hframe := h.keeps (SnakeClient.keepsColors_frame hframe)
  updateServer h hupdate := h.keeps (SnakeClient.keepsColors_updateServer hupdate)
  keyCallback h hkey := h.keeps (SnakeClient.keepsColors_keyCallback hkey)
  handle h packet := h.handlePacket packet

/-- No id is given out twice. -/
def Countable (S : System) : Event → Prop
  | .accept => S.server.approved < 2 ^ 32
  | _ => True

instance (S : System) (e : Event) : Decidable (Countable S e) := by
  rcases e <;> unfold Countable <;> infer_instance

theorem shows_rules (platform : Platform) (depth : ℕ) :
    ServerRules platform depth (fun S e ↦ Framed platform S e ∧ Countable S e)
      (Server.Shows platform) fun _ _ ↦ True where
  toIndifferent := Server.Shows.indifferent platform
  accept {S refs} h hallowed := by
    have hfew : S.server.approved < 2 ^ 32 := hallowed.2
    cases haccept : S.server.onClientConnect with
    | false =>
        refine ⟨refs, ?_⟩
        rwa [Server.onAccept, haccept, if_neg (by simp)]
    | true => exact ⟨_, h.onAccept haccept hfew⟩
  close h r := h.congr (h.toMembership.close r) (fun _ ↦ rfl) (fun _ ↦ .rfl) rfl
  closeDown _ _ := trivial
  validate h hopen _ hallowed :=
    h.ends_onClientValidated (h.mem_of_isConnected hopen) hallowed.1
  updatePlayer {S refs r env tail direction clientID rest} h _ hvalidated hid hsize _ := by
    have hpopped := (Server.Shows.indifferent platform).fields h S.server.powerups
      S.server.gameStarted rest
    exact hpopped.ends_updatePlayer hvalidated hid hsize

/-- Once a client has handled all that was sent to it, it draws the server's
players in the server's colors, and the cells it was told last of every other
player are those that the server has. -/
theorem shown_of_drained {platform : Platform} {depth : ℕ} {S : System}
    (h : Reaches (System.step platform depth)
      (fun S e ↦ Framed platform S e ∧ Countable S e) {} S) (hup : S.fault = none) {r : ConnRef}
    (hopen : S.server.isConnected r = true) (hvalidated : S.server.Validated r)
    (hdrained : S.Drained r) {id : UInt32} {player : PlayerData}
    (hplayer : S.server.players.lookup id = some player) :
    (∃ copy, (S.peers r).client.players.lookup id = some copy ∧ copy.color = player.color) ∧
      (id ≠ idOf r → shown id ((S.peers r).learnt platform) = some (player.color, player.tail)) := by
  have hholds : Holds (Server.Shows platform) (fun _ _ ↦ True) S := by
    apply Holds.of_reaches (shows_rules platform depth)
      (fun h ↦ (Sound.of_reaches (h.mono fun _ _ h ↦ h.1)).toReporting) ?_ h
    exact ⟨.init, fun r hr ↦ (by cases hr)⟩
  obtain ⟨refs, hserver⟩ := hholds.up hup
  have hsound := Sound.of_reaches (h.mono fun _ _ h ↦ h.1)
  have hlearnt : (S.peers r).learnt platform = S.server.news platform r :=
    (hsound.streams r).learnt_eq hdrained.queue hdrained.stream
  have hshown := hserver.agree r (hserver.mem_of_isConnected hopen) hvalidated id player hplayer
  constructor
  · have hcolor := (draws_rules platform).of_reaches h r id player.color (by rw [hlearnt, hshown.color])
    exact Option.map_eq_some_iff.mp hcolor
  · intro hother
    rw [hlearnt]
    exact hshown.tail hother

/-- The second client hears of the first one's move. -/
def hearsOfMove : List Event :=
  bothJoin ++ [.key 0 .d true, .frame 0, .updateServer 0, .read 0, .update .plain, .frame 1,
    .receive 1, .handle 1]

theorem shown_of_drained_hearsOfMove :
    ∃ S player, run (guarded (System.step .x64 8)
        fun S e ↦ Framed .x64 S e ∧ Countable S e) {} hearsOfMove = some S ∧
      S.server.players.lookup (idOf 0) = some player ∧ player.direction = .right ∧
      (∃ copy, (S.peers 1).client.players.lookup (idOf 0) = some copy ∧ copy.color = player.color) ∧
        shown (idOf 0) ((S.peers 1).learnt .x64) = some (player.color, player.tail) := by
  obtain ⟨S, hrun, hcheck⟩ := exists_run_of_any
    (P := fun S : System ↦ decide (S.fault = none ∧ S.server.isConnected 1 = true ∧
      S.server.Validated 1 ∧ S.Drained 1 ∧
        (S.server.players.lookup (idOf 0)).map PlayerData.direction = some .right))
    (show (run (guarded (System.step .x64 8)
      fun S e ↦ Framed .x64 S e ∧ Countable S e) {} hearsOfMove).any _ = true by decide +kernel)
  obtain ⟨hup, hopen, hvalidated, hdrained, hmoved⟩ := of_decide_eq_true hcheck
  obtain ⟨player, hplayer, hdirection⟩ := Option.map_eq_some_iff.mp hmoved
  obtain ⟨hcopy, hshown⟩ := shown_of_drained (reaches_of_guarded hrun) hup hopen hvalidated hdrained
    hplayer
  exact ⟨S, player, hrun, hplayer, hdirection, hcopy, hshown (by decide)⟩

end SnekCpp
