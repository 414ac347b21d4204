import SnekCpp.Game.Board
import SnekCpp.Game.Clients
import SnekCpp.Snek.Steering

/-!
# The authority over a snake

The server relays what a client reports to all the others, and never back.  No
message makes a client change its own player, until the server says that the
player is dead.
-/

namespace SnekCpp

open Lib Networking

/-! ## The player that a message is about -/

/-- The id on top of a message. -/
def carriedID (msg : Msg) : Option UInt32 :=
  (readField UInt32 msg).toOption.map Prod.fst

theorem carriedID_of_uint32 {msg rest : Msg} {id : UInt32} (h : readField UInt32 msg = .ok (id, rest)) :
    carriedID msg = some id := by
  rw [carriedID, h]
  rfl

/-- The client pops an id as an `int`. -/
theorem carriedID_of_int32 {msg rest : Msg} {id : Int32} (h : readField Int32 msg = .ok (id, rest)) :
    carriedID msg = some id.toUInt32 := by
  unfold readField Message.pop at h
  by_cases hsize : StandardLayout.size Int32 ≤ msg.body.length
  · rw [if_pos hsize] at h
    cases h
    unfold carriedID readField Message.pop
    rw [if_pos (show StandardLayout.size UInt32 ≤ msg.body.length from hsize)]
    exact congrArg some (UInt32.toUInt32_toInt32 _).symm
  · rw [if_neg hsize] at h
    cases h

theorem carriedID_push_int32 {msg : Msg} (h : msg.Consistent) (id : Int32) :
    carriedID (msg.push id) = some id.toUInt32 :=
  carriedID_of_int32 (readField_push h id)

theorem carriedID_newPlayerMsg {platform : Platform} (player : PlayerData) (id : UInt32) :
    carriedID (Server.newPlayerMsg platform player id) = some id :=
  carriedID_of_uint32 (readField_push (Message.consistent_push _ _) id)

theorem carriedID_updatePlayerMsg {platform : Platform} (tail : List Position)
    (direction : Direction) (id : Int32) :
    carriedID (SnakeClient.updatePlayerMsg platform tail direction id) = some id.toUInt32 :=
  carriedID_push_int32 (Message.consistent_push _ _) id

/-- The message that a packet comes from has its type, and its id on top. -/
def Packet.ReadFrom (msg : Msg) : Packet → Prop
  | .serverValidation _ _ _ => msg.header.id = .serverValidation
  | .newPlayer id _ _ => msg.header.id = .newPlayer ∧ carriedID msg = some id
  | .removePlayer id => msg.header.id = .removePlayer ∧ carriedID msg = some id
  | .updatePlayer id _ _ => msg.header.id = .updatePlayer ∧ carriedID msg = some id
  | .killPlayer id => msg.header.id = .killPlayer ∧ carriedID msg = some id
  | _ => True

theorem Packet.readFrom_of_decode {platform : Platform} {msg : Msg} {packet : Packet}
    (h : Packet.decode platform msg = .ok packet) : packet.ReadFrom msg := by
  unfold Packet.decode at h
  cases hid : msg.header.id with
  | serverValidation =>
      rw [hid] at h
      obtain ⟨_, -, h⟩ := bind_eq_ok.mp h
      obtain ⟨_, -, h⟩ := bind_eq_ok.mp h
      obtain ⟨_, -, h⟩ := bind_eq_ok.mp h
      obtain ⟨_, -, h⟩ := bind_eq_ok.mp h
      obtain ⟨_, -, h⟩ := bind_eq_ok.mp h
      obtain ⟨_, -, h⟩ := bind_eq_ok.mp h
      obtain ⟨_, -, h⟩ := bind_eq_ok.mp h
      cases h
      exact hid
  | newPlayer =>
      rw [hid] at h
      obtain ⟨_, hread, h⟩ := bind_eq_ok.mp h
      obtain ⟨_, -, h⟩ := bind_eq_ok.mp h
      obtain ⟨_, -, h⟩ := bind_eq_ok.mp h
      cases h
      exact ⟨hid, carriedID_of_uint32 hread⟩
  | removePlayer =>
      rw [hid] at h
      obtain ⟨_, hread, h⟩ := bind_eq_ok.mp h
      cases h
      exact ⟨hid, carriedID_of_int32 hread⟩
  | updatePlayer =>
      rw [hid] at h
      obtain ⟨_, hread, h⟩ := bind_eq_ok.mp h
      obtain ⟨_, -, h⟩ := bind_eq_ok.mp h
      obtain ⟨_, -, h⟩ := bind_eq_ok.mp h
      cases h
      exact ⟨hid, carriedID_of_int32 hread⟩
  | killPlayer =>
      rw [hid] at h
      obtain ⟨_, hread, h⟩ := bind_eq_ok.mp h
      cases h
      exact ⟨hid, carriedID_of_int32 hread⟩
  | newPowerup =>
      rw [hid] at h
      obtain ⟨_, -, h⟩ := bind_eq_ok.mp h
      cases h
      trivial
  | powerupEaten =>
      rw [hid] at h
      obtain ⟨_, -, h⟩ := bind_eq_ok.mp h
      cases h
      trivial
  | startGame =>
      rw [hid] at h
      cases h
      trivial
  | unnamed value hvalue =>
      rw [hid] at h
      cases h
      trivial

theorem Packet.exists_of_handle {platform : Platform} {msg : Msg} {client client' : SnakeClient}
    (h : client.handleMessage platform msg = .ok client') :
    ∃ packet : Packet, packet.ReadFrom msg ∧ client.handlePacket packet = client' := by
  obtain ⟨packet, hdecode, hclient⟩ := SnakeClient.handleMessage_cases h
  exact ⟨packet, Packet.readFrom_of_decode hdecode, hclient.symm⟩

/-- Only a snapshot tells a client its id. -/
theorem SnakeClient.clientID_of_handle {platform : Platform} {msg : Msg} {client client' : SnakeClient}
    (h : client.handleMessage platform msg = .ok client')
    (hheader : msg.header.id ≠ .serverValidation) : client'.clientID = client.clientID := by
  obtain ⟨packet, hread, rfl⟩ := Packet.exists_of_handle h
  cases packet with
  | serverValidation => exact absurd hread hheader
  | _ => rfl

/-- A message that the client with the id `own` may be sent: its own snapshot,
or one that neither adds its player nor moves nor removes it. -/
structure ClientHears (platform : Platform) (own : UInt32) (msg : Msg) : Prop where
  foreign : msg.header.id = .updatePlayer ∨ msg.header.id = .newPlayer ∨
    msg.header.id = .removePlayer → carriedID msg ≠ some own
  snapshot : msg.header.id = .serverValidation → ∃ roster powerups,
    SizesFit platform roster powerups ∧ own ∈ roster.map Prod.fst ∧
      msg = Server.stateMsg platform roster powerups own

namespace ClientHears

variable {platform : Platform} {own : UInt32} {msg : Msg} {client client' : SnakeClient}

theorem ofHeader (own : UInt32) {type : MessageTypes} (hid : msg.header.id = type)
    (htype : type = .startGame ∨ type = .newPowerup ∨ type = .powerupEaten ∨ type = .killPlayer) :
    ClientHears platform own msg := by
  subst hid
  refine ⟨fun hforeign ↦ ?_, fun hsnapshot ↦ ?_⟩
  · rcases hforeign with hforeign | hforeign | hforeign <;> simp [hforeign] at htype
  · simp [hsnapshot] at htype

theorem atLarge (own : UInt32) (h : Server.AtLarge msg) : ClientHears platform own msg := by
  cases h with
  | startGame hid => exact ofHeader own hid (by simp)
  | newPowerup powerup => exact @ofHeader platform _ own .newPowerup rfl (by simp)
  | powerupEaten powerup => exact @ofHeader platform _ own .powerupEaten rfl (by simp)

theorem killPlayer (own : UInt32) (id : Int32) :
    ClientHears platform own (Server.killPlayerMsg id) :=
  @ofHeader platform _ own .killPlayer rfl (by simp)

/-- A message about another player. -/
theorem ofOther {id : UInt32} (hid : carriedID msg = some id) (hne : id ≠ own)
    (hheader : msg.header.id ≠ .serverValidation) : ClientHears platform own msg :=
  ⟨fun _ heq ↦ hne (Option.some.inj (hid.symm.trans heq)), fun h ↦ absurd h hheader⟩

/-- No message of the others changes the own player, but its end. -/
theorem lookup_of_handle (h : ClientHears platform own msg)
    (hhandle : client.handleMessage platform msg = .ok client')
    (hheader : msg.header.id ≠ .serverValidation)
    (halive : msg.header.id = .killPlayer → carriedID msg ≠ some own) :
    client'.players.lookup own = client.players.lookup own := by
  obtain ⟨packet, hread, rfl⟩ := Packet.exists_of_handle hhandle
  cases packet with
  | serverValidation => exact absurd hread hheader
  | newPlayer id color tail =>
      have hne : own ≠ id := fun heq ↦ h.foreign (.inr (.inl hread.1)) (heq ▸ hread.2)
      exact AList.lookup_insert_ne hne
  | removePlayer id =>
      have hne : own ≠ id := fun heq ↦ h.foreign (.inr (.inr hread.1)) (heq ▸ hread.2)
      exact AList.lookup_erase_ne hne
  | updatePlayer id direction tail =>
      have hne : own ≠ id := fun heq ↦ h.foreign (.inl hread.1) (heq ▸ hread.2)
      simp only [SnakeClient.handlePacket]
      rw [AList.lookup_insert_ne hne, AssocMap.lookup_subscript_ne _ _ hne]
  | killPlayer id =>
      have hne : own ≠ id := fun heq ↦ halive hread.1 (heq ▸ hread.2)
      simp only [SnakeClient.handlePacket]
      rw [AList.lookup_insert_ne hne, AssocMap.lookup_subscript_ne _ _ hne]
  | _ => rfl

/-- A client that has handled its snapshot knows itself. -/
theorem knows_of_snapshot (h : ClientHears platform own msg)
    (hhandle : client.handleMessage platform msg = .ok client')
    (hheader : msg.header.id = .serverValidation) :
    client'.ownID = own ∧ own ∈ client'.players := by
  obtain ⟨roster, powerups, hsizes, hown, rfl⟩ := h.snapshot hheader
  rw [SnakeClient.handleMessage_eq] at hhandle
  by_cases hcount : powerups.length < 2 ^ 31
  · rw [Packet.decode_stateMsg hsizes.players hsizes.tails hcount] at hhandle
    split at hhandle
    · cases hhandle
      refine ⟨UInt32.toUInt32_toInt32 own, (mem_insertEntries ..).mpr (.inl ?_)⟩
      simpa [Packet.rosterEntry] using hown
    · cases hhandle
  · rw [decode_stateMsg_of_many hsizes.count hcount] at hhandle
    cases hhandle

theorem mem_of_handle (h : ClientHears platform own msg)
    (hhandle : client.handleMessage platform msg = .ok client')
    (hheader : msg.header.id ≠ .serverValidation) (hmem : own ∈ client.players) :
    own ∈ client'.players := by
  obtain ⟨packet, hread, rfl⟩ := Packet.exists_of_handle hhandle
  cases packet with
  | serverValidation => exact absurd hread hheader
  | newPlayer id color tail => exact (AList.mem_insert _).mpr (.inr hmem)
  | removePlayer id =>
      have hne : own ≠ id := fun heq ↦ h.foreign (.inr (.inr hread.1)) (heq ▸ hread.2)
      exact AList.mem_erase.mpr ⟨hne, hmem⟩
  | updatePlayer id direction tail =>
      refine (AList.mem_insert _).mpr (.inr ?_)
      exact (AssocMap.mem_subscript _ _).mpr (.inr hmem)
  | killPlayer id =>
      refine (AList.mem_insert _).mpr (.inr ?_)
      exact (AssocMap.mem_subscript _ _).mpr (.inr hmem)
  | _ => exact hmem

end ClientHears

/-! ## What the client does itself -/

/-- What becomes of the player of client `r`: a frame moves it and may feed it, a
key may turn it, and nothing else is done to it. -/
inductive OwnChange (r : ConnRef) (player : Player) : Event → Player → Prop
  | kept (e : Event) : OwnChange r player e player
  | moved {moved : Player} (hmove : player.move = .ok moved) : OwnChange r player (.frame r) moved
  | ate {moved : Player} (hmove : player.move = .ok moved) :
      OwnChange r player (.frame r) (moved.addLength 1)
  | turned (key : SnakeClient.Key) (press : Bool) (direction : Direction) :
      OwnChange r player (.key r key press) (player.setDirection direction)

namespace SnakeClient

variable {client client' : SnakeClient} {player : Player}

theorem lookup_frame_own {msg : Option Msg} (h : client.frame = .ok (client', msg))
    (hown : client.players.lookup client.ownID = some player) (r : ConnRef) :
    ∃ player', client'.players.lookup client.ownID = some player' ∧
      OwnChange r player (.frame r) player' := by
  obtain ⟨players, hupdate, hcheck⟩ := frame_cases h
  obtain ⟨moved, hmove, hmoved⟩ := AssocMap.lookup_update hupdate hown
  have hsubscript : players.subscript client.ownID default = (moved, players) :=
    AssocMap.subscript_of_lookup hmoved _
  cases hcheck with
  | noPowerups => exact ⟨moved, hmoved, .moved hmove⟩
  | missed hlooked =>
      obtain ⟨-, rfl⟩ := Prod.mk.inj (hsubscript.symm.trans hlooked)
      exact ⟨moved, hmoved, .moved hmove⟩
  | ate hlooked =>
      obtain ⟨rfl, rfl⟩ := Prod.mk.inj (hsubscript.symm.trans hlooked)
      exact ⟨_, AList.lookup_insert _, .ate hmove⟩

theorem lookup_updateServer_own {platform : Platform} {msg : Msg}
    (h : client.updateServer platform = (client', msg))
    (hown : client.players.lookup client.ownID = some player) :
    client'.players.lookup client.ownID = some player := by
  cases h
  change (client.players.subscript client.ownID default).2.lookup client.ownID = some player
  rw [AssocMap.subscript_of_lookup hown]
  exact hown

theorem lookup_keyCallback_own {key : Key} {press : Bool} {msg : Option Msg}
    (h : client.keyCallback key press = (client', msg))
    (hown : client.players.lookup client.ownID = some player) (r : ConnRef) :
    ∃ player', client'.players.lookup client.ownID = some player' ∧
      OwnChange r player (.key r key press) player' := by
  have hclient : client' = (client.keyCallback key press).1 := by rw [h]
  rw [keyCallback_fst] at hclient
  split at hclient
  · exact ⟨player, hclient ▸ hown, .kept _⟩
  · split at hclient
    · next heading _ =>
        rcases steer_cases client true heading.opposite.direction heading.direction with
          heq | ⟨looked, players, hlooked, heq⟩
        · rw [hclient, heq]
          exact ⟨player, hown, .kept _⟩
        · obtain ⟨rfl, rfl⟩ :=
            Prod.mk.inj ((AssocMap.subscript_of_lookup hown _).symm.trans hlooked)
          rcases heq with heq | heq
          · rw [hclient, heq]
            exact ⟨player, hown, .kept _⟩
          · rw [hclient, heq]
            exact ⟨_, AList.lookup_insert _, .turned key press _⟩
    · exact ⟨player, hclient ▸ hown, .kept _⟩

end SnakeClient

/-! ## What the server sends -/

/-- The snapshots among messages. -/
def snapshots (msgs : List Msg) : ℕ := msgs.countP fun msg ↦ msg.header.id = .serverValidation

theorem snapshots_append (xs ys : List Msg) :
    snapshots (xs ++ ys) = snapshots xs + snapshots ys :=
  List.countP_append ..

theorem snapshots_eq_zero {msgs : List Msg} (h : ∀ msg ∈ msgs, msg.header.id ≠ .serverValidation) :
    snapshots msgs = 0 := by
  rw [snapshots, List.countP_eq_zero]
  exact fun msg hmsg ↦ by simpa using h msg hmsg

namespace Server

variable {platform : Platform} {s t : Server} {refs refs' : List ConnRef} {msg : Msg}
  {ignoreClient : Option ConnRef} {r : ConnRef}

theorem AtLarge.header_ne (h : AtLarge msg) : msg.header.id ≠ .serverValidation := by
  cases h with
  | startGame hid => simp [hid]
  | newPowerup powerup => exact fun hid ↦ by cases hid
  | powerupEaten powerup => exact fun hid ↦ by cases hid

/-- What every client has been sent, also when the server has met a fault. -/
structure Informed (platform : Platform) (s : Server) : Prop where
  approvals : s.Approvals
  hears : ∀ r msg, .sent r msg ∈ s.log → ClientHears platform (idOf r) msg
  /-- Nobody gets a second snapshot. -/
  once : ∀ r, snapshots (sentTo s.log r) ≤ if s.Validated r then 1 else 0

/-- The server between two handlers, with an id for every connection. -/
structure Informs (platform : Platform) (s : Server) (refs : List ConnRef) : Prop
    extends s.Enrolled refs, s.Informed platform where
  few : s.approved ≤ 2 ^ 32

namespace Informed

theorem init : Server.init.Informed platform where
  approvals := .init
  hears _ _ h := by cases h
  once r := Nat.zero_le _

theorem append (h : s.Informed platform) {effects : List Effect} (happrovals : t.Approvals)
    (hlog : t.log = s.log ++ effects)
    (hsent : ∀ ref m, .sent ref m ∈ effects →
      ClientHears platform (idOf ref) m ∧ m.header.id ≠ .serverValidation) :
    t.Informed platform where
  approvals := happrovals
  hears r m hmem := by
    rw [hlog] at hmem
    rcases List.mem_append.mp hmem with hmem | hmem
    · exact h.hears r m hmem
    · exact (hsent r m hmem).1
  once r := by
    have hnone : snapshots (sentTo effects r) = 0 :=
      snapshots_eq_zero fun m hm ↦ (hsent r m (mem_sentTo.mp hm)).2
    have hbefore := h.once r
    rw [hlog, sentTo_append, snapshots_append, hnone, Nat.add_zero]
    by_cases hvalidated : s.Validated r
    · have hstill : t.Validated r := by
        unfold Server.Validated
        rw [hlog]
        exact List.mem_append_left _ hvalidated
      rw [if_pos hvalidated] at hbefore
      rwa [if_pos hstill]
    · rw [if_neg hvalidated] at hbefore
      exact hbefore.trans (Nat.zero_le _)

theorem fields (h : s.Informed platform) (happrovals : t.Approvals) (hlog : t.log = s.log) :
    t.Informed platform := by
  apply h.append happrovals (hlog.trans (List.append_nil _).symm)
  exact fun _ _ hmem ↦ by cases hmem

end Informed

namespace Informs

theorem ne (h : s.Informs platform refs) {r' : ConnRef} (hr : r < s.approved) (hr' : r' < s.approved)
    (hne : r ≠ r') : idOf r ≠ idOf r' := fun heq ↦
  hne (idOf_inj (Nat.lt_of_lt_of_le hr h.few) (Nat.lt_of_lt_of_le hr' h.few) heq)

theorem hears_of_cast (h : s.Informs platform refs)
    (hmsg : ∀ ref ∈ addressed ignoreClient refs, ClientHears platform (idOf ref) msg)
    (hid : msg.header.id ≠ .serverValidation) {ref : ConnRef} {m : Msg}
    (hcast : s.Cast refs msg ignoreClient (.sent ref m)) :
    ClientHears platform (idOf ref) m ∧ m.header.id ≠ .serverValidation := by
  rcases hcast with ⟨_, href, -, heq⟩ | ⟨href, hopen, gone, hgone, hclosed, rfl⟩
  · cases heq
    exact ⟨hmsg ref href, hid⟩
  · refine ⟨?_, fun hheader ↦ by cases hheader⟩
    rw [h.approvals.getID gone (h.approved gone hgone)]
    have hcarried : carriedID (removePlayerMsg (idOf gone).toInt32) =
        some (idOf gone).toInt32.toUInt32 :=
      carriedID_push_int32 (show (Message.new MessageTypes.removePlayer).Consistent from rfl) _
    rw [UInt32.toUInt32_toInt32] at hcarried
    refine .ofOther hcarried ?_ fun hheader ↦ by cases hheader
    exact h.ne (h.approved gone hgone) (h.approved ref href) fun heq ↦ hclosed (heq ▸ hopen)

theorem told (h : s.Informs platform refs)
    (hmsg : ∀ ref ∈ addressed ignoreClient refs, ClientHears platform (idOf ref) msg)
    (hid : msg.header.id ≠ .serverValidation) (htold : Told s refs msg ignoreClient t refs') :
    t.Informs platform refs' := by
  obtain ⟨effects, hlog, hcast⟩ := htold.cast
  refine ⟨htold.enrolled h.toEnrolled, ?_, ?_⟩
  · apply h.toInformed.append (h.approvals.extends_ htold.extends_) hlog
    exact fun ref m hmem ↦ h.hears_of_cast hmsg hid (hcast _ hmem)
  · rw [htold.extends_.approved]
    exact h.few

theorem failed (h : s.Informs platform refs)
    (hmsg : ∀ ref ∈ addressed ignoreClient refs, ClientHears platform (idOf ref) msg)
    (hid : msg.header.id ≠ .serverValidation) {fault : Fault}
    (hfailed : Broadcast s refs msg ignoreClient (.error fault t)) : t.Informed platform := by
  have hextends := hfailed.overflows.2.extends_
  obtain ⟨effects, rfl, hcast⟩ := hfailed.cast
  apply h.toInformed.append (h.approvals.extends_ hextends) rfl
  exact fun ref m hmem ↦ h.hears_of_cast hmsg hid (hcast _ hmem)

theorem ends_told (h : s.Informs platform refs)
    (hmsg : ∀ ref ∈ addressed ignoreClient refs, ClientHears platform (idOf ref) msg)
    (hid : msg.header.id ≠ .serverValidation) (depth : ℕ) :
    Ends (fun s' ↦ ∃ refs', Told s refs msg ignoreClient s' refs')
      (fun _ s' ↦ s'.Informed platform) ((messageAllClients depth msg ignoreClient).run s) := by
  have houtcome := broadcast_outcome h.toListed depth msg ignoreClient
  cases hrun : (messageAllClients depth msg ignoreClient).run s with
  | ok u t =>
      rw [hrun] at houtcome
      exact houtcome.told
  | error fault t =>
      rw [hrun] at houtcome
      exact h.failed hmsg hid houtcome

theorem ends_messageAllClients (h : s.Informs platform refs)
    (hmsg : ∀ ref ∈ addressed ignoreClient refs, ClientHears platform (idOf ref) msg)
    (hid : msg.header.id ≠ .serverValidation) (depth : ℕ) :
    Ends (fun s' ↦ ∃ refs', s'.Informs platform refs') (fun _ s' ↦ s'.Informed platform)
      ((messageAllClients depth msg ignoreClient).run s) := by
  apply (h.ends_told hmsg hid depth).mono
  · rintro t ⟨refs', htold⟩
    exact ⟨refs', h.told hmsg hid htold⟩
  · exact fun _ _ hinformed ↦ hinformed

/-- The connections, their numbers and the log stay. -/
theorem fields (h : s.Informs platform refs) (hdeque : t.m_deqConnections = s.m_deqConnections)
    (happrovals : t.Approvals) (happroved : t.approved = s.approved) (hlog : t.log = s.log) :
    t.Informs platform refs := by
  refine ⟨h.toEnrolled.fields hdeque happroved, h.toInformed.fields happrovals hlog, ?_⟩
  rw [happroved]
  exact h.few

theorem popped (h : s.Informs platform refs) (m_qMessagesIn : List (ConnRef × Msg)) :
    Informs platform { s with m_qMessagesIn } refs :=
  h.fields rfl (h.approvals.congr rfl rfl rfl rfl h.approvals.validated) rfl rfl

theorem exists_onAccept (h : s.Informs platform refs) (hfew : s.approved + 1 < 2 ^ 32 - 10000) :
    ∃ refs', s.onAccept.Informs platform refs' := by
  have happrovals := h.approvals.onAccept
  have hinformed : s.onAccept.Informed platform := h.toInformed.fields happrovals s.log_onAccept
  cases hconnect : s.onClientConnect with
  | true =>
      refine ⟨_, h.toEnrolled.onAccept hconnect, hinformed, ?_⟩
      have happroved : s.onAccept.approved = s.approved + 1 := by
        rw [Server.onAccept, if_pos hconnect]
      omega
  | false =>
      refine ⟨refs, ?_⟩
      rwa [Server.onAccept, hconnect, if_neg (by simp)]

theorem stored (h : s.Informs platform refs) (players : AssocMap UInt32 PlayerData) :
    Informs platform { s with players } refs :=
  h.fields rfl (h.approvals.congr rfl rfl rfl rfl h.approvals.validated) rfl rfl

theorem indifferent (platform : Platform) :
    Indifferent (Informs platform) (fun _ s ↦ s.Informed platform) where
  listed h := h.toListed
  fields h _ _ _ :=
    h.fields rfl (h.approvals.congr rfl rfl rfl rfl h.approvals.validated) rfl rfl
  told h hmsg htold := h.told (fun _ _ ↦ .atLarge _ hmsg) hmsg.header_ne htold
  overflow h hmsg hoverflow :=
    h.failed (fun _ _ ↦ .atLarge _ hmsg) hmsg.header_ne hoverflow.broadcast
  noCell h _ := h.toInformed

theorem welcomed (h : s.Informs platform refs) {env : Env} {spawnpoint : Position} (hr : r < s.approved)
    (hnew : ¬ s.Validated r)
    (hsizes : SizesFit platform (env.iteration (s.joined env r spawnpoint)) s.powerups) :
    (s.welcomed platform env r spawnpoint).Informs platform refs := by
  have hsent : ∀ ref m, .sent ref m ∈ (s.welcomed platform env r spawnpoint).log →
      .sent ref m ∈ s.log ∨ ref = r ∧ m = s.snapshotMsg platform env r spawnpoint := by
    intro ref m hmem
    rcases List.mem_append.mp hmem with hmem | hmem
    · exact .inl hmem
    · exact .inr (by simpa using hmem)
  refine ⟨h.toEnrolled.fields rfl rfl, ⟨h.approvals.welcomed hr, fun ref m hmem ↦ ?_,
    fun ref ↦ ?_⟩, h.few⟩
  · rcases hsent ref m hmem with hmem | ⟨rfl, rfl⟩
    · exact h.hears ref m hmem
    · have hid : (s.snapshotMsg platform env ref spawnpoint).header.id = .serverValidation :=
        Packet.header_id_stateMsg ..
      refine ⟨fun hforeign ↦ by rcases hforeign with heq | heq | heq <;> simp [hid] at heq,
        fun _ ↦ ⟨_, _, hsizes, ?_, ?_⟩⟩
      · rw [← h.approvals.getID ref hr]
        exact List.mem_map.mpr ⟨(s.getID ref, _), env.mem_iteration.mpr (AList.lookup_insert _), rfl⟩
      · rw [← h.approvals.getID ref hr]
        rfl
  · have hbefore := h.once ref
    change snapshots (sentTo (s.log ++ _) ref) ≤ _
    rw [sentTo_append, snapshots_append]
    by_cases heq : ref = r
    · subst heq
      rw [if_neg hnew, Nat.le_zero] at hbefore
      have hvalidated : (s.welcomed platform env ref spawnpoint).Validated ref := by
        simp [Server.Validated, Server.welcomed]
      rw [hbefore, if_pos hvalidated, Nat.zero_add]
      exact (List.countP_le_length).trans_eq (by simp [sentTo])
    · have hothers : snapshots (sentTo [.validated r,
          .sent r (s.snapshotMsg platform env r spawnpoint)] ref) = 0 := by
        simp [sentTo, Ne.symm heq, snapshots]
      have hvalidated : (s.welcomed platform env r spawnpoint).Validated ref ↔ s.Validated ref := by
        simp [Server.Validated, Server.welcomed, heq]
      rw [hothers, Nat.add_zero]
      simpa only [hvalidated] using hbefore

theorem ends_onClientValidated (h : s.Informs platform refs) (env : Env) (depth : ℕ)
    (hr : r < s.approved) (hnew : ¬ s.Validated r)
    (hsizes : ∀ spawnpoint ∈ s.spawnpoints.getLast?,
      SizesFit platform (env.iteration (s.joined env r spawnpoint)) s.powerups) :
    Ends (fun s' ↦ ∃ refs', s'.Informs platform refs') (fun _ s' ↦ s'.Informed platform)
      ((onClientValidated platform env depth r).run s) := by
  apply Server.ends_onClientValidated
  · intro _
    exact h.toInformed.append (h.approvals.logged_validated hr) rfl fun _ _ hmem ↦ by simp at hmem
  · intro spawnpoint hspawn
    have hwelcomed := h.welcomed hr hnew (hsizes spawnpoint hspawn)
    apply (indifferent platform).announce
    apply hwelcomed.ends_messageAllClients
    · intro ref href
      obtain ⟨hmem, hne⟩ := mem_addressed.mp href
      refine .ofOther (carriedID_newPlayerMsg _ _) ?_ ?_
      · rw [h.approvals.getID r hr]
        exact h.ne hr (h.approved ref hmem) fun heq ↦ hne (congrArg some heq.symm)
      · rw [Packet.header_id_newPlayerMsg]
        exact fun hid ↦ by cases hid
    · rw [Packet.header_id_newPlayerMsg]
      exact fun hid ↦ by cases hid

/-- The relay of a report leaves out the one that it is about. -/
theorem ends_onMessage (h : s.Informs platform refs) (env : Env) (depth : ℕ) (hr : r < s.approved)
    (hown : msg.header.id = .updatePlayer → carriedID msg = some (idOf r)) :
    Ends (fun s' ↦ ∃ refs', s'.Informs platform refs') (fun _ s' ↦ s'.Informed platform)
      ((onMessage platform env depth r msg).run s) := by
  apply (indifferent platform).onMessage h env depth r h.toInformed
  intro hid
  have hheader : msg.header.id ≠ .serverValidation := by simp [hid]
  have hmsg : ∀ ref ∈ addressed (some r) refs, ClientHears platform (idOf ref) msg := by
    intro ref href
    obtain ⟨hmem, hne⟩ := mem_addressed.mp href
    refine .ofOther (hown hid) ?_ hheader
    exact h.ne hr (h.approved ref hmem) fun heq ↦ hne (congrArg some heq.symm)
  apply ends_onMessage_updatePlayer (J := Informs platform) hid (h.ends_told hmsg hheader depth)
  · exact fun _ _ htold ↦ h.told hmsg hheader htold
  · exact fun _ _ _ _ _ ht _ ↦ ht.stored _
  · exact fun _ _ ht ↦ ht.toInformed
  · exact fun _ _ ht ↦ ht.toInformed
  · intro t refs' player clientID direction tail rest htold _ _
    have hmoved : (t.moved (s.getID r) player tail direction).Informs platform refs' :=
      (h.told hmsg hheader htold).stored _
    apply ends_playerCollision
    · exact ⟨refs', hmoved⟩
    · exact fun _ _ _ _ _ _ ↦ (hmoved.stored _).toInformed
    · intro owner _ _ _ _ _ _
      have hcollided : ((t.moved (s.getID r) player tail direction).logged
          [.collided clientID.toUInt32 owner]).Informs platform refs' := by
        refine ⟨hmoved.toEnrolled.fields rfl rfl, ?_, hmoved.few⟩
        exact hmoved.toInformed.append (hmoved.approvals.collided _ _) rfl
          fun _ _ hmem ↦ by simp at hmem
      apply hcollided.ends_messageAllClients
      · exact fun _ _ ↦ .killPlayer _ clientID
      · exact fun hkill ↦ by cases hkill

end Informs

theorem exists_log_onClientValidated (platform : Platform) (env : Env) (depth : ℕ) (r : ConnRef)
    (s : Server) :
    ∃ effects, (after ((onClientValidated platform env depth r).run s)).log = s.log ++ effects := by
  cases hspawn : s.spawnpoints.getLast? with
  | none =>
      rw [run_onClientValidated_none platform hspawn]
      exact ⟨_, rfl⟩
  | some spawnpoint =>
      rw [run_onClientValidated platform hspawn]
      obtain ⟨effects, hlog, -⟩ := (only_announce platform env depth r (s.getID r)
        { direction := .up, tail := [spawnpoint], color := env.color }
        (s.welcomed platform env r spawnpoint)).log
      exact ⟨_, hlog.trans (List.append_assoc ..)⟩

end Server

/-! ## The clients -/

namespace Peer

/-- The client has handled its `ServerValidation`. -/
def Joined (peer : Peer) : Prop := ∃ msg ∈ peer.handled, msg.header.id = .serverValidation

instance (peer : Peer) : Decidable peer.Joined := inferInstanceAs (Decidable (∃ _ ∈ _, _))

/-- The client has handled no `KillPlayer` of its own player. -/
def Spared (own : UInt32) (peer : Peer) : Prop :=
  ∀ msg ∈ peer.handled, msg.header.id = .killPlayer → carriedID msg ≠ some own

instance (own : UInt32) (peer : Peer) : Decidable (peer.Spared own) :=
  inferInstanceAs (Decidable (∀ _ ∈ _, _))

/-- The client has been sent `toClient`, reports about itself only, and knows
its player from its snapshot on. -/
structure Informed (own : UInt32) (toClient : List Msg) (peer : Peer) : Prop where
  sent : ∀ msg ∈ peer.sent, msg.header.id = .updatePlayer → carriedID msg = some own
  frames : peer.reader.frames ≤ toClient.length
  received : peer.handled ++ peer.m_qMessagesIn = toClient.take peer.reader.frames
  clientID : peer.client.clientID = -1 ∨ peer.client.ownID = own
  playing : peer.phase ≠ .connecting → 0 ≤ peer.client.clientID
  joined : peer.Joined → peer.client.ownID = own ∧ own ∈ peer.client.players

namespace Informed

variable {platform : Platform} {own : UInt32} {toClient : List Msg} {peer : Peer}

theorem start (own : UInt32) (toClient : List Msg) : Peer.Informed own toClient {} where
  sent _ h := by cases h
  frames := Nat.zero_le _
  received := rfl
  clientID := .inl rfl
  playing h := absurd rfl h
  joined := by
    rintro ⟨_, hmem, -⟩
    cases hmem

theorem append (h : peer.Informed own toClient) (more : List Msg) :
    peer.Informed own (toClient ++ more) where
  sent := h.sent
  frames := h.frames.trans (by simp)
  received := by rw [h.received, List.take_append_of_le_length h.frames]
  clientID := h.clientID
  playing := h.playing
  joined := h.joined

theorem send (h : peer.Informed own toClient) {msg : Msg}
    (hmsg : msg.header.id = .updatePlayer → carriedID msg = some own) :
    (peer.send msg).Informed own toClient := by
  unfold Peer.send
  split
  · refine ⟨fun m hm ↦ ?_, h.frames, h.received, h.clientID, h.playing, h.joined⟩
    rcases List.mem_append.mp hm with hm | hm
    · exact h.sent m hm
    · rw [List.mem_singleton.mp hm]
      exact hmsg
  · exact h

theorem sendAny (h : peer.Informed own toClient) {msg : Option Msg}
    (hmsg : ∀ m ∈ msg, m.header.id = .updatePlayer → carriedID m = some own) :
    (peer.sendAny msg).Informed own toClient := by
  cases msg with
  | none => exact h
  | some m => exact h.send (hmsg m rfl)

/-- A client that plays knows its id. -/
theorem ownID_eq (h : peer.Informed own toClient) (hplaying : peer.phase ≠ .connecting) :
    peer.client.ownID = own := by
  apply h.clientID.resolve_left
  intro hnone
  have hpos := h.playing hplaying
  rw [hnone] at hpos
  exact absurd hpos (by decide)

theorem plays (h : peer.Informed own toClient) {client : SnakeClient}
    (hplays : peer.client.Plays client) (phase : Phase) (hplaying : peer.phase ≠ .connecting) :
    { peer with client, phase }.Informed own toClient where
  sent := h.sent
  frames := h.frames
  received := h.received
  clientID := by
    right
    rw [SnakeClient.ownID, hplays.clientID]
    exact h.ownID_eq hplaying
  playing _ := by
    rw [hplays.clientID]
    exact h.playing hplaying
  joined hjoined := by
    obtain ⟨hown, hmem⟩ := h.joined hjoined
    subst hown
    refine ⟨?_, hplays.own hmem⟩
    rw [SnakeClient.ownID, SnakeClient.ownID, hplays.clientID]

theorem receive (h : peer.Informed own toClient) {msg : Msg}
    (hnext : toClient[peer.reader.frames]? = some msg) :
    { peer with
      m_qMessagesIn := peer.m_qMessagesIn ++ [msg]
      reader.frames := peer.reader.frames + 1 }.Informed own toClient where
  sent := h.sent
  frames := (List.getElem?_eq_some_iff.mp hnext).1
  received := by
    rw [← List.append_assoc, h.received, List.take_add_one, hnext]
    rfl
  clientID := h.clientID
  playing := h.playing
  joined := h.joined

/-- A client that has its snapshot gets no other one. -/
theorem header_ne_of_joined (h : peer.Informed own toClient) (honce : snapshots toClient ≤ 1)
    (hjoined : peer.Joined) {msg : Msg} (hmem : msg ∈ peer.m_qMessagesIn) :
    msg.header.id ≠ .serverValidation := by
  intro hid
  obtain ⟨first, hfirst, hfirstID⟩ := hjoined
  have hhandled : 0 < snapshots peer.handled :=
    List.countP_pos_iff.mpr ⟨first, hfirst, decide_eq_true hfirstID⟩
  have hqueued : 0 < snapshots peer.m_qMessagesIn :=
    List.countP_pos_iff.mpr ⟨msg, hmem, decide_eq_true hid⟩
  have hall : snapshots (toClient.take peer.reader.frames) ≤ snapshots toClient :=
    (List.take_sublist _ _).countP_le
  rw [← h.received, snapshots_append] at hall
  omega

theorem mem_of_queued (h : peer.Informed own toClient) {msg : Msg}
    (hmem : msg ∈ peer.m_qMessagesIn) : msg ∈ toClient := by
  have htaken : msg ∈ toClient.take peer.reader.frames := by
    rw [← h.received]
    exact List.mem_append_right _ hmem
  exact List.mem_of_mem_take htaken

theorem handle (h : peer.Informed own toClient) (hhears : ∀ msg ∈ toClient, ClientHears platform own msg)
    {msg : Msg} {rest : List Msg} {client : SnakeClient} (hqueue : peer.m_qMessagesIn = msg :: rest)
    (hhandle : peer.client.handleMessage platform msg = .ok client) :
    { peer with
      client
      m_qMessagesIn := rest
      handled := peer.handled ++ [msg] }.Informed own toClient := by
  have hmsg := hhears msg (h.mem_of_queued (by rw [hqueue]; exact List.mem_cons_self ..))
  have hreceived : (peer.handled ++ [msg]) ++ rest = toClient.take peer.reader.frames := by
    rw [← h.received, hqueue]
    simp
  by_cases hid : msg.header.id = .serverValidation
  · have hknows := hmsg.knows_of_snapshot hhandle hid
    refine ⟨h.sent, h.frames, hreceived, .inr hknows.1, fun hplaying ↦ ?_, fun _ ↦ hknows⟩
    have hsame : client.clientID = peer.client.clientID :=
      congrArg UInt32.toInt32 (hknows.1.trans (h.ownID_eq hplaying).symm)
    rw [hsame]
    exact h.playing hplaying
  · have hsame := SnakeClient.clientID_of_handle hhandle hid
    refine ⟨h.sent, h.frames, hreceived, ?_, fun hplaying ↦ ?_, ?_⟩
    · rw [SnakeClient.ownID, hsame]
      exact h.clientID
    · rw [hsame]
      exact h.playing hplaying
    · rintro ⟨m, hm, hmID⟩
      have hjoined : peer.Joined := by
        rcases List.mem_append.mp hm with hm | hm
        · exact ⟨m, hm, hmID⟩
        · rw [List.mem_singleton.mp hm] at hmID
          exact absurd hmID hid
      obtain ⟨hown, hmem⟩ := h.joined hjoined
      refine ⟨?_, hmsg.mem_of_handle hhandle hid hmem⟩
      rw [SnakeClient.ownID, hsame]
      exact hown

end Informed

end Peer

/-! ## Every run -/

/-- Fewer than 2^32 - 10000 connections are accepted. -/
def FewAccepted (S : System) : Event → Prop
  | .accept => S.server.approved + 1 < 2 ^ 32 - 10000
  | _ => True

instance (S : System) (e : Event) : Decidable (FewAccepted S e) := by
  rcases e <;> unfold FewAccepted <;> infer_instance

namespace System

variable {platform : Platform} {depth : ℕ} {S S' : System} {r : ConnRef}

structure Informed (platform : Platform) (S : System) : Prop where
  server : S.server.Informed platform
  up : S.fault = none → ∃ refs, S.server.Informs platform refs
  queued : ∀ r msg, (r, msg) ∈ S.server.m_qMessagesIn → r < S.server.approved ∧
    (msg.header.id = .updatePlayer → carriedID msg = some (idOf r))
  peers : ∀ r, (S.peers r).Informed (idOf r) (sentTo S.server.log r)

namespace Informed

theorem start (platform : Platform) : System.Informed platform {} where
  server := .init
  up _ := ⟨[], ⟨Server.enrolled_init, .init, by decide⟩⟩
  queued _ _ h := by cases h
  peers r := .start _ _

theorem setPeer (h : S.Informed platform) {peer : Peer}
    (hpeer : peer.Informed (idOf r) (sentTo S.server.log r)) :
    (S.setPeer r peer).Informed platform where
  server := h.server
  up := h.up
  queued := h.queued
  peers := @forall_setPeer S r peer
    (fun r' peer ↦ peer.Informed (idOf r') (sentTo S.server.log r')) hpeer fun r' _ ↦ h.peers r'

/-- The server changes, and what it has sent before stays sent. -/
theorem setServer (h : S.Informed platform) {server : Server} {fault : Option Fault}
    (hserver : server.Informed platform)
    (hup : fault = none → ∃ refs, server.Informs platform refs)
    (hqueued : ∀ r msg, (r, msg) ∈ server.m_qMessagesIn → r < server.approved ∧
      (msg.header.id = .updatePlayer → carriedID msg = some (idOf r)))
    (hlog : ∃ effects, server.log = S.server.log ++ effects) :
    { S with server, fault }.Informed platform where
  server := hserver
  up := hup
  queued := hqueued
  peers r := by
    obtain ⟨effects, hlog⟩ := hlog
    rw [hlog, sentTo_append]
    exact (h.peers r).append _

theorem serve (h : S.Informed platform) {handler : ServerM Unit}
    (hends : Server.Ends (fun s' ↦ ∃ refs', s'.Informs platform refs')
      (fun _ s' ↦ s'.Informed platform) (handler.run S.server))
    (huntouched : S.server.Untouched (Server.after (handler.run S.server)))
    (hlog : ∃ effects, (Server.after (handler.run S.server)).log = S.server.log ++ effects) :
    (S.serve handler).Informed platform := by
  have hqueued : ∀ r msg, (r, msg) ∈ (Server.after (handler.run S.server)).m_qMessagesIn →
      r < (Server.after (handler.run S.server)).approved ∧
        (msg.header.id = .updatePlayer → carriedID msg = some (idOf r)) := by
    rw [huntouched.queue, huntouched.approved]
    exact h.queued
  unfold System.serve
  cases hrun : handler.run S.server with
  | ok u server =>
      rw [hrun] at hends hqueued hlog
      obtain ⟨refs', hinforms⟩ := hends
      exact h.setServer hinforms.toInformed (fun _ ↦ ⟨refs', hinforms⟩) hqueued hlog
  | error fault server =>
      rw [hrun] at hends hqueued hlog
      exact h.setServer hends (fun hnone ↦ by cases hnone) hqueued hlog

theorem accept (h : S.Informed platform) (hup : S.fault = none) (hallowed : FewAccepted S .accept) :
    { S with server := S.server.onAccept }.Informed platform := by
  obtain ⟨refs, hinforms⟩ := h.up hup
  obtain ⟨refs', haccepted⟩ := hinforms.exists_onAccept hallowed
  refine h.setServer haccepted.toInformed (fun _ ↦ ⟨refs', haccepted⟩) ?_ ⟨[], by simp⟩
  intro r msg hmem
  rw [S.server.queue_onAccept] at hmem
  obtain ⟨hr, hown⟩ := h.queued r msg hmem
  refine ⟨Nat.lt_of_lt_of_le hr ?_, hown⟩
  unfold Server.onAccept
  split
  · exact Nat.le_succ _
  · exact le_rfl

theorem moves (h : S.Informed platform) {e : Event} (hsnapshots : SnapshotsFit platform S e)
    (hfew : FewAccepted S e) (hread : ∀ r, e ≠ .read r) (hreceive : ∀ r, e ≠ .receive r)
    (hmoves : Moves platform depth S e S') : S'.Informed platform := by
  cases hmoves with
  | accept hup => exact h.accept hup hfew
  | @validate r env hup hopen hnew =>
      obtain ⟨refs, hinforms⟩ := h.up hup
      apply h.serve
      · exact hinforms.ends_onClientValidated env depth (h.server.approvals.connected r hopen) hnew
          hsnapshots
      · exact Server.untouched_onClientValidated platform env depth r S.server
      · exact Server.exists_log_onClientValidated platform env depth r S.server
  | @close r happroved =>
      have happrovals := h.server.approvals.close r
      refine h.setServer (h.server.fields happrovals rfl) (fun hup ↦ ?_) h.queued ⟨[], by simp⟩
      obtain ⟨refs, hinforms⟩ := h.up hup
      exact ⟨refs, hinforms.fields rfl happrovals rfl rfl⟩
  | read => exact absurd rfl (hread _)
  | @update env r msg rest hup hqueue =>
      obtain ⟨refs, hinforms⟩ := h.up hup
      obtain ⟨hr, hown⟩ := h.queued r msg (by rw [hqueue]; exact List.mem_cons_self ..)
      have hpopped := hinforms.popped rest
      have hrest : { S with server.m_qMessagesIn := rest }.Informed platform := by
        refine h.setServer hpopped.toInformed (fun _ ↦ ⟨refs, hpopped⟩) ?_ ⟨[], by simp⟩
        intro r' m hm
        exact h.queued r' m (by rw [hqueue]; exact List.mem_cons_of_mem _ hm)
      apply hrest.serve
      · exact hpopped.ends_onMessage env depth hr hown
      · exact Server.untouched_onMessage platform env depth r msg _
      · obtain ⟨effects, hlog, -⟩ := (Server.only_onMessage platform env depth r msg _).log
        exact ⟨effects, hlog⟩
  | hangUp r =>
      have hpeer := h.peers r
      exact h.setPeer ⟨hpeer.sent, hpeer.frames, hpeer.received, hpeer.clientID, hpeer.playing,
        hpeer.joined⟩
  | receive => exact absurd rfl (hreceive _)
  | @handle r msg rest client hqueue _ hhandle =>
      apply h.setPeer
      exact (h.peers r).handle (fun m hm ↦ h.server.hears r m (mem_sentTo.mp hm)) hqueue hhandle
  | @enterGame r _ hid =>
      have hpeer := h.peers r
      exact h.setPeer ⟨hpeer.sent, hpeer.frames, hpeer.received, hpeer.clientID, fun _ ↦ hid,
        hpeer.joined⟩
  | @frame r client msg hphase hframe =>
      have hplaying : (S.peers r).phase ≠ .connecting := by simp [hphase]
      have hpeer := (h.peers r).plays (.frame hframe) .handling hplaying
      refine h.setPeer (hpeer.sendAny fun m hm hid ↦ ?_)
      rcases SnakeClient.frame_powerups hframe with ⟨-, hnone⟩ | ⟨_, eaten, _, -, -, -, heaten⟩
      · rw [hnone] at hm
        cases hm
      · rw [heaten] at hm
        cases hm
        cases hid
  | @updateServer r client msg hphase hupdate =>
      have hplaying : (S.peers r).phase ≠ .connecting := by simp [hphase]
      have hpeer := (h.peers r).plays (.updateServer hupdate) .polling hplaying
      obtain ⟨-, direction, hmsg⟩ := SnakeClient.updateServer_cases hupdate
      refine h.setPeer (hpeer.send fun _ ↦ ?_)
      rw [hmsg, carriedID_updatePlayerMsg]
      exact congrArg some ((h.peers r).ownID_eq hplaying)
  | @key r key press client msg hphase hkey =>
      have hplaying : (S.peers r).phase ≠ .connecting := by simp [hphase]
      have hpeer := (h.peers r).plays (.keyCallback hkey) (S.peers r).phase hplaying
      refine h.setPeer (hpeer.sendAny fun m hm hid ↦ ?_)
      rcases (SnakeClient.keyCallback_cases hkey).2 with hnone | hstart
      · rw [hnone] at hm
        cases hm
      · rw [hstart] at hm
        cases hm
        cases hid

theorem stepByValue (h : S.Informed platform) {e : Event} (hsnapshots : SnapshotsFit platform S e)
    (hfew : FewAccepted S e) (hstep : S.stepByValue platform depth e = some S') :
    S'.Informed platform := by
  cases moves_of_stepByValue hstep with
  | @read r msg hup hopen _ hsent =>
      obtain ⟨refs, hinforms⟩ := h.up hup
      have hread := hinforms.popped (S.server.m_qMessagesIn ++ [(r, msg)])
      refine ⟨hread.toInformed, fun _ ↦ ⟨refs, hread⟩, fun r' m hm ↦ ?_, h.peers⟩
      rcases List.mem_append.mp hm with hm | hm
      · exact h.queued r' m hm
      · obtain ⟨rfl, rfl⟩ := Prod.mk.inj (List.mem_singleton.mp hm)
        exact ⟨h.server.approvals.connected _ hopen,
          (h.peers _).sent _ (List.mem_of_getElem? hsent)⟩
  | receive _ hsent => exact h.setPeer ((h.peers _).receive hsent)
  | other hread hreceive hmoves => exact h.moves hsnapshots hfew hread hreceive hmoves

/-- What one step does to the player of a client that has its snapshot and has
not been told of its death. -/
theorem exists_ownChange (h : S.Informed platform) {e : Event}
    (hstep : S.stepByValue platform depth e = some S') (hjoined : (S.peers r).Joined)
    (hspared : (S'.peers r).Spared (idOf r)) : ∃ player player',
      (S.peers r).client.players.lookup (idOf r) = some player ∧
        (S'.peers r).client.players.lookup (idOf r) = some player' ∧
          OwnChange r player e player' := by
  obtain ⟨hownID, hmem⟩ := (h.peers r).joined hjoined
  obtain ⟨player, hplayer⟩ := AssocMap.lookup_eq_some_of_mem hmem
  have hown : (S.peers r).client.players.lookup (S.peers r).client.ownID = some player := by
    rw [hownID]
    exact hplayer
  have hkept : ∃ player', (S.peers r).client.players.lookup (idOf r) = some player' ∧
      OwnChange r player e player' := ⟨player, hplayer, .kept e⟩
  -- A step of another client replaces another peer.
  have hset : ∀ {r' peer}, (r' = r → peer.Spared (idOf r) → ∃ player',
      peer.client.players.lookup (idOf r) = some player' ∧ OwnChange r player e player') →
        ((S.setPeer r' peer).peers r).Spared (idOf r) → ∃ player',
          ((S.setPeer r' peer).peers r).client.players.lookup (idOf r) = some player' ∧
            OwnChange r player e player' := by
    intro r' peer hpeer hspared
    exact @forall_setPeer S r' peer (fun other peer ↦ other = r → peer.Spared (idOf r) →
      ∃ player', peer.client.players.lookup (idOf r) = some player' ∧ OwnChange r player e player')
        hpeer (fun _ _ heq _ ↦ heq ▸ hkept) r rfl hspared
  suffices hchange : ∃ player', (S'.peers r).client.players.lookup (idOf r) = some player' ∧
      OwnChange r player e player' by
    obtain ⟨player', hplayer', hchange⟩ := hchange
    exact ⟨player, player', hplayer, hplayer', hchange⟩
  cases moves_of_stepByValue hstep with
  | read => exact hkept
  | @receive r' => exact hset (fun heq _ ↦ heq ▸ hkept) hspared
  | other hread hreceive hmoves =>
      cases hmoves with
      | accept => exact hkept
      | validate => simpa using hkept
      | close => exact hkept
      | read => exact absurd rfl (hread _)
      | update => simpa using hkept
      | hangUp r' => exact hset (fun heq _ ↦ heq ▸ hkept) hspared
      | receive => exact absurd rfl (hreceive _)
      | @handle r' msg rest client hqueue _ hhandle =>
          refine hset ?_ hspared
          rintro rfl hspared
          have hpeer := h.peers r'
          have hqueued : msg ∈ (S.peers r').m_qMessagesIn := by
            rw [hqueue]
            exact List.mem_cons_self ..
          have hmsg := h.server.hears r' msg (mem_sentTo.mp (hpeer.mem_of_queued hqueued))
          have honce : snapshots (sentTo S.server.log r') ≤ 1 :=
            (h.server.once r').trans (by split <;> omega)
          have hlookup := hmsg.lookup_of_handle hhandle
            (hpeer.header_ne_of_joined honce hjoined hqueued)
            (hspared msg (List.mem_append_right _ (List.mem_singleton_self _)))
          exact ⟨player, hlookup.trans hplayer, .kept _⟩
      | @enterGame r' => exact hset (fun heq _ ↦ heq ▸ hkept) hspared
      | @frame r' client msg _ hframe =>
          refine hset ?_ hspared
          rintro rfl -
          obtain ⟨player', hplayer', hchange⟩ := SnakeClient.lookup_frame_own hframe hown r'
          rw [hownID] at hplayer'
          exact ⟨player', by simpa using hplayer', hchange⟩
      | @updateServer r' client msg _ hupdate =>
          refine hset ?_ hspared
          rintro rfl -
          have hplayer' := SnakeClient.lookup_updateServer_own hupdate hown
          rw [hownID] at hplayer'
          exact ⟨player, by simpa using hplayer', .kept _⟩
      | @key r' key press client msg _ hkey =>
          refine hset ?_ hspared
          rintro rfl -
          obtain ⟨player', hplayer', hchange⟩ := SnakeClient.lookup_keyCallback_own hkey hown r'
          rw [hownID] at hplayer'
          exact ⟨player', by simpa using hplayer', hchange⟩

end Informed

/-- Every client that has been accepted is the only authority over its own player. -/
structure Authority (platform : Platform) (depth : ℕ) (S : System) : Prop where
  unheard : ∀ r, r < S.server.approved → ∀ msg, .sent r msg ∈ S.server.log →
    msg.header.id = .updatePlayer ∨ msg.header.id = .newPlayer →
      carriedID msg ≠ some (S.server.getID r)
  /-- From its `ServerValidation` to its `KillPlayer` a client has its player, and
  no step but its own changes it. -/
  own : ∀ r, r < S.server.approved → ∀ e S', S.stepByValue platform depth e = some S' →
    (S.peers r).Joined → (S'.peers r).Spared (S.server.getID r) → ∃ player player',
      (S.peers r).client.players.lookup (S.server.getID r) = some player ∧
        (S'.peers r).client.players.lookup (S.server.getID r) = some player' ∧
          OwnChange r player e player'

end System

/-- No client is told what its own snake does, in any run with fewer than
2^32 - 10000 accepted connections. -/
theorem authority_of_reaches {platform : Platform} {depth : ℕ} {S : System}
    (h : Reaches (System.stepByValue platform depth)
      (fun S e ↦ System.SnapshotsFit platform S e ∧ FewAccepted S e) {} S) :
    S.Authority platform depth := by
  have hinformed : S.Informed platform :=
    h.invariant (.start platform) fun _ _ _ hS hallowed hstep ↦
      hS.stepByValue hallowed.1 hallowed.2 hstep
  refine ⟨fun r hr msg hsent hheader ↦ ?_, fun r hr e S' hstep hjoined hspared ↦ ?_⟩
  · rw [hinformed.server.approvals.getID r hr]
    refine (hinformed.server.hears r msg hsent).foreign ?_
    rcases hheader with hheader | hheader
    · exact .inl hheader
    · exact .inr (.inl hheader)
  · rw [hinformed.server.approvals.getID r hr] at hspared ⊢
    exact hinformed.exists_ownChange hstep hjoined hspared

/-- The first client has joined and is alive when the second one has seen it move. -/
theorem authority_firstMoves :
    ∃ S, run (guarded (System.stepByValue .x64 8) fun S e ↦
          System.SnapshotsFit .x64 S e ∧ FewAccepted S e) {} firstMoves = some S ∧
      (0 < S.server.approved ∧ (S.peers 0).Joined ∧ (S.peers 0).Spared (S.server.getID 0)) ∧
        S.Authority .x64 8 := by
  obtain ⟨S, hrun, hjoined⟩ := (Option.any_eq_true _ _).mp
    (show (run (guarded (System.stepByValue .x64 8) fun S e ↦
      System.SnapshotsFit .x64 S e ∧ FewAccepted S e) {} firstMoves).any (fun S ↦
        decide (0 < S.server.approved ∧ (S.peers 0).Joined ∧
          (S.peers 0).Spared (S.server.getID 0))) = true by decide +kernel)
  exact ⟨S, hrun, of_decide_eq_true hjoined, authority_of_reaches (reaches_of_guarded hrun)⟩

end SnekCpp
