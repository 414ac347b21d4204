import SnekCpp.Game.ByValue
import SnekCpp.Game.Departures
import SnekCpp.SnekServer.Board

/-!
# All positions on the board

Honest clients and the server exchange positions of the grid only: no decoder
makes up a position, and no move leaves the grid.
-/

namespace SnekCpp

open Lib Networking

/-! ## Messages -/

/-- The containers of a snapshot have sizes that `size()` can return. -/
structure SizesFit (platform : Platform) (roster : List (UInt32 × PlayerData))
    (powerups : List PowerupData) : Prop where
  players : Packet.FitsSizeT platform roster.length
  tails : ∀ entry ∈ roster, Packet.FitsSizeT platform entry.2.tail.length
  count : Packet.FitsSizeT platform powerups.length

instance (platform : Platform) (roster : List (UInt32 × PlayerData))
    (powerups : List PowerupData) : Decidable (SizesFit platform roster powerups) :=
  decidable_of_iff (Packet.FitsSizeT platform roster.length ∧
    (∀ entry ∈ roster, Packet.FitsSizeT platform entry.2.tail.length) ∧
      Packet.FitsSizeT platform powerups.length)
    ⟨fun h ↦ ⟨h.1, h.2.1, h.2.2⟩, fun h ↦ ⟨h.players, h.tails, h.count⟩⟩

/-- The messages of both programs that carry positions of the grid only. -/
inductive MsgOnBoard (platform : Platform) : Msg → Prop
  | serverValidation {roster : List (UInt32 × PlayerData)} {powerups : List PowerupData}
      (hsizes : SizesFit platform roster powerups)
      (hroster : ∀ entry ∈ roster, ∀ pos ∈ entry.2.tail, pos.OnBoard)
      (hpowerups : ∀ powerup ∈ powerups, powerup.position.OnBoard) (id : UInt32) :
      MsgOnBoard platform (Server.stateMsg platform roster powerups id)
  | newPlayer {player : PlayerData} (htail : ∀ pos ∈ player.tail, pos.OnBoard) (id : UInt32) :
      MsgOnBoard platform (Server.newPlayerMsg platform player id)
  | removePlayer (id : Int32) : MsgOnBoard platform (Server.removePlayerMsg id)
  | startGame : MsgOnBoard platform (.new .startGame)
  | updatePlayer {tail : List Position} (htail : ∀ pos ∈ tail, pos.OnBoard)
      (direction : Direction) (id : Int32) :
      MsgOnBoard platform (SnakeClient.updatePlayerMsg platform tail direction id)
  | newPowerup {powerup : PowerupData} (hpowerup : powerup.position.OnBoard) :
      MsgOnBoard platform (Server.newPowerupMsg powerup)
  | powerupEaten {powerup : PowerupData} (hpowerup : powerup.position.OnBoard) :
      MsgOnBoard platform (Server.powerupEatenMsg powerup)
  | killPlayer (id : Int32) : MsgOnBoard platform (Server.killPlayerMsg id)

/-- A count that is too small stops in the middle of the tail. -/
theorem popTail_pushTail_of_le {msg : Msg} (h : msg.Consistent) {tail : List Position} {count : ℕ}
    (hle : count ≤ tail.length) : ∃ rest,
      popTail count [] (pushTail msg tail) = .ok (tail.drop (tail.length - count), rest) := by
  set left := tail.length - count with hleft
  have hsplit : pushTail msg tail = pushTail (pushTail msg (tail.take left)) (tail.drop left) := by
    unfold pushTail
    rw [← List.foldl_append, List.take_append_drop]
  have hcount : (tail.drop left).length = count := by
    rw [List.length_drop]
    omega
  have hpop := popTail_pushTail (consistent_pushTail h (tail.take left)) (tail.drop left) []
  rw [hcount, List.append_nil] at hpop
  exact ⟨_, by rw [hsplit, hpop]⟩

theorem toNat_ofLength_le (platform : Platform) (n : ℕ) :
    (SizeT.ofLength platform n).toNat ≤ n := by
  rw [SizeT.ofLength, BitVec.toNat_ofNat]
  exact Nat.mod_le _ _

theorem mem_of_popSizedTail {platform : Platform} {msg rest : Msg} (h : msg.Consistent)
    {tail popped : List Position}
    (hpop : SnakeClient.popSizedTail platform
      ((pushTail msg tail).push (SizeT.ofLength platform tail.length)) = .ok (popped, rest)) :
    ∀ pos ∈ popped, pos ∈ tail := by
  obtain ⟨⟨size, left⟩, hread, hpop⟩ := bind_eq_ok.mp hpop
  rw [readField_push (consistent_pushTail h tail)] at hread
  cases hread
  obtain ⟨-, -, hpop⟩ := bind_eq_ok.mp hpop
  obtain ⟨left, htaken⟩ := popTail_pushTail_of_le h (toNat_ofLength_le platform tail.length)
  rw [htaken] at hpop
  cases hpop
  exact fun pos hpos ↦ List.mem_of_mem_drop hpos

theorem mem_of_poppedPositions {msg : Msg} (h : msg.Consistent) (hempty : msg.body = [])
    {tail : List Position} {count : ℕ} {pos : Position}
    (hpos : pos ∈ Server.poppedPositions count (pushTail msg tail)) : pos ∈ tail := by
  induction tail using List.reverseRecOn generalizing count with
  | nil =>
      have hread : readField Position msg = .error .shortBody :=
        readField_of_lt (by rw [hempty, size_position]; decide)
      cases count with
      | zero => cases hpos
      | succ count =>
          rw [Server.poppedPositions, show pushTail msg [] = msg from rfl, hread] at hpos
          cases hpos
  | append_singleton tail last ih =>
      have hpush : pushTail msg (tail ++ [last]) = (pushTail msg tail).push last := by
        simp [pushTail, Message.shiftLeft_eq_push]
      cases count with
      | zero => cases hpos
      | succ count =>
          rw [Server.poppedPositions, hpush, readField_push (consistent_pushTail h tail)] at hpos
          rcases List.mem_cons.mp hpos with rfl | hpos
          · simp
          · exact List.mem_append_left _ (ih hpos)

/-- More powerups than an `int` can count are not decoded. -/
theorem decode_stateMsg_of_many {platform : Platform} {roster : List (UInt32 × PlayerData)}
    {powerups : List PowerupData} (hcount : Packet.FitsSizeT platform powerups.length)
    (hmany : ¬ powerups.length < 2 ^ 31) (id : UInt32) :
    Packet.decode platform (Server.stateMsg platform roster powerups id) =
      .error .intOverflow := by
  obtain ⟨powerupCount, hpowerupCount, hread⟩ := Packet.readField_size
    (Packet.consistent_pushPowerups (Message.consistent_push _ (SizeT.ofLength platform
      roster.length)) powerups) hcount
  unfold Packet.decode
  rw [Packet.header_id_stateMsg]
  simp only [Packet.stateMsg_eq, Packet.readField_int32_push (Message.consistent_push _ _), bind,
    Except.bind]
  rw [hread]
  simp only [hpowerupCount, Packet.countInt_eq_error hmany]

namespace MsgOnBoard

variable {platform : Platform} {msg : Msg}

/-- What a client decodes is on the board. -/
theorem decode (h : MsgOnBoard platform msg) {packet : Packet}
    (hdecode : Packet.decode platform msg = .ok packet) : packet.OnBoard := by
  cases h with
  | @serverValidation roster powerups hsizes hroster hpowerups id =>
      by_cases hcount : powerups.length < 2 ^ 31
      · rw [Packet.decode_stateMsg hsizes.players hsizes.tails hcount] at hdecode
        split at hdecode
        · cases hdecode
          refine ⟨fun powerup hpowerup ↦ hpowerups powerup (List.mem_reverse.mp hpowerup),
            fun entry hentry ↦ ?_⟩
          obtain ⟨player, hplayer, rfl⟩ := List.mem_map.mp (List.mem_reverse.mp hentry)
          exact hroster player hplayer
        · cases hdecode
      · rw [decode_stateMsg_of_many hsizes.count hcount] at hdecode
        cases hdecode
  | @newPlayer player htail id =>
      have hbase := Message.consistent_new MessageTypes.newPlayer
      rw [Packet.decode, Packet.header_id_newPlayerMsg] at hdecode
      simp only [Server.newPlayerMsg, Server.addPlayerToMsg, Message.shiftLeft_eq_push, bind,
        Except.bind, readField_push (Message.consistent_push _ _)] at hdecode
      split at hdecode
      · cases hdecode
      · next popped hpop =>
          cases hdecode
          exact fun pos hpos ↦ htail pos (mem_of_popSizedTail hbase hpop pos hpos)
  | removePlayer id =>
      rw [Packet.decode_removePlayerMsg] at hdecode
      cases hdecode
      trivial
  | startGame =>
      cases hdecode
      trivial
  | @updatePlayer tail htail direction id =>
      have hbase := Message.consistent_new MessageTypes.updatePlayer
      rw [Packet.decode, Packet.header_id_updatePlayerMsg] at hdecode
      simp only [SnakeClient.updatePlayerMsg, Message.shiftLeft_eq_push, bind, Except.bind,
        readField_push (Message.consistent_push _ _)] at hdecode
      split at hdecode
      · cases hdecode
      · next popped hpop =>
          cases hdecode
          exact fun pos hpos ↦ htail pos (mem_of_popSizedTail hbase hpop pos hpos)
  | newPowerup hpowerup =>
      rw [Packet.decode_newPowerupMsg] at hdecode
      cases hdecode
      exact hpowerup
  | powerupEaten hpowerup =>
      rw [Packet.decode_powerupEatenMsg] at hdecode
      cases hdecode
      exact hpowerup
  | killPlayer id =>
      rw [Packet.decode_killPlayerMsg] at hdecode
      cases hdecode
      trivial

/-- What the server stores is on the board. -/
theorem storedPositions (h : MsgOnBoard platform msg) (hid : msg.header.id = .updatePlayer) :
    ∀ pos ∈ Server.storedPositions platform msg, pos.OnBoard := by
  cases h with
  | @updatePlayer tail htail direction id =>
      have hbase := Message.consistent_new MessageTypes.updatePlayer
      simp only [Server.storedPositions, SnakeClient.updatePlayerMsg, Message.shiftLeft_eq_push, bind,
        Except.bind, readField_push (Message.consistent_push _ _),
        readField_push (consistent_pushTail hbase _), pure, Except.pure, Except.toOption,
        Option.getD_some]
      exact fun pos hpos ↦ htail pos (mem_of_poppedPositions hbase rfl hpos)
  | serverValidation hsizes hroster hpowerups id =>
      rw [Packet.header_id_stateMsg] at hid
      cases hid
  | newPlayer htail id =>
      rw [Packet.header_id_newPlayerMsg] at hid
      cases hid
  | _ => cases hid

theorem powerupEatenMsg (h : MsgOnBoard platform msg) (hid : msg.header.id = .powerupEaten)
    {powerup : PowerupData} {rest : Msg} (hread : readField PowerupData msg = .ok (powerup, rest)) :
    MsgOnBoard platform (Server.powerupEatenMsg powerup) := by
  have hdecode : Packet.decode platform msg = .ok (.powerupEaten powerup) := by
    rw [Packet.decode, hid]
    simp only [hread]
    rfl
  exact .powerupEaten (h.decode hdecode)

theorem builds (platform : Platform) : Server.Builds (MsgOnBoard platform) where
  removePlayer := .removePlayer
  killPlayer := .killPlayer
  newPowerup _ := .newPowerup

end MsgOnBoard

/-! ## The clients -/

/-- Everything that a client has is on the board, and what it has been sent and sends. -/
structure Peer.OnBoard (platform : Platform) (peer : Peer) : Prop where
  client : peer.client.OnBoard
  received : ∀ msg ∈ peer.m_qMessagesIn, MsgOnBoard platform msg
  sent : ∀ msg ∈ peer.sent, MsgOnBoard platform msg

namespace Peer.OnBoard

variable {platform : Platform} {peer : Peer}

theorem start : ({} : Peer).OnBoard platform where
  client := .start
  received _ h := by cases h
  sent _ h := by cases h

theorem send (h : peer.OnBoard platform) {msg : Msg} (hmsg : MsgOnBoard platform msg) :
    (peer.send msg).OnBoard platform := by
  unfold Peer.send
  split
  · refine ⟨h.client, h.received, fun m hm ↦ ?_⟩
    rcases List.mem_append.mp hm with hm | hm
    · exact h.sent m hm
    · rw [List.mem_singleton.mp hm]
      exact hmsg
  · exact h

theorem sendAny (h : peer.OnBoard platform) {msg : Option Msg}
    (hmsg : ∀ m ∈ msg, MsgOnBoard platform m) : (peer.sendAny msg).OnBoard platform := by
  cases msg with
  | none => exact h
  | some m => exact h.send (hmsg m rfl)

/-- A client on the board handles its messages and keeps its other data. -/
theorem setClient (h : peer.OnBoard platform) {client : SnakeClient} (hclient : client.OnBoard)
    (phase : Phase) : { peer with client, phase }.OnBoard platform :=
  ⟨hclient, h.received, h.sent⟩

theorem handle (h : peer.OnBoard platform) {msg : Msg} {rest : List Msg} {client : SnakeClient}
    (hqueue : peer.m_qMessagesIn = msg :: rest)
    (hhandle : peer.client.handleMessage platform msg = .ok client) (handled : List Msg) :
    { peer with client, m_qMessagesIn := rest, handled }.OnBoard platform := by
  obtain ⟨packet, hdecode, rfl⟩ := SnakeClient.handleMessage_cases hhandle
  have hmsg := h.received msg (by rw [hqueue]; exact List.mem_cons_self ..)
  refine ⟨h.client.handlePacket (hmsg.decode hdecode), fun m hm ↦ ?_, h.sent⟩
  exact h.received m (by rw [hqueue]; exact List.mem_cons_of_mem _ hm)

end Peer.OnBoard

namespace System

variable {platform : Platform} {depth : ℕ} {S S' : System}

/-- All positions that are stored or in flight are on the board. -/
structure OnBoard (platform : Platform) (S : System) : Prop where
  server : S.server.OnBoard (MsgOnBoard platform)
  queue : ∀ r msg, (r, msg) ∈ S.server.m_qMessagesIn → MsgOnBoard platform msg
  peers : ∀ r, (S.peers r).OnBoard platform

namespace OnBoard

theorem start : OnBoard platform {} where
  server := Server.onBoard_init
  queue _ _ h := by cases h
  peers _ := .start

theorem setPeer (h : S.OnBoard platform) (r : ConnRef) {peer : Peer}
    (hpeer : peer.OnBoard platform) : (S.setPeer r peer).OnBoard platform where
  server := h.server
  queue := h.queue
  peers := forall_setPeer hpeer fun other _ ↦ h.peers other

/-- A handler that keeps the board and receives nothing. -/
theorem serve (h : S.OnBoard platform) {handler : ServerM Unit}
    (hkeeps : Server.Ends (Server.OnBoard (MsgOnBoard platform))
      (fun fault t ↦ fault ≠ .gridIndex ∧ t.OnBoard (MsgOnBoard platform))
        (handler.run S.server))
    (hqueue : (Server.after (handler.run S.server)).m_qMessagesIn = S.server.m_qMessagesIn) :
    (S.serve handler).OnBoard platform := by
  unfold System.serve
  cases hrun : handler.run S.server with
  | ok u server =>
      rw [hrun] at hkeeps hqueue
      refine ⟨hkeeps, fun r msg hmem ↦ h.queue r msg ?_, h.peers⟩
      rwa [show server.m_qMessagesIn = S.server.m_qMessagesIn from hqueue] at hmem
  | error fault server =>
      rw [hrun] at hkeeps hqueue
      refine ⟨hkeeps.2, fun r msg hmem ↦ h.queue r msg ?_, h.peers⟩
      rwa [show server.m_qMessagesIn = S.server.m_qMessagesIn from hqueue] at hmem

end OnBoard

/-- The snapshots that are built have container sizes that `size()` can return. -/
def SnapshotsFit (platform : Platform) (S : System) : Event → Prop
  | .validate r env => ∀ spawnpoint ∈ S.server.spawnpoints.getLast?,
      SizesFit platform (env.iteration (S.server.joined env r spawnpoint)) S.server.powerups
  | _ => True

instance (platform : Platform) (S : System) (e : Event) : Decidable (SnapshotsFit platform S e) := by
  rcases e <;> unfold SnapshotsFit <;> infer_instance

namespace OnBoard

theorem snapshotMsg (h : S.OnBoard platform) {r : ConnRef} {env : Env} {spawnpoint : Position}
    (hspawn : S.server.spawnpoints.getLast? = some spawnpoint)
    (hsizes : SizesFit platform (env.iteration (S.server.joined env r spawnpoint))
      S.server.powerups) : MsgOnBoard platform (S.server.snapshotMsg platform env r spawnpoint) := by
  refine .serverValidation hsizes (fun entry hentry pos hpos ↦ ?_) h.server.powerups _
  have hlookup := env.mem_iteration.mp hentry
  rw [Server.joined, AssocMap.lookup_insert_eq] at hlookup
  split at hlookup
  · have hentry' := Option.some.inj hlookup
    rw [← hentry'] at hpos
    rw [List.mem_singleton.mp hpos]
    exact h.server.spawnpoints spawnpoint (List.mem_of_getLast? hspawn)
  · exact h.server.players _ _ hlookup pos hpos

theorem moves (h : S.OnBoard platform) {e : Event} (hallowed : SnapshotsFit platform S e)
    (hread : ∀ r, e ≠ .read r) (hreceive : ∀ r, e ≠ .receive r)
    (hmoves : Moves platform depth S e S') : S'.OnBoard platform := by
  cases hmoves with
  | accept hup =>
      refine ⟨h.server.onAccept, fun r msg hmem ↦ h.queue r msg ?_, h.peers⟩
      rwa [← S.server.queue_onAccept]
  | @validate r env hup hopen hnew =>
      apply h.serve
      · apply Server.keepsBoard_onClientValidated (MsgOnBoard.builds platform) _ _ _ _ h.server
        · exact fun spawnpoint hspawn ↦ h.snapshotMsg hspawn (hallowed spawnpoint hspawn)
        · exact fun _ _ htail ↦ .newPlayer htail _
      · exact (Server.untouched_onClientValidated platform env depth r S.server).queue
  | close happroved => exact ⟨⟨h.server.players, h.server.powerups, h.server.spawnpoints,
      h.server.sent⟩, h.queue, h.peers⟩
  | read => exact absurd rfl (hread _)
  | @update env r msg rest hup hqueue =>
      have hmsg := h.queue r msg (by rw [hqueue]; exact List.mem_cons_self ..)
      have hpopped : OnBoard platform { S with server.m_qMessagesIn := rest } := by
        refine ⟨⟨h.server.players, h.server.powerups, h.server.spawnpoints, h.server.sent⟩,
          fun r' m hm ↦ h.queue r' m ?_, h.peers⟩
        rw [hqueue]
        exact List.mem_cons_of_mem _ hm
      apply hpopped.serve
      · apply Server.keepsBoard_onMessage (MsgOnBoard.builds platform) _ _ _ _ _ _ _ _
          hpopped.server
        · exact fun _ ↦ hmsg
        · exact fun _ _ hid hpowerup ↦ hmsg.powerupEatenMsg hid hpowerup
        · exact hmsg.storedPositions
      · exact (Server.untouched_onMessage platform env depth r msg _).queue
  | hangUp r =>
      have hpeer := h.peers r
      exact h.setPeer r ⟨hpeer.client, hpeer.received, hpeer.sent⟩
  | receive => exact absurd rfl (hreceive _)
  | @handle r msg rest client hqueue hphase hhandle =>
      exact h.setPeer r ((h.peers r).handle hqueue hhandle _)
  | @enterGame r hphase hid => exact h.setPeer r ((h.peers r).setClient (h.peers r).client _)
  | @frame r client msg hphase hframe =>
      obtain ⟨hclient, heaten⟩ := (h.peers r).client.frame hframe
      apply h.setPeer r
      apply ((h.peers r).setClient hclient _).sendAny
      intro m hm
      obtain ⟨powerup, hpowerup, rfl⟩ := heaten m hm
      exact .powerupEaten hpowerup
  | @updateServer r client msg hphase hupdate =>
      obtain ⟨hclient, tail, direction, htail, hmsg⟩ :=
        (h.peers r).client.updateServer platform
      rw [hupdate] at hclient hmsg
      apply h.setPeer r
      apply ((h.peers r).setClient hclient _).send
      rw [show msg = _ from hmsg]
      exact .updatePlayer htail _ _
  | @key r key press client msg hphase hkey =>
      have hclient := (h.peers r).client.keyCallback key press
      rw [hkey] at hclient
      apply h.setPeer r
      apply ((h.peers r).setClient hclient _).sendAny
      intro m hm
      rcases (SnakeClient.keyCallback_cases hkey).2 with hnone | hstart
      · rw [hnone] at hm
        cases hm
      · rw [hstart] at hm
        cases hm
        exact .startGame

theorem stepByValue (h : S.OnBoard platform) {e : Event} (hallowed : SnapshotsFit platform S e)
    (hstep : S.stepByValue platform depth e = some S') : S'.OnBoard platform := by
  cases moves_of_stepByValue hstep with
  | @read r msg _ _ _ hsent =>
      have hmsg := (h.peers r).sent msg (List.mem_of_getElem? hsent)
      refine ⟨⟨h.server.players, h.server.powerups, h.server.spawnpoints, h.server.sent⟩,
        fun r' m hm ↦ ?_, h.peers⟩
      rcases List.mem_append.mp hm with hm | hm
      · exact h.queue r' m hm
      · obtain ⟨-, rfl⟩ := Prod.mk.inj (List.mem_singleton.mp hm)
        exact hmsg
  | @receive r msg _ hsent =>
      have hmsg := h.server.sent r msg (mem_sentTo.mp (List.mem_of_getElem? hsent))
      have hpeer := h.peers r
      refine h.setPeer r ⟨hpeer.client, fun m hm ↦ ?_, hpeer.sent⟩
      rcases List.mem_append.mp hm with hm | hm
      · exact hpeer.received m hm
      · rw [List.mem_singleton.mp hm]
        exact hmsg
  | other hread hreceive hmoves => exact h.moves hallowed hread hreceive hmoves

end OnBoard

end System

/-- No run of the game leaves the board. -/
theorem onBoard_of_reaches {platform : Platform} {depth : ℕ} {S : System}
    (h : Reaches (System.stepByValue platform depth) (System.SnapshotsFit platform) {} S) :
    S.OnBoard platform :=
  h.invariant .start fun _ _ _ hboard hallowed hstep ↦ hboard.stepByValue hallowed hstep

/-- The first client moves, reports, and the second one sees it. -/
def firstMoves : List Event :=
  bothJoin ++ [.key 0 .d true, .frame 0, .updateServer 0, .read 0, .update .plain, .frame 1,
    .receive 1, .handle 1]

theorem onBoard_firstMoves :
    ∃ S, run (guarded (System.stepByValue .x64 8) (System.SnapshotsFit .x64)) {} firstMoves =
        some S ∧ S.OnBoard .x64 := by
  obtain ⟨S, hrun⟩ : ∃ S, run (guarded (System.stepByValue .x64 8) (System.SnapshotsFit .x64)) {}
      firstMoves = some S := Option.isSome_iff_exists.mp (by decide +kernel)
  exact ⟨S, hrun, onBoard_of_reaches (reaches_of_guarded hrun)⟩

end SnekCpp
