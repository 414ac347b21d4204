import SnekCpp.SnekServer.Malformed
import SnekCpp.SnekServer.Replication

/-!
# Whom an `UpdatePlayer` is about

The server stores the tail of an `UpdatePlayer` under the id of the connection,
and checks and relays it under the id in the body.  A handler is confined to one
player if it touches no other one, on the server or on a client.
-/

namespace SnekCpp

open Lib Networking

/-- No client that has copies of players in `known` only and handles the message
changes its copy of another player than `own`. -/
def ConcernsOnly (platform : Platform) (known : UInt32 → Prop) (own : UInt32) (msg : Msg) : Prop :=
  ∀ peer peer' : SnakeClient, (∀ id ∈ peer.players, known id) →
    peer.handleMessage platform msg = .ok peer' →
      ∀ id, id ≠ own → peer'.players.lookup id = peer.players.lookup id

section ConcernsOnly

variable {platform : Platform} {known : UInt32 → Prop} {own : UInt32} {msg : Msg}

theorem concernsOnly_iff_of_decode {packet : Packet}
    (hdecode : Packet.decode platform msg = .ok packet) :
    ConcernsOnly platform known own msg ↔ ∀ peer : SnakeClient, (∀ id ∈ peer.players, known id) →
      ∀ id, id ≠ own → (peer.handlePacket packet).players.lookup id = peer.players.lookup id := by
  have hhandle (peer : SnakeClient) :
      peer.handleMessage platform msg = .ok (peer.handlePacket packet) := by
    rw [SnakeClient.handleMessage_eq, hdecode]
    rfl
  constructor
  · exact fun h peer hknown ↦ h peer _ hknown (hhandle peer)
  · intro h peer peer' hknown heq
    rw [hhandle] at heq
    cases heq
    exact h peer hknown

theorem lookup_handlePacket_updatePlayer_ne (peer : SnakeClient) (own : UInt32)
    (direction : Direction) (tail : List Position) {id : UInt32} (hne : id ≠ own) :
    (peer.handlePacket (.updatePlayer own direction tail)).players.lookup id =
      peer.players.lookup id := by
  simp only [SnakeClient.handlePacket]
  rw [AList.lookup_insert_ne hne, AssocMap.lookup_subscript_ne _ _ hne]

/-- A client without players gets the one that is reported. -/
theorem concernsOnly_updatePlayer_iff {id : UInt32} {direction : Direction} {tail : List Position}
    (hdecode : Packet.decode platform msg = .ok (.updatePlayer id direction tail)) :
    ConcernsOnly platform known own msg ↔ id = own := by
  rw [concernsOnly_iff_of_decode hdecode]
  constructor
  · intro h
    by_contra hne
    have hnone := h {} (fun _ hid ↦ absurd hid (AList.notMem_empty _)) id hne
    simp only [SnakeClient.handlePacket, AList.lookup_insert] at hnone
    cases hnone
  · rintro rfl peer - other hne
    exact lookup_handlePacket_updatePlayer_ne peer id direction tail hne

theorem concernsOnly_removePlayerMsg_iff (id : UInt32) :
    ConcernsOnly platform known own (Server.removePlayerMsg id.toInt32) ↔ id = own ∨ ¬ known id := by
  rw [concernsOnly_iff_of_decode (Packet.decode_removePlayerMsg _), UInt32.toUInt32_toInt32]
  constructor
  · intro h
    by_contra hnot
    obtain ⟨hne, hknown⟩ := not_or.mp hnot
    have hheld : ∀ other ∈ (∅ : AssocMap UInt32 Player).insert id default, known other := by
      intro other hother
      rcases (AList.mem_insert _).mp hother with rfl | hother
      · exact not_not.mp hknown
      · exact absurd hother (AList.notMem_empty _)
    have hsame := h { players := (∅ : AssocMap UInt32 Player).insert id default } hheld id hne
    simp only [SnakeClient.handlePacket, AList.lookup_erase, AList.lookup_insert] at hsame
    cases hsame
  · intro h peer hheld other hne
    simp only [SnakeClient.handlePacket, AssocMap.lookup_erase_eq]
    split
    · next heq =>
        subst heq
        have hmissing : other ∉ peer.players := fun hmem ↦
          (h.resolve_left hne) (hheld other hmem)
        exact (AList.lookup_eq_none.mpr hmissing).symm
    · rfl

theorem concernsOnly_killPlayerMsg {clientID : Int32} (h : clientID.toUInt32 = own) :
    ConcernsOnly platform known own (Server.killPlayerMsg clientID) := by
  rw [concernsOnly_iff_of_decode (Packet.decode_killPlayerMsg _)]
  rintro peer - id hne
  simp only [h, SnakeClient.handlePacket]
  rw [AList.lookup_insert_ne hne, AssocMap.lookup_subscript_ne _ _ hne]

end ConcernsOnly

namespace Server

variable {platform : Platform} {known : UInt32 → Prop} {s : Server} {refs : List ConnRef}
  {r : ConnRef} {env : Env} {depth : ℕ} {msg rest : Msg} {clientID : Int32} {direction : Direction} {tail : List Position}

/-! ## The clients decode what the server decodes -/

/-- A body of less than 2^32 bytes holds no tail that a client cannot count. -/
theorem decode_of_popUpdate (hid : msg.header.id = .updatePlayer)
    (hsize : msg.body.length < 2 ^ 32)
    (hpop : popUpdate platform msg = .ok ((clientID, direction, tail), rest)) :
    Packet.decode platform msg = .ok (.updatePlayer clientID.toUInt32 direction tail) := by
  obtain ⟨⟨_, afterID⟩, hreadID, hpop⟩ := bind_eq_ok.mp hpop
  obtain ⟨⟨_, afterDirection⟩, hreadDirection, hpop⟩ := bind_eq_ok.mp hpop
  obtain ⟨⟨tailLength, afterLength⟩, hreadLength, hpop⟩ := bind_eq_ok.mp hpop
  obtain ⟨⟨_, afterTail⟩, hpopTail, hpop⟩ := bind_eq_ok.mp hpop
  cases hpop
  have hlength : 8 * tailLength.toNat ≤ afterLength.body.length := by
    by_contra hshort
    rw [popUnsignedTail, popTail_of_lt [] (Nat.lt_of_not_le hshort), ite_self] at hpopTail
    cases hpopTail
  have hID := length_body_of_readField hreadID
  have hDirection := length_body_of_readField hreadDirection
  have hLength := length_body_of_readField hreadLength
  have hcount : tailLength.toNat < 2 ^ 31 := by omega
  rw [popUnsignedTail, if_pos (by omega)] at hpopTail
  unfold Packet.decode
  rw [hid]
  simp only [SnakeClient.popSizedTail, hreadID, hreadDirection, hreadLength, bind, Except.bind,
    Packet.countInt_eq hcount, hpopTail]
  rfl

/-! ## Confinement -/

/-- An effect that is about one player only. -/
def About (platform : Platform) (known : UInt32 → Prop) (own : UInt32) : Effect → Prop
  | .sent _ msg => (∀ clientID, msg = killPlayerMsg clientID → clientID.toUInt32 = own) ∧
      ConcernsOnly platform known own msg
  | .collided id _ => id = own
  | _ => True

/-- From `s` to `s'` no player is added, only `own` is changed, and only `own` is
killed and sent about. -/
structure ConfinedTo (platform : Platform) (known : UInt32 → Prop) (own : UInt32)
    (s s' : Server) : Prop where
  keys : ∀ id, id ∈ s'.players → id ∈ s.players
  entries : ∀ id, id ≠ own → s'.players.lookup id = s.players.lookup id
  log : ∃ effects, s'.log = s.log ++ effects ∧ ∀ e ∈ effects, About platform known own e

namespace ConfinedTo

variable {own : UInt32} {t u : Server}

theorem refl (platform : Platform) (known : UInt32 → Prop) (own : UInt32) (s : Server) :
    ConfinedTo platform known own s s :=
  ⟨fun _ h ↦ h, fun _ _ ↦ rfl, [], by simp, by simp⟩

theorem trans (h : ConfinedTo platform known own s t) (h' : ConfinedTo platform known own t u) :
    ConfinedTo platform known own s u := by
  obtain ⟨first, hfirst, haboutFirst⟩ := h.log
  obtain ⟨second, hsecond, haboutSecond⟩ := h'.log
  refine ⟨fun id hid ↦ h.keys id (h'.keys id hid),
    fun id hne ↦ (h'.entries id hne).trans (h.entries id hne), first ++ second, ?_, ?_⟩
  · rw [hsecond, hfirst, List.append_assoc]
  · intro e he
    rcases List.mem_append.mp he with he | he
    · exact haboutFirst e he
    · exact haboutSecond e he

/-- The effects after `s` are about `own`, whatever else has changed. -/
theorem about (h : ConfinedTo platform known own s t) {effects : List Effect}
    (hlog : t.log = s.log ++ effects) : ∀ e ∈ effects, About platform known own e := by
  obtain ⟨effects', hlog', habout⟩ := h.log
  rw [hlog, List.append_cancel_left_eq] at hlog'
  exact hlog' ▸ habout

theorem moved {player : PlayerData} (hknown : own ∈ s.players) (tail : List Position)
    (direction : Direction) :
    ConfinedTo platform known own s (s.moved own player tail direction) := by
  refine ⟨fun id hid ↦ ?_, fun id hne ↦ lookup_moved_ne hne, [], by simp [Server.moved], by simp⟩
  rcases (AList.mem_insert _).mp hid with rfl | hid
  · exact hknown
  · exact hid

end ConfinedTo

theorem confinedTo_logged {own : UInt32} {effects : List Effect} :
    ConfinedTo platform known own s (s.logged effects) ↔
      ∀ e ∈ effects, About platform known own e :=
  ⟨fun h ↦ h.about rfl, fun h ↦ ⟨fun _ h ↦ h, fun _ _ ↦ rfl, effects, rfl, h⟩⟩

theorem about_removePlayerMsg {own id : UInt32} {ref : ConnRef} :
    About platform known own (.sent ref (removePlayerMsg id.toInt32)) ↔ id = own ∨ ¬ known id := by
  have hkill : ∀ clientID, removePlayerMsg id.toInt32 = killPlayerMsg clientID →
      clientID.toUInt32 = own := by
    intro clientID heq
    have hid := congrArg (fun msg : Msg ↦ msg.header.id) heq
    cases hid
  rw [About, concernsOnly_removePlayerMsg_iff]
  exact ⟨fun h ↦ h.2, fun h ↦ ⟨hkill, h⟩⟩

theorem about_updatePlayer {own id : UInt32} {ref : ConnRef}
    (hid : msg.header.id = .updatePlayer)
    (hdecode : Packet.decode platform msg = .ok (.updatePlayer id direction tail)) :
    About platform known own (.sent ref msg) ↔ id = own := by
  have hkill : ∀ clientID, msg = killPlayerMsg clientID → clientID.toUInt32 = own := by
    rintro clientID rfl
    cases hid
  rw [About, concernsOnly_updatePlayer_iff hdecode]
  exact ⟨fun h ↦ h.2, fun h ↦ ⟨hkill, h⟩⟩

theorem toUInt32_eq_of_killPlayerMsg {id other : Int32} (h : killPlayerMsg id = killPlayerMsg other) :
    id.toUInt32 = other.toUInt32 := by
  have hdecode := congrArg (Packet.decode .x64) h
  simpa [Packet.decode_killPlayerMsg] using hdecode

theorem about_killPlayerMsg {own : UInt32} {ref : ConnRef} (hown : clientID.toUInt32 = own) :
    About platform known own (.sent ref (killPlayerMsg clientID)) :=
  ⟨fun _ heq ↦ (toUInt32_eq_of_killPlayerMsg heq).symm.trans hown, concernsOnly_killPlayerMsg hown⟩

theorem forall_mem_sends {P : Effect → Prop} {clients : List ConnRef} :
    (∀ e ∈ sends msg clients, P e) ↔ ∀ ref ∈ clients, P (.sent ref msg) :=
  List.forall_mem_map

theorem forall_sends_iff {P : Effect → Prop} {clients : List ConnRef} {p : Prop}
    (hP : ∀ ref, P (.sent ref msg) ↔ p) :
    (∀ e ∈ sends msg clients, P e) ↔ clients = [] ∨ p := by
  rw [forall_mem_sends]
  constructor
  · intro h
    cases clients with
    | nil => exact .inl rfl
    | cons ref clients => exact .inr ((hP ref).mp (h ref List.mem_cons_self))
  · rintro (rfl | hp) ref href
    · cases href
    · exact (hP ref).mpr hp

/-! ## Broadcasts about one player -/

/-- The removal of a player is confined to `own` if the player is `own` or is
known to nobody whom it reaches. -/
theorem confinedTo_departed_iff {own : UInt32} {ignoreClient : Option ConnRef}
    {before after : List ConnRef} {gone : ConnRef} :
    ConfinedTo platform known own s (s.departed msg ignoreClient before gone after) ↔
      (s.getID gone = own ∨ s.getID gone ∉ s.players) ∧
        ∀ e ∈ s.departure msg ignoreClient before gone after, About platform known own e := by
  constructor
  · intro h
    refine ⟨?_, h.about rfl⟩
    by_cases hown : s.getID gone = own
    · exact .inl hown
    · right
      have hsame := h.entries _ hown
      simp only [departed, AList.lookup_erase] at hsame
      exact AList.lookup_eq_none.mp hsame.symm
  · rintro ⟨hgone, habout⟩
    refine ⟨fun id hid ↦ (AList.mem_erase.mp hid).2, fun id hne ↦ ?_, _, rfl, habout⟩
    simp only [departed, AssocMap.lookup_erase_eq]
    split
    · next heq =>
        subst heq
        exact (AList.lookup_eq_none.mpr (hgone.resolve_left hne)).symm
    · rfl

/-- A broadcast about `own` is confined to it if at most the connection of `own` is closed. -/
theorem Cast.about {ignoreClient : Option ConnRef} {e : Effect}
    (h : s.Cast refs msg ignoreClient e) {own : UInt32} (hown : s.getID r = own)
    (hmsg : ∀ ref, About platform known own (.sent ref msg))
    (hopen : ∀ ref ∈ refs, ref ≠ r → s.IsOpen ref) : About platform known own e := by
  subst hown
  rcases h with ⟨ref, -, -, rfl⟩ | hremoval
  · exact hmsg ref
  · cases e with
    | sent ref m =>
        obtain ⟨-, -, gone, hgone, hclosed, rfl⟩ := hremoval
        have heq : gone = r := by
          by_contra hne
          exact hclosed (hopen gone hgone hne)
        subst heq
        exact about_removePlayerMsg.mpr (.inl rfl)
    | disconnected client => trivial
    | validated client => trivial
    | collided id owner => exact hremoval.elim

theorem Told.confinedTo {s' : Server} {refs' : List ConnRef} {ignoreClient : Option ConnRef}
    (h : Told s refs msg ignoreClient s' refs') {own : UInt32} (hown : s.getID r = own)
    (hmsg : ∀ ref, About platform known own (.sent ref msg))
    (hopen : ∀ ref ∈ refs, ref ≠ r → s.IsOpen ref) : ConfinedTo platform known own s s' := by
  obtain ⟨effects, hlog, hcast⟩ := h.cast
  have habout : ∀ e ∈ effects, About platform known own e := fun e he ↦
    (hcast e he).about hown hmsg hopen
  cases h with
  | delivered => exact confinedTo_logged.mpr ((List.append_cancel_left hlog) ▸ habout)
  | @departed before after gone hrefs _ hclosed =>
      have hgone : gone = r := by
        by_contra hne
        exact hclosed (hopen gone (by simp [hrefs]) hne)
      subst hgone hown
      exact confinedTo_departed_iff.mpr ⟨.inl rfl, (List.append_cancel_left hlog) ▸ habout⟩

theorem Overflows.confinedTo {s' : Server} (h : Overflows s refs msg s') {own : UInt32}
    (hown : s.getID r = own) (hmsg : ∀ ref, About platform known own (.sent ref msg))
    (hopen : ∀ ref ∈ refs, ref ≠ r → s.IsOpen ref) : ConfinedTo platform known own s s' := by
  obtain ⟨effects, rfl, hcast⟩ := h.broadcast.cast
  exact confinedTo_logged.mpr fun e he ↦ (hcast e he).about hown hmsg hopen

/-! ## The collision check of a foreign id -/

/-- The comparison with the cells of an entry finds no head and reads none that
is not there. -/
def Passes (s : Server) (id : UInt32) (entry : UInt32 × PlayerData) : Prop :=
  match s.cells id with
  | [] => collisionCells id entry = []
  | head :: _ => head ∉ collisionCells id entry

theorem log_sendKillMessage (s : Server) (depth : ℕ) (clientID : Int32) :
    ∃ effects, (after ((sendKillMessage depth clientID).run s)).log = s.log ++ effects := by
  obtain ⟨effects, hlog, -⟩ := (only_messageAllClients (.inl rfl) depth none s :
    OnlyFrom (killPlayerMsg clientID) s _).log
  exact ⟨effects, hlog⟩

theorem run_sendKillMessage_ne (s : Server) (e : Effect) (depth : ℕ) (clientID : Int32) :
    (sendKillMessage depth clientID).run (s.logged [e]) ≠ .ok () s := by
  intro hrun
  obtain ⟨effects, hlog⟩ := log_sendKillMessage (s.logged [e]) depth clientID
  have hlength := congrArg List.length hlog
  rw [hrun] at hlength
  simp only [after, Server.logged, List.length_append, List.length_singleton] at hlength
  omega

theorem passes_of_playerCollision
    (h : (playerCollision env depth clientID).run s = .ok () s) {id : UInt32} {player : PlayerData}
    (hplayer : s.players.lookup id = some player) : s.Passes clientID.toUInt32 (id, player) := by
  have hmem : (id, player) ∈ env.iteration s.players := env.mem_iteration.mpr hplayer
  have hrun : (playerCollisionOver depth clientID (env.iteration s.players)).run s = .ok () s := h
  clear h
  generalize env.iteration s.players = entries at hmem hrun
  induction entries with
  | nil => cases hmem
  | cons entry entries ih =>
      rw [playerCollisionOver, EStateM.run_bind] at hrun
      have hentry : s.Passes clientID.toUInt32 entry ∧
          (playerCollisionOver depth clientID entries).run s = .ok () s := by
        unfold Passes
        cases hown : s.cells clientID.toUInt32 with
        | nil =>
            rw [run_hitsCell_of_nil hown] at hrun
            cases hcells : collisionCells clientID.toUInt32 entry with
            | nil =>
                rw [hcells] at hrun
                exact ⟨rfl, by simpa using hrun⟩
            | cons cell cells =>
                rw [hcells] at hrun
                cases hrun
        | cons head tail =>
            rw [run_hitsCell_of_head hown] at hrun
            by_cases hhit : head ∈ collisionCells clientID.toUInt32 entry
            · simp only [hhit, decide_true, if_true, EStateM.run_bind, run_record] at hrun
              exact absurd hrun (run_sendKillMessage_ne s _ depth clientID)
            · exact ⟨hhit, by simpa [hhit] using hrun⟩
      rcases List.mem_cons.mp hmem with rfl | hmem
      · exact hentry.1
      · exact ih hmem hentry.2

/-- The check of the head of `id` has nothing to do: it compares no cell with
that head, or the player is known and has none. -/
def Unchecked (s : Server) (id : UInt32) : Prop :=
  (∀ other player, s.players.lookup other = some player → s.Passes id (other, player)) ∨
    s.cells id = [] ∧ id ∈ s.players

/-- A player `id` other than `own` is not hit when `own` has the tail: its head
is on no cell of the tail, of another player or of its own from index 4 on, and
an unknown one is not hit if there is no cell at all. -/
def Unhit (s : Server) (own id : UInt32) (tail : List Position) : Prop :=
  match s.players.lookup id with
  | none => tail = [] ∧
      ∀ other player, other ≠ own → s.players.lookup other = some player → player.tail = []
  | some checked => ∀ head ∈ checked.tail.head?, head ∉ tail ∧ head ∉ checked.tail.drop 4 ∧
      ∀ other player, other ≠ own → other ≠ id → s.players.lookup other = some player →
        head ∉ player.tail

theorem unhit_congr {t : Server} (h : ∀ id, t.players.lookup id = s.players.lookup id)
    (own id : UInt32) (tail : List Position) : t.Unhit own id tail ↔ s.Unhit own id tail := by
  simp only [Unhit, h]

theorem forall_lookup_moved {own : UInt32} {player : PlayerData} {P : UInt32 → PlayerData → Prop} :
    (∀ other p, (s.moved own player tail direction).players.lookup other = some p → P other p) ↔
      P own { player with tail, direction } ∧
        ∀ other p, other ≠ own → s.players.lookup other = some p → P other p := by
  constructor
  · intro h
    refine ⟨h own _ (AList.lookup_insert _), fun other p hne hother ↦ h other p ?_⟩
    rwa [lookup_moved_ne hne]
  · rintro ⟨hown, hothers⟩ other p hother
    by_cases heq : other = own
    · subst heq
      rw [moved, AList.lookup_insert] at hother
      exact Option.some.inj hother ▸ hown
    · rw [lookup_moved_ne heq] at hother
      exact hothers other p heq hother

theorem unchecked_moved_iff {own id : UInt32} (hne : id ≠ own) (player : PlayerData) :
    (s.moved own player tail direction).Unchecked id ↔ s.Unhit own id tail := by
  have hlookup : (s.moved own player tail direction).players.lookup id = s.players.lookup id :=
    lookup_moved_ne hne
  have hcells : (s.moved own player tail direction).cells id = s.cells id := by
    rw [cells, cells, hlookup]
  have hown : collisionCells id (own, { player with tail, direction }) = tail :=
    if_neg (Ne.symm hne)
  rw [Unchecked, forall_lookup_moved]
  simp only [Passes, hcells, hown]
  cases hid : s.players.lookup id with
  | none =>
      have hnone : s.cells id = [] := by simp [cells, hid]
      have hmissing : id ∉ (s.moved own player tail direction).players :=
        AList.lookup_eq_none.mp (hlookup.trans hid)
      simp only [Unhit, hid, hnone, hmissing, and_false, or_false]
      refine and_congr_right fun _ ↦ forall_congr' fun other ↦ forall_congr' fun p ↦
        forall_congr' fun _ ↦ forall_congr' fun hother ↦ ?_
      have hother' : other ≠ id := by
        rintro rfl
        rw [hid] at hother
        cases hother
      rw [collisionCells, if_neg hother']
  | some checked =>
      have hcells' : s.cells id = checked.tail := by simp [cells, hid]
      have hmem : id ∈ (s.moved own player tail direction).players :=
        AssocMap.mem_of_lookup (hlookup.trans hid)
      cases htail : checked.tail with
      | nil => simp [Unhit, hid, hcells', htail, hmem]
      | cons head cells =>
          simp only [Unhit, hid, hcells', htail, List.head?_cons, Option.mem_some_iff,
            forall_eq', reduceCtorEq, false_and, or_false]
          refine and_congr_right fun _ ↦ ?_
          constructor
          · intro h
            refine ⟨?_, fun other p hother hother' hp ↦ ?_⟩
            · have hself := h id checked hne hid
              rwa [collisionCells, if_pos rfl, htail] at hself
            · have hpasses := h other p hother hp
              rwa [collisionCells, if_neg hother'] at hpasses
          · rintro ⟨hself, hothers⟩ other p hother hp
            by_cases heq : other = id
            · subst heq
              rw [hid] at hp
              cases hp
              rwa [collisionCells, if_pos rfl, htail]
            · rw [collisionCells, if_neg heq]
              exact hothers other p hother heq hp

/-! ## After the relay -/

/-- What is left of `OnMessage` once an `UpdatePlayer` has been relayed. -/
def storeReport (env : Env) (depth : ℕ) (r : ConnRef) (clientID : Int32) (direction : Direction)
    (tail : List Position) : ServerM Unit := do
  let s ← get
  match s.players.lookup (s.getID r) with
  | none => throw .outOfRange
  | some player =>
      modify fun s ↦ s.moved (s.getID r) player tail direction
      playerCollision env depth clientID

theorem run_storeReport_none {t : Server} (h : t.players.lookup (t.getID r) = none) :
    (storeReport env depth r clientID direction tail).run t = .error .outOfRange t := by
  rw [storeReport, EStateM.run_bind, EStateM.run_get]
  simp only [h]
  rfl

theorem run_storeReport_some {t : Server} {player : PlayerData}
    (h : t.players.lookup (t.getID r) = some player) :
    (storeReport env depth r clientID direction tail).run t =
      (playerCollision env depth clientID).run (t.moved (t.getID r) player tail direction) := by
  rw [storeReport, EStateM.run_bind, EStateM.run_get]
  simp only [h, EStateM.run_bind, EStateM.run_modify]

section StoreReport

variable {t : Server} {own : UInt32}

theorem confinedTo_storeReport_own (hlisted : t.Listed refs)
    (hopen : ∀ ref ∈ refs, ref ≠ r → t.IsOpen ref) (hID : t.getID r = own)
    (hown : clientID.toUInt32 = own) :
    ConfinedTo platform known own t
      (after ((storeReport env depth r clientID direction tail).run t)) := by
  cases hlookup : t.players.lookup (t.getID r) with
  | none =>
      rw [run_storeReport_none hlookup]
      exact .refl _ _ _ _
  | some player =>
      rw [run_storeReport_some hlookup, hID]
      rw [hID] at hlookup
      have hconfined : ConfinedTo platform known own t (t.moved own player tail direction) :=
        .moved (AssocMap.mem_of_lookup hlookup) tail direction
      apply Ends.after
      refine ends_playerCollision hconfined ?_ ?_
      · intro id other hempty _ _ _
        -- The player is known, so the subscript inserts nothing.
        have hplayer : (t.moved own player tail direction).players.lookup clientID.toUInt32 =
            some { player with tail, direction } := by
          rw [hown]
          exact AList.lookup_insert _
        rw [AssocMap.subscript_of_lookup hplayer]
        exact hconfined
      · intro owner other head cells _ _ _
        have hcollided : ConfinedTo platform known own t
            ((t.moved own player tail direction).logged [.collided clientID.toUInt32 owner]) := by
          refine hconfined.trans (confinedTo_logged.mpr ?_)
          simp [About, hown]
        have hkill : ∀ ref, About platform known own (.sent ref (killPlayerMsg clientID)) :=
          fun _ ↦ about_killPlayerMsg hown
        have hlistedC : ((t.moved own player tail direction).logged
            [.collided clientID.toUInt32 owner]).Listed refs := ⟨hlisted.deque, hlisted.nodup⟩
        refine ends_messageAllClients hlistedC ?_ ?_
        · intro u refs' htold
          exact hcollided.trans (htold.confinedTo hID hkill hopen)
        · intro u hoverflow
          exact hcollided.trans (hoverflow.confinedTo hID hkill hopen)

theorem confinedTo_storeReport_of_unhit (hID : t.getID r = own) (hne : clientID.toUInt32 ≠ own)
    (hunhit : own ∈ t.players → t.Unhit own clientID.toUInt32 tail) :
    ConfinedTo platform known own t
      (after ((storeReport env depth r clientID direction tail).run t)) := by
  cases hlookup : t.players.lookup (t.getID r) with
  | none =>
      rw [run_storeReport_none hlookup]
      exact .refl _ _ _ _
  | some player =>
      rw [run_storeReport_some hlookup, hID]
      rw [hID] at hlookup
      have hmem : own ∈ t.players := AssocMap.mem_of_lookup hlookup
      have hconfined : ConfinedTo platform known own t (t.moved own player tail direction) :=
        .moved hmem tail direction
      have hunchecked := (@unchecked_moved_iff t direction tail own _ hne player).mpr (hunhit hmem)
      have houtcome := collision_outcome (t.moved own player tail direction) env depth clientID
      generalize (playerCollision env depth clientID).run (t.moved own player tail direction) =
        result at houtcome
      cases houtcome with
      | missed => exact hconfined
      | @emptyTail id other hown hother hne htail =>
          rcases hunchecked with hpasses | ⟨-, hknown⟩
          · exfalso
            have hpass := hpasses id other hother
            rw [Passes, hown] at hpass
            simp only [collisionCells, if_neg hne] at hpass
            exact htail hpass
          · obtain ⟨checked, hchecked⟩ := AssocMap.lookup_eq_some_of_mem hknown
            rw [AssocMap.subscript_of_lookup hchecked]
            exact hconfined
      | @killed owner other head cells hown howner hcell =>
          exfalso
          rcases hunchecked with hpasses | ⟨hempty, -⟩
          · have hpass := hpasses owner other howner
            rw [Passes, hown] at hpass
            exact hpass hcell
          · rw [hempty] at hown
            cases hown

theorem unhit_of_confinedTo (hID : t.getID r = own) (hne : clientID.toUInt32 ≠ own)
    {effects : List Effect} (hlog : t.log = s.log ++ effects)
    (hlookup : ∀ id, t.players.lookup id = s.players.lookup id) (hmem : own ∈ t.players)
    (h : ConfinedTo platform known own s
      (after ((storeReport env depth r clientID direction tail).run t))) :
    t.Unhit own clientID.toUInt32 tail := by
  obtain ⟨player, hplayer⟩ := AssocMap.lookup_eq_some_of_mem hmem
  rw [run_storeReport_some (by rw [hID]; exact hplayer), hID] at h
  apply (@unchecked_moved_iff t direction tail own _ hne player).mp
  have houtcome := collision_outcome (t.moved own player tail direction) env depth clientID
  generalize hresult : (playerCollision env depth clientID).run
    (t.moved own player tail direction) = result at houtcome h
  cases houtcome with
  | missed => exact .inl fun _ _ hother ↦ passes_of_playerCollision hresult hother
  | emptyTail hown hother hother' htail =>
      refine .inr ⟨hown, ?_⟩
      have hinserted : clientID.toUInt32 ∈ s.players :=
        h.keys _ ((AssocMap.mem_subscript _ _).mpr (.inl rfl))
      obtain ⟨checked, hchecked⟩ := AssocMap.lookup_eq_some_of_mem hinserted
      rw [← hlookup] at hchecked
      exact (AList.mem_insert _).mpr (.inr (AssocMap.mem_of_lookup hchecked))
  | @killed owner p head cells hown howner hcell =>
      exfalso
      obtain ⟨later, hlater⟩ := log_sendKillMessage ((t.moved own player tail direction).logged
        [.collided clientID.toUInt32 owner]) depth clientID
      have hall : (after ((sendKillMessage depth clientID).run
          ((t.moved own player tail direction).logged [.collided clientID.toUInt32 owner]))).log =
          s.log ++ (effects ++ [.collided clientID.toUInt32 owner] ++ later) := by
        rw [hlater]
        simp only [logged, moved, hlog, List.append_assoc]
      exact hne (h.about hall (.collided clientID.toUInt32 owner) (by simp))

/-- Once the relay is done, a client speaks for itself if it has sent its own id
or the other one is not hit. -/
theorem confinedTo_storeReport_iff (hrelay : ConfinedTo platform known own s t)
    (hlisted : t.Listed refs) (hopen : ∀ ref ∈ refs, ref ≠ r → t.IsOpen ref)
    (hID : t.getID r = own)
    (hlookup : own ∈ t.players → ∀ id, t.players.lookup id = s.players.lookup id) :
    ConfinedTo platform known own s
        (after ((storeReport env depth r clientID direction tail).run t)) ↔
      clientID.toUInt32 = own ∨ (own ∈ t.players → s.Unhit own clientID.toUInt32 tail) := by
  obtain ⟨effects, hlog, -⟩ := hrelay.log
  by_cases hown : clientID.toUInt32 = own
  · exact iff_of_true (hrelay.trans (confinedTo_storeReport_own hlisted hopen hID hown)) (.inl hown)
  · simp only [hown, false_or]
    constructor
    · intro h hmem
      exact (unhit_congr (hlookup hmem) _ _ _).mp
        (unhit_of_confinedTo hID hown hlog (hlookup hmem) hmem h)
    · intro hunhit
      refine hrelay.trans (confinedTo_storeReport_of_unhit hID hown fun hmem ↦ ?_)
      exact (unhit_congr (hlookup hmem) _ _ _).mpr (hunhit hmem)

end StoreReport

/-! ## When a client speaks for itself -/

/-- Handling `msg` of `r` is confined to the player of `r`, and so is the relay
that it starts with. -/
structure SpeaksForItself (platform : Platform) (known : UInt32 → Prop) (env : Env) (depth : ℕ)
    (s : Server) (r : ConnRef) (msg : Msg) : Prop where
  relay : ConfinedTo platform known (s.getID r) s
    (after ((messageAllClients depth msg (some r)).run s))
  whole : ConfinedTo platform known (s.getID r) s
    (after ((onMessage platform env depth r msg).run s))

/-- The id in the body is the sender's, or the message reaches no other client
and the player of that id is not hit.  The player of a closed client that is
reported is the sender's too, or nobody knows it whom the report reaches. -/
inductive OwnMove (known : UInt32 → Prop) (s : Server) (refs : List ConnRef) (r : ConnRef)
    (clientID : Int32) (tail : List Position) : Prop
  | allOpen (hopen : ∀ ref ∈ addressed (some r) refs, s.IsOpen ref)
      (hreport : clientID.toUInt32 = s.getID r ∨ addressed (some r) refs = [] ∧
        (s.getID r ∈ s.players → s.Unhit (s.getID r) clientID.toUInt32 tail)) :
      OwnMove known s refs r clientID tail
  | oneClosed {before after : List ConnRef} {gone : ConnRef}
      (hrefs : refs = before ++ gone :: after) (hne : gone ≠ r) (hclosed : ¬ s.IsOpen gone)
      (hopen : ∀ ref ∈ before ++ after, s.IsOpen ref)
      (hgone : s.getID gone = s.getID r ∨
        s.getID gone ∉ s.players ∧ (before ++ after = [] ∨ ¬ known (s.getID gone)))
      (hreport : clientID.toUInt32 = s.getID r ∨ addressed (some r) (before ++ after) = [] ∧
        (s.getID gone = s.getID r ∨
          (s.getID r ∈ s.players → s.Unhit (s.getID r) clientID.toUInt32 tail))) :
      OwnMove known s refs r clientID tail
  | manyClosed {before between after : List ConnRef} {first second : ConnRef}
      (hrefs : refs = before ++ first :: (between ++ second :: after))
      (hfirst : ¬ s.IsOpen first) (hsecond : ¬ s.IsOpen second)
      (hopen : ∀ ref ∈ before ++ between, s.IsOpen ref)
      (hfirstID : before ++ between = [] ∨ s.getID first = s.getID r ∨ ¬ known (s.getID first))
      (hsecondID : before = [] ∨ s.getID second = s.getID r ∨ ¬ known (s.getID second))
      (hreport : clientID.toUInt32 = s.getID r ∨
        addressed (some r) before = [] ∧ (first = r → between = [])) :
      OwnMove known s refs r clientID tail

/-- All other connections are open, or one of the list is closed that is not
ignored, or several are closed. -/
theorem closed_cases (refs : List ConnRef) (r : ConnRef) :
    (∀ ref ∈ addressed (some r) refs, s.IsOpen ref) ∨
      (∃ before gone after, refs = before ++ gone :: after ∧ gone ≠ r ∧ ¬ s.IsOpen gone ∧
        ∀ ref ∈ before ++ after, s.IsOpen ref) ∨
      ∃ before first between second after, refs = before ++ first :: (between ++ second :: after) ∧
        ¬ s.IsOpen first ∧ ¬ s.IsOpen second ∧ ∀ ref ∈ before ++ between, s.IsOpen ref := by
  have haddressed (refs : List ConnRef) : addressed none refs = refs := by simp [addressed]
  by_cases hall : ∀ ref ∈ refs, s.IsOpen ref
  · exact .inl fun ref href ↦ hall ref (mem_addressed.mp href).1
  obtain ⟨before, first, rest, rfl, -, hfirst, hbefore⟩ :=
    @exists_first_closed s none refs (by rwa [haddressed])
  rw [haddressed] at hbefore
  by_cases hrest : ∀ ref ∈ rest, s.IsOpen ref
  · have hopen : ∀ ref ∈ before ++ rest, s.IsOpen ref := by
      intro ref href
      exact (List.mem_append.mp href).elim (hbefore ref) (hrest ref)
    by_cases heq : first = r
    · left
      intro ref href
      obtain ⟨hmem, hne⟩ := mem_addressed.mp href
      exact hopen ref (mem_others hmem fun h ↦ hne (congrArg some (h.trans heq)))
    · exact .inr (.inl ⟨before, first, rest, rfl, heq, hfirst, hopen⟩)
  · obtain ⟨between, second, after, rfl, -, hsecond, hbetween⟩ :=
      @exists_first_closed s none rest (by rwa [haddressed])
    rw [haddressed] at hbetween
    refine .inr (.inr ⟨before, first, between, second, after, rfl, hfirst, hsecond, ?_⟩)
    intro ref href
    exact (List.mem_append.mp href).elim (hbefore ref) (hbetween ref)

/-- The news of the first closed client reaches those before the second one, and
the other way round. -/
theorem meets_manyClosed {before between after : List ConnRef} {first second : ConnRef}
    (hnodup : (before ++ first :: (between ++ second :: after)).Nodup)
    (hfirst : ¬ s.IsOpen first) (hsecond : ¬ s.IsOpen second)
    (hopen : ∀ ref ∈ before ++ between, s.IsOpen ref) :
    s.Meets (before ++ first :: (between ++ second :: after)) (some first) (before ++ between) second ∧
      s.Meets (before ++ first :: (between ++ second :: after)) (some second) before first := by
  have hsplit : before ++ first :: (between ++ second :: after) =
      (before ++ first :: between) ++ second :: after := by simp
  have hnodup' : (before ++ first :: between).Nodup := by
    rw [hsplit] at hnodup
    exact hnodup.of_append_left
  have hne : first ≠ second := by
    rintro rfl
    have hrest := (List.nodup_cons.mp hnodup.of_append_right).1
    exact hrest (by simp)
  have hbefore : second ∉ before := fun hmem ↦
    List.disjoint_of_nodup_append hnodup hmem (by simp)
  refine ⟨⟨_, after, hsplit, fun heq ↦ hne (Option.some.inj heq).symm, hsecond,
    addressed_some hnodup', hopen⟩, ⟨before, _, rfl, fun heq ↦ hne (Option.some.inj heq), hfirst,
      addressed_of_notMem hbefore, fun ref href ↦ hopen ref (List.mem_append_left _ href)⟩⟩

section SpeaksForItself

variable (hid : msg.header.id = .updatePlayer) (hsize : msg.body.length < 2 ^ 32)
  (hpop : popUpdate platform msg = .ok ((clientID, direction, tail), rest))

include hid hpop

theorem speaksForItself_of_relay_ok {t : Server}
    (hrelay : (messageAllClients depth msg (some r)).run s = .ok () t) :
    SpeaksForItself platform known env depth s r msg ↔
      ConfinedTo platform known (s.getID r) s t ∧ ConfinedTo platform known (s.getID r) s
        (after ((storeReport env depth r clientID direction tail).run t)) := by
  have hrun : (onMessage platform env depth r msg).run s =
      (storeReport env depth r clientID direction tail).run t := by
    rw [run_onMessage_of_popUpdate s hid hpop, EStateM.run_bind, hrelay]
    rfl
  constructor
  · rintro ⟨hconfined, hwhole⟩
    rw [hrelay] at hconfined
    rw [hrun] at hwhole
    exact ⟨hconfined, hwhole⟩
  · rintro ⟨hconfined, hwhole⟩
    refine ⟨?_, ?_⟩
    · rw [hrelay]
      exact hconfined
    · rw [hrun]
      exact hwhole

omit hpop in
theorem speaksForItself_of_relay_error {t : Server} {fault : Fault}
    (hrelay : (messageAllClients depth msg (some r)).run s = .error fault t) :
    SpeaksForItself platform known env depth s r msg ↔
      ConfinedTo platform known (s.getID r) s t := by
  have hrun := @run_onMessage_of_relay_error platform s r env depth msg _ _ hid hrelay
  constructor
  · rintro ⟨hconfined, -⟩
    rw [hrelay] at hconfined
    exact hconfined
  · intro hconfined
    refine ⟨?_, ?_⟩
    · rw [hrelay]
      exact hconfined
    · rw [hrun]
      exact hconfined

/-- After a relay that returns. -/
theorem speaksForItself_iff_of_told {t : Server} {refs' : List ConnRef}
    (hrelay : (messageAllClients depth msg (some r)).run s = .ok () t) (hlisted : t.Listed refs')
    (hopen : ∀ ref ∈ refs', ref ≠ r → t.IsOpen ref) (hID : t.getID r = s.getID r)
    (hlookup : ConfinedTo platform known (s.getID r) s t → s.getID r ∈ t.players →
      ∀ id, t.players.lookup id = s.players.lookup id) :
    SpeaksForItself platform known env depth s r msg ↔
      ConfinedTo platform known (s.getID r) s t ∧ (clientID.toUInt32 = s.getID r ∨
        (s.getID r ∈ t.players → s.Unhit (s.getID r) clientID.toUInt32 tail)) := by
  rw [speaksForItself_of_relay_ok hid hpop hrelay]
  exact and_congr_right fun hconfined ↦
    confinedTo_storeReport_iff hconfined hlisted hopen hID (hlookup hconfined)

include hsize

theorem about_report (ref : ConnRef) :
    About platform known (s.getID r) (.sent ref msg) ↔ clientID.toUInt32 = s.getID r :=
  about_updatePlayer hid (decode_of_popUpdate hid hsize hpop)

theorem speaksForItself_iff_of_open (hlisted : s.Listed refs)
    (hopen : ∀ ref ∈ addressed (some r) refs, s.IsOpen ref) :
    SpeaksForItself platform known env (depth + 1) s r msg ↔
      (clientID.toUInt32 = s.getID r ∨ addressed (some r) refs = [] ∧
        (s.getID r ∈ s.players → s.Unhit (s.getID r) clientID.toUInt32 tail)) := by
  have hothers : ∀ ref ∈ refs, ref ≠ r → s.IsOpen ref := fun ref href hne ↦
    hopen ref (mem_addressed.mpr ⟨href, fun heq ↦ hne (Option.some.inj heq)⟩)
  rw [speaksForItself_iff_of_told hid hpop (run_messageAllClients_open hlisted hopen depth msg)
    (hlisted.logged _) hothers rfl fun _ _ _ ↦ rfl]
  rw [confinedTo_logged, forall_sends_iff (about_report hid hsize hpop)]
  exact (and_congr_left' or_comm).trans or_and_left.symm

theorem speaksForItself_iff_of_oneClosed {before after : List ConnRef} {gone : ConnRef}
    (hlisted : s.Listed (before ++ gone :: after)) (hne : gone ≠ r) (hclosed : ¬ s.IsOpen gone)
    (hopen : ∀ ref ∈ before ++ after, s.IsOpen ref) :
    SpeaksForItself platform known env (depth + 2) s r msg ↔
      (s.getID gone = s.getID r ∨
        s.getID gone ∉ s.players ∧ (before ++ after = [] ∨ ¬ known (s.getID gone))) ∧
      (clientID.toUInt32 = s.getID r ∨ addressed (some r) (before ++ after) = [] ∧
        (s.getID gone = s.getID r ∨
          (s.getID r ∈ s.players → s.Unhit (s.getID r) clientID.toUInt32 tail))) := by
  have hgone : some gone ≠ some r := fun heq ↦ hne (Option.some.inj heq)
  have hrelay := run_messageAllClients_departed hlisted hgone hclosed hopen depth msg
  have htold : Told s (before ++ gone :: after) msg (some r)
      (s.departed msg (some r) before gone after) (before ++ after) :=
    .departed rfl hgone hclosed hopen
  have hlookup : ConfinedTo platform known (s.getID r) s
      (s.departed msg (some r) before gone after) →
        s.getID r ∈ (s.departed msg (some r) before gone after).players →
          ∀ id, (s.departed msg (some r) before gone after).players.lookup id =
            s.players.lookup id := by
    intro hconfined hmem id
    by_cases hid : id = s.getID r
    · subst hid
      exact AList.lookup_erase_ne (AList.mem_erase.mp hmem).1
    · exact hconfined.entries id hid
  rw [speaksForItself_iff_of_told hid hpop hrelay (htold.listed hlisted)
    (fun ref href _ ↦ hopen ref href) rfl hlookup, confinedTo_departed_iff]
  simp only [departure, List.forall_mem_append, List.forall_mem_singleton,
    forall_sends_iff (about_report hid hsize hpop), forall_sends_iff fun _ ↦ about_removePlayerMsg,
    addressed_append, List.append_eq_nil_iff]
  have hdisconnected : About platform known (s.getID r) (.disconnected (some gone)) := trivial
  have hmem : s.getID r ∈ (s.departed msg (some r) before gone after).players ↔
      s.getID gone ≠ s.getID r ∧ s.getID r ∈ s.players :=
    AList.mem_erase.trans (and_congr_left fun _ ↦ ne_comm)
  rw [hmem]
  constructor
  · rintro ⟨⟨hknown, ⟨⟨hbefore, -⟩, hnews⟩, hafter⟩, hreport⟩
    refine ⟨?_, ?_⟩
    · by_cases hown : s.getID gone = s.getID r
      · exact .inl hown
      · exact .inr ⟨hknown.resolve_left hown, hnews.imp_right fun h ↦ h.resolve_left hown⟩
    · by_cases hsame : clientID.toUInt32 = s.getID r
      · exact .inl hsame
      · refine .inr ⟨⟨hbefore.resolve_right hsame, hafter.resolve_right hsame⟩, ?_⟩
        by_cases hown : s.getID gone = s.getID r
        · exact .inl hown
        · exact .inr fun hmem ↦ hreport.resolve_left hsame ⟨hown, hmem⟩
  · rintro ⟨hknown, hreport⟩
    have hheard := hreport.imp_right And.left
    refine ⟨⟨hknown.imp_right And.left, ⟨⟨?_, trivial⟩, ?_⟩, ?_⟩, ?_⟩
    · exact hheard.symm.imp_left And.left
    · rcases hknown with hown | ⟨-, hnews⟩
      · exact .inr (.inl hown)
      · exact hnews.imp_right .inr
    · exact hheard.symm.imp_left And.right
    · refine hreport.imp_right fun h hmem ↦ ?_
      exact h.2.resolve_left hmem.1 hmem.2

theorem speaksForItself_iff_of_manyClosed {before between after : List ConnRef}
    {first second : ConnRef}
    (hlisted : s.Listed (before ++ first :: (between ++ second :: after)))
    (hfirst : ¬ s.IsOpen first) (hsecond : ¬ s.IsOpen second)
    (hopen : ∀ ref ∈ before ++ between, s.IsOpen ref) :
    SpeaksForItself platform known env (depth + 3) s r msg ↔
      (before ++ between = [] ∨ s.getID first = s.getID r ∨ ¬ known (s.getID first)) ∧
      (before = [] ∨ s.getID second = s.getID r ∨ ¬ known (s.getID second)) ∧
      (clientID.toUInt32 = s.getID r ∨
        addressed (some r) before = [] ∧ (first = r → between = [])) := by
  obtain ⟨hmeetsSecond, hmeetsFirst⟩ := meets_manyClosed hlisted.nodup hfirst hsecond hopen
  have hdisconnected : ∀ client, About platform known (s.getID r) (.disconnected client) :=
    fun _ ↦ trivial
  by_cases heq : first = r
  · subst heq
    have hbefore : first ∉ before := fun hmem ↦
      List.disjoint_of_nodup_append hlisted.nodup hmem (by simp)
    rw [speaksForItself_of_relay_error hid
      (run_messageAllClients_chase hlisted hmeetsSecond hmeetsFirst hmeetsSecond (depth + 2) msg),
      confinedTo_logged]
    simp only [List.forall_mem_append, List.forall_mem_singleton, forall_mem_chase hdisconnected,
      forall_sends_iff (about_report hid hsize hpop), forall_sends_iff fun _ ↦ about_removePlayerMsg,
      List.append_eq_nil_iff, hdisconnected, addressed_of_notMem hbefore, true_or, or_true,
      true_implies, and_true, true_and]
    exact ⟨fun ⟨hreport, hnews⟩ ↦ ⟨hnews, hreport.symm⟩, fun ⟨hnews, hreport⟩ ↦
      ⟨hreport.symm, hnews⟩⟩
  · have hrelay : s.Meets (before ++ first :: (between ++ second :: after)) (some r)
        (addressed (some r) before) first :=
      ⟨before, _, rfl, fun h ↦ heq (Option.some.inj h), hfirst, rfl, fun ref href ↦
        hopen ref (List.mem_append_left _ (mem_addressed.mp href).1)⟩
    rw [speaksForItself_of_relay_error hid
      (run_messageAllClients_chase hlisted hrelay hmeetsSecond hmeetsFirst (depth + 2) msg),
      confinedTo_logged]
    simp only [List.forall_mem_append, List.forall_mem_singleton, forall_mem_chase hdisconnected,
      forall_sends_iff (about_report hid hsize hpop), forall_sends_iff fun _ ↦ about_removePlayerMsg,
      hdisconnected, heq, false_implies, and_true]
    exact ⟨fun ⟨hreport, hfirst, hsecond⟩ ↦ ⟨hfirst, hsecond, hreport.symm⟩,
      fun ⟨hfirst, hsecond, hreport⟩ ↦ ⟨hreport.symm, hfirst, hsecond⟩⟩

end SpeaksForItself

/-- With room on the stack for three broadcasts, a client speaks for itself
exactly when its report is about its own player or nobody takes note of it, and
when the closed clients that the relay meets are nobody's news. -/
theorem speaksForItself_iff (hlisted : s.Listed refs) (hid : msg.header.id = .updatePlayer)
    (hsize : msg.body.length < 2 ^ 32)
    (hpop : popUpdate platform msg = .ok ((clientID, direction, tail), rest))
    (known : UInt32 → Prop) (env : Env) (depth : ℕ) :
    SpeaksForItself platform known env (depth + 3) s r msg ↔
      OwnMove known s refs r clientID tail := by
  constructor
  · intro h
    rcases @closed_cases s refs r with hopen | ⟨before, gone, after, rfl, hne, hclosed, hopen⟩ |
      ⟨before, first, between, second, after, rfl, hfirst, hsecond, hopen⟩
    · exact .allOpen hopen
        ((speaksForItself_iff_of_open hid hsize hpop hlisted hopen).mp h)
    · obtain ⟨hgone, hreport⟩ := (speaksForItself_iff_of_oneClosed hid hsize hpop hlisted hne
        hclosed hopen).mp h
      exact .oneClosed rfl hne hclosed hopen hgone hreport
    · obtain ⟨hfirstID, hsecondID, hreport⟩ := (speaksForItself_iff_of_manyClosed hid hsize hpop
        hlisted hfirst hsecond hopen).mp h
      exact .manyClosed rfl hfirst hsecond hopen hfirstID hsecondID hreport
  · intro h
    cases h with
    | allOpen hopen hreport =>
        exact (speaksForItself_iff_of_open hid hsize hpop hlisted hopen).mpr hreport
    | oneClosed hrefs hne hclosed hopen hgone hreport =>
        subst hrefs
        exact (speaksForItself_iff_of_oneClosed hid hsize hpop hlisted hne hclosed hopen).mpr
          ⟨hgone, hreport⟩
    | manyClosed hrefs hfirst hsecond hopen hfirstID hsecondID hreport =>
        subst hrefs
        exact (speaksForItself_iff_of_manyClosed hid hsize hpop hlisted hfirst hsecond hopen).mpr
          ⟨hfirstID, hsecondID, hreport⟩

/-- Two clients in a game, and one that has closed before it was validated. -/
def besideClosed : Server :=
  { inGame with
    m_deqConnections := [some 0, some 1, some 2]
    getID := fun r ↦ 10000 + .ofNat r
    isConnected := fun r ↦ r != 2 }

/-- The first client reports itself. -/
theorem speaksForItself_iff_besideClosed :
    SpeaksForItself .x64 (· ∈ besideClosed.players) Env.plain 3 besideClosed 0
      (SnakeClient.updatePlayerMsg .x64 [⟨3, 3⟩] .left 10000) :=
  (@speaksForItself_iff .x64 besideClosed [0, 1, 2] 0 _ (.new .updatePlayer) 10000 .left [⟨3, 3⟩]
    ⟨rfl, by decide⟩ rfl (by decide) (popUpdate_updatePlayerMsg (by decide) .left 10000) _
    Env.plain 0).mpr (@OwnMove.oneClosed _ _ _ _ _ _ [0, 1] [] 2 rfl (by decide) (by decide)
      (by decide) (.inr ⟨by decide, .inr (by decide)⟩) (.inl (by decide)))

/-- The first client reports a move of the second one, and the second is told of it. -/
theorem not_speaksForItself_foreign :
    (SnakeClient.updatePlayerMsg .x64 [⟨3, 3⟩] .left 10001).WellFramed ∧
      ¬ SpeaksForItself .x64 (· ∈ inGame.players) Env.plain 3 inGame 0
        (SnakeClient.updatePlayerMsg .x64 [⟨3, 3⟩] .left 10001) := by
  refine ⟨by decide, fun h ↦ ?_⟩
  have hreport := (@speaksForItself_iff_of_open .x64 (· ∈ inGame.players) inGame [0, 1] 0 Env.plain 2 _
    (.new .updatePlayer) 10001 .left [⟨3, 3⟩] rfl (by decide)
    (popUpdate_updatePlayerMsg (by decide) .left 10001) ⟨rfl, by decide⟩ fun _ _ ↦ rfl).mp h
  rcases hreport with hown | ⟨hnone, -⟩
  · exact absurd hown (by decide)
  · exact absurd hnone (by decide)

end Server

end SnekCpp
