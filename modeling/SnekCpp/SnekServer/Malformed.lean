import SnekCpp.SnekServer.Outcomes

/-!
# Messages that are too short

`operator >>` does not look at the size of the body.  A message that is too
short for its fields is popped until one of them is missing, and by then the
handler has done what it does before that pop.
-/

namespace SnekCpp

open Lib Networking

section Pops

variable {α : Type} [StandardLayout α] {msg rest : Msg}

theorem readField_of_lt (h : msg.body.length < StandardLayout.size α) :
    readField α msg = .error .shortBody := by
  rw [readField, Message.pop_eq_none h]

theorem readField_of_le (h : StandardLayout.size α ≤ msg.body.length) :
    ∃ rest, readField α msg =
        .ok (StandardLayout.fromBytes (msg.body.drop (msg.body.length - StandardLayout.size α)),
          rest) ∧
      rest.body = msg.body.take (msg.body.length - StandardLayout.size α) := by
  rw [readField, Message.pop, if_pos h]
  exact ⟨_, rfl, rfl⟩

theorem length_body_of_readField {a : α} (h : readField α msg = .ok (a, rest)) :
    rest.body.length + StandardLayout.size α = msg.body.length := by
  by_cases hle : StandardLayout.size α ≤ msg.body.length
  · obtain ⟨rest', hread, hbody⟩ := readField_of_le hle
    rw [hread] at h
    cases h
    rw [hbody, List.length_take]
    omega
  · rw [readField_of_lt (Nat.lt_of_not_le hle)] at h
    cases h

theorem popTail_of_lt {count : ℕ} (tail : List Position) (h : msg.body.length < 8 * count) :
    popTail count tail msg = .error .shortBody := by
  induction count generalizing tail msg with
  | zero => cases h
  | succ count ih =>
      rw [popTail]
      by_cases hpos : StandardLayout.size Position ≤ msg.body.length
      · obtain ⟨rest, hread, hrest⟩ := readField_of_le hpos
        rw [hread]
        apply ih
        rw [size_position] at hpos hrest
        rw [hrest, List.length_take]
        omega
      · rw [readField_of_lt (Nat.lt_of_not_le hpos)]
        rfl

theorem popTail_of_le {count : ℕ} (tail : List Position) (h : 8 * count ≤ msg.body.length) :
    ∃ tail' rest, popTail count tail msg = .ok (tail', rest) := by
  induction count generalizing tail msg with
  | zero => exact ⟨tail, msg, rfl⟩
  | succ count ih =>
      have hpos : StandardLayout.size Position ≤ msg.body.length := by
        rw [size_position]
        omega
      obtain ⟨rest, hread, hrest⟩ := readField_of_le hpos
      rw [popTail, hread]
      apply ih
      rw [hrest, List.length_take, size_position]
      omega

/-- The whole positions among the bytes, if the last byte is the last one of a position. -/
def wholePositions (bytes : List UInt8) : List Position :=
  (List.range (bytes.length / 8)).map fun i ↦
    StandardLayout.fromBytes ((bytes.drop (bytes.length % 8 + 8 * i)).take 8)

theorem wholePositions_of_lt {bytes : List UInt8} (h : bytes.length < 8) :
    wholePositions bytes = [] := by
  rw [wholePositions, Nat.div_eq_of_lt h]
  rfl

theorem wholePositions_of_le {bytes : List UInt8} (h : 8 ≤ bytes.length) :
    wholePositions bytes = wholePositions (bytes.take (bytes.length - 8)) ++
      [StandardLayout.fromBytes (bytes.drop (bytes.length - 8))] := by
  have hlength : (bytes.take (bytes.length - 8)).length = bytes.length - 8 := by
    rw [List.length_take]
    omega
  have hcount : bytes.length / 8 = (bytes.length - 8) / 8 + 1 := by omega
  have hremainder : (bytes.length - 8) % 8 = bytes.length % 8 := by omega
  have htop : bytes.length % 8 + 8 * ((bytes.length - 8) / 8) = bytes.length - 8 := by omega
  simp only [wholePositions, hlength]
  rw [hremainder, hcount, List.range_succ, List.map_append, List.map_singleton, htop]
  congr 1
  · apply List.map_congr_left
    intro i hi
    have hbelow := List.mem_range.mp hi
    rw [List.drop_take, List.take_take, Nat.min_eq_left (by omega)]
  · rw [List.take_of_length_le (by rw [List.length_drop]; omega)]

theorem reverse_poppedPositions {count : ℕ} (h : msg.body.length < 8 * count) :
    (Server.poppedPositions count msg).reverse = wholePositions msg.body := by
  induction count generalizing msg with
  | zero => cases h
  | succ count ih =>
      rw [Server.poppedPositions]
      by_cases hpos : StandardLayout.size Position ≤ msg.body.length
      · obtain ⟨rest, hread, hrest⟩ := readField_of_le hpos
        rw [size_position] at hpos hread hrest
        have hlength : rest.body.length < 8 * count := by
          rw [hrest, List.length_take]
          omega
        simp only [hread, List.reverse_cons]
        rw [ih hlength, hrest, wholePositions_of_le hpos]
      · rw [size_position] at hpos
        rw [readField_of_lt (by rw [size_position]; omega), wholePositions_of_lt (by omega)]
        rfl

end Pops

namespace Server

variable (platform : Platform)

/-- The direction that an `UpdatePlayer` states below its id. -/
def statedDirection (msg : Msg) : Direction :=
  let below := msg.body.take (msg.body.length - 4)
  StandardLayout.fromBytes (below.drop (below.length - 4))

/-- The tail length that an `UpdatePlayer` states below its id and its direction. -/
def statedLength (msg : Msg) : SizeT platform :=
  let below := msg.body.take (msg.body.length - 8)
  StandardLayout.fromBytes (below.drop (below.length - platform.sizeofSizeT))

variable {platform} {s : Server} {refs : List ConnRef} {r : ConnRef} {env : Env} {depth : ℕ}
  {msg : Msg}

theorem size_sizeT (platform : Platform) :
    StandardLayout.size (SizeT platform) = platform.sizeofSizeT := rfl

/-! ## The pops before the tail -/

theorem exists_readID (h : 4 ≤ msg.body.length) :
    ∃ clientID afterID, readField Int32 msg = .ok (clientID, afterID) ∧
      afterID.body = msg.body.take (msg.body.length - 4) := by
  obtain ⟨afterID, hread, hbody⟩ := @readField_of_le Int32 _ msg (by rwa [StandardLayout.size_int32])
  exact ⟨_, afterID, hread, hbody⟩

theorem exists_readDirection (h : 8 ≤ msg.body.length) :
    ∃ clientID afterID afterDirection, readField Int32 msg = .ok (clientID, afterID) ∧
      readField Direction afterID = .ok (statedDirection msg, afterDirection) ∧
      afterDirection.body = msg.body.take (msg.body.length - 8) := by
  obtain ⟨clientID, afterID, hreadID, hafterID⟩ := exists_readID (show 4 ≤ msg.body.length by omega)
  have hlength : afterID.body.length = msg.body.length - 4 := by
    rw [hafterID, List.length_take]
    omega
  obtain ⟨afterDirection, hread, hbody⟩ :=
    @readField_of_le Direction _ afterID (by rw [size_direction]; omega)
  refine ⟨clientID, afterID, afterDirection, hreadID, ?_, ?_⟩
  · rw [hread, hafterID]
    rfl
  · rw [hbody, hafterID, size_direction, List.take_take, List.length_take]
    congr 1
    omega

/-- The id and the direction come off the top, and the tail length after them. -/
theorem exists_readLength (h : 8 + platform.sizeofSizeT ≤ msg.body.length) :
    ∃ clientID afterID afterDirection afterLength, readField Int32 msg = .ok (clientID, afterID) ∧
      readField Direction afterID = .ok (statedDirection msg, afterDirection) ∧
      readField (SizeT platform) afterDirection = .ok (statedLength platform msg, afterLength) ∧
      afterLength.body = msg.body.take (msg.body.length - (8 + platform.sizeofSizeT)) := by
  obtain ⟨clientID, afterID, afterDirection, hreadID, hreadDirection, hafterDirection⟩ :=
    exists_readDirection (show 8 ≤ msg.body.length by omega)
  have hlength : afterDirection.body.length = msg.body.length - 8 := by
    rw [hafterDirection, List.length_take]
    omega
  obtain ⟨afterLength, hread, hbody⟩ :=
    @readField_of_le (SizeT platform) _ afterDirection (by rw [size_sizeT]; omega)
  refine ⟨clientID, afterID, afterDirection, afterLength, hreadID, hreadDirection, ?_, ?_⟩
  · rw [hread, hafterDirection]
    rfl
  · rw [hbody, hafterDirection, size_sizeT, List.take_take, List.length_take]
    congr 1
    omega

theorem popUpdate_eq_of_le (h : 8 + platform.sizeofSizeT ≤ msg.body.length) :
    ∃ clientID direction rest,
      rest.body.length + (8 + platform.sizeofSizeT) = msg.body.length ∧
        popUpdate platform msg = (do
          let (tail, msg) ← popUnsignedTail (statedLength platform msg).toNat rest
          return ((clientID, direction, tail), msg)) := by
  obtain ⟨clientID, afterID, afterDirection, afterLength, hreadID, hreadDirection, hreadLength,
    hbody⟩ := exists_readLength h
  refine ⟨clientID, statedDirection msg, afterLength, ?_, ?_⟩
  · rw [hbody, List.length_take]
    omega
  · rw [popUpdate, hreadID]
    simp only [bind, Except.bind, hreadDirection, hreadLength]

theorem eq_shortBody_of_readField {α : Type} [StandardLayout α] {fault : Fault}
    (h : readField α msg = .error fault) : fault = .shortBody := by
  unfold readField at h
  split at h
  · cases h
  · cases h
    rfl

theorem run_readMsg_bind_error {α β : Type} {result : Except Fault α} {fault : Fault}
    (h : result = .error fault) (f : α → ServerM β) (s : Server) :
    (readMsg result >>= f).run s = .error fault s := by
  rw [h]
  rfl

theorem run_readMsg_bind_ok {α β : Type} {result : Except Fault α} {a : α} (h : result = .ok a)
    (f : α → ServerM β) (s : Server) : (readMsg result >>= f).run s = (f a).run s := by
  rw [h]
  rfl

/-- The fault of an `UpdatePlayer` that is too short, and the state it is met in:
after the relay, which leads to `t`, the sender's player `id` is looked up and
its tail cleared once there is an id, and the positions that there are are in it
when the next one is missing. -/
inductive CutOff (platform : Platform) (msg : Msg) (t : Server) (id : UInt32) :
    Fault → Server → Prop
  | noID (hlength : msg.body.length < 4) : CutOff platform msg t id .shortBody t
  | unknown (hlength : 4 ≤ msg.body.length) (hmissing : t.players.lookup id = none) :
      CutOff platform msg t id .outOfRange t
  | noDirection {player : PlayerData} (hlength : 4 ≤ msg.body.length)
      (hshort : msg.body.length < 8) (hplayer : t.players.lookup id = some player) :
      CutOff platform msg t id .shortBody (t.stored id { player with tail := [] })
  | noLength {player : PlayerData} (hlength : 8 ≤ msg.body.length)
      (hshort : msg.body.length < 8 + platform.sizeofSizeT)
      (hplayer : t.players.lookup id = some player) :
      CutOff platform msg t id .shortBody (t.moved id player [] (statedDirection msg))
  | noPosition {player : PlayerData} (hlength : 8 + platform.sizeofSizeT ≤ msg.body.length)
      (hplayer : t.players.lookup id = some player) :
      CutOff platform msg t id .shortBody (t.moved id player
        (wholePositions (msg.body.take (msg.body.length - (8 + platform.sizeofSizeT))))
        (statedDirection msg))

theorem lt_tailTurns_of_popUpdate_error {fault : Fault} (hpop : popUpdate platform msg = .error fault)
    (hfixed : 8 + platform.sizeofSizeT ≤ msg.body.length) {afterLength : Msg}
    (hbody : afterLength.body = msg.body.take (msg.body.length - (8 + platform.sizeofSizeT))) :
    afterLength.body.length < 8 * tailTurns (statedLength platform msg).toNat afterLength := by
  rw [tailTurns]
  split
  · next hcount =>
      by_contra hlong
      have hshort : ¬ msg.body.length < 8 + platform.sizeofSizeT +
          8 * (statedLength platform msg).toNat := by
        rw [hbody, List.length_take] at hlong
        omega
      obtain ⟨clientID, direction, rest, hlength, heq⟩ := popUpdate_eq_of_le hfixed
      obtain ⟨tail, below, htail⟩ := @popTail_of_le rest (statedLength platform msg).toNat []
        (by omega)
      rw [heq, popUnsignedTail, if_pos hcount, htail] at hpop
      cases hpop
  · omega

/-- What follows the relay once the id has been popped and the sender's player found. -/
theorem run_onMessage_of_readID {t : Server} {player : PlayerData} {clientID : Int32} {afterID : Msg}
    (hid : msg.header.id = .updatePlayer)
    (hrelay : (messageAllClients depth msg (some r)).run s = .ok () t)
    (hreadID : readField Int32 msg = .ok (clientID, afterID))
    (hplayer : t.players.lookup (t.getID r) = some player) :
    (onMessage platform env depth r msg).run s =
      (do
        let (direction, msg) ← readMsg (readField Direction afterID)
        setPlayer (t.getID r) { player with tail := [], direction }
        let (tailLength, msg) ← readMsg (readField (SizeT platform) msg)
        storeTail (t.getID r) (tailTurns tailLength.toNat msg) { player with tail := [], direction }
          msg
        playerCollision env depth clientID : ServerM Unit).run
          (t.stored (t.getID r) { player with tail := [] }) := by
  rw [onMessage, hid]
  simp only [onUpdatePlayer]
  rw [EStateM.run_bind, hrelay]
  simp only
  rw [run_readMsg_bind_ok hreadID, EStateM.run_bind, EStateM.run_get]
  simp only [hplayer]
  rw [EStateM.run_bind, run_setPlayer]

/-- An `UpdatePlayer` that cannot be decoded ends in a fault, if not in the
relay then at the pop that fails. -/
theorem cutOff_of_popUpdate_error (hid : msg.header.id = .updatePlayer) {fault : Fault}
    (hpop : popUpdate platform msg = .error fault) {t : Server}
    (hrelay : (messageAllClients depth msg (some r)).run s = .ok () t) :
    ∃ fault s', CutOff platform msg t (t.getID r) fault s' ∧
      (onMessage platform env depth r msg).run s = .error fault s' := by
  by_cases hclientID : 4 ≤ msg.body.length
  swap
  · refine ⟨_, _, .noID (Nat.lt_of_not_le hclientID), ?_⟩
    rw [onMessage, hid]
    simp only [onUpdatePlayer]
    rw [EStateM.run_bind, hrelay]
    exact run_readMsg_bind_error (readField_of_lt (by rw [StandardLayout.size_int32]; omega)) _ t
  cases hplayer : t.players.lookup (t.getID r) with
  | none =>
      obtain ⟨clientID, afterID, hreadID, -⟩ := exists_readID hclientID
      refine ⟨_, _, .unknown hclientID hplayer, ?_⟩
      rw [onMessage, hid]
      simp only [onUpdatePlayer]
      rw [EStateM.run_bind, hrelay]
      simp only
      rw [run_readMsg_bind_ok hreadID, EStateM.run_bind, EStateM.run_get]
      simp only [hplayer]
      rfl
  | some player =>
      by_cases hdirection : 8 ≤ msg.body.length
      swap
      · obtain ⟨clientID, afterID, hreadID, hbody⟩ := exists_readID hclientID
        have hlength : afterID.body.length < StandardLayout.size Direction := by
          rw [hbody, List.length_take, size_direction]
          omega
        refine ⟨_, _, .noDirection hclientID (Nat.lt_of_not_le hdirection) hplayer, ?_⟩
        rw [run_onMessage_of_readID hid hrelay hreadID hplayer]
        exact run_readMsg_bind_error (readField_of_lt hlength) _ _
      by_cases hfixed : 8 + platform.sizeofSizeT ≤ msg.body.length
      swap
      · obtain ⟨clientID, afterID, afterDirection, hreadID, hreadDirection, hbody⟩ :=
          exists_readDirection hdirection
        have hlength : afterDirection.body.length < StandardLayout.size (SizeT platform) := by
          rw [hbody, List.length_take, size_sizeT]
          omega
        refine ⟨_, _, .noLength hdirection (Nat.lt_of_not_le hfixed) hplayer, ?_⟩
        rw [run_onMessage_of_readID hid hrelay hreadID hplayer, run_readMsg_bind_ok hreadDirection,
          EStateM.run_bind, run_setPlayer, stored_stored]
        exact run_readMsg_bind_error (readField_of_lt hlength) _ _
      obtain ⟨clientID, afterID, afterDirection, afterLength, hreadID, hreadDirection, hreadLength,
        hbody⟩ := exists_readLength hfixed
      have hshort := lt_tailTurns_of_popUpdate_error hpop hfixed hbody
      refine ⟨_, _, .noPosition hfixed hplayer, ?_⟩
      rw [run_onMessage_of_readID hid hrelay hreadID hplayer, run_readMsg_bind_ok hreadDirection,
        EStateM.run_bind, run_setPlayer, stored_stored]
      simp only
      rw [run_readMsg_bind_ok hreadLength, EStateM.run_bind, run_storeTail, popTail_of_lt [] hshort,
        reverse_poppedPositions hshort, hbody, List.append_nil]
      rfl

theorem run_onMessage_of_relay_error {fault : Fault} {t : Server}
    (hid : msg.header.id = .updatePlayer)
    (hrelay : (messageAllClients depth msg (some r)).run s = .error fault t) :
    (onMessage platform env depth r msg).run s = .error fault t := by
  rw [onMessage, hid]
  simp only [onUpdatePlayer]
  rw [EStateM.run_bind, hrelay]

theorem exists_error_of_popUpdate_error (hid : msg.header.id = .updatePlayer) {fault : Fault}
    (hpop : popUpdate platform msg = .error fault) :
    ∃ fault s', (onMessage platform env depth r msg).run s = .error fault s' := by
  cases hrelay : (messageAllClients depth msg (some r)).run s with
  | error fault t => exact ⟨fault, t, run_onMessage_of_relay_error hid hrelay⟩
  | ok u t =>
      obtain ⟨fault, s', -, hrun⟩ := @cutOff_of_popUpdate_error _ _ _ env _ _ hid _ hpop _ hrelay
      exact ⟨fault, s', hrun⟩

/-- What holds from the relay on is not affected by the pops that succeed. -/
theorem ends_onMessage_of_popUpdate_error {E : Fault → Server → Prop} {J : Server → Prop}
    (hid : msg.header.id = .updatePlayer) {fault : Fault}
    (hpop : popUpdate platform msg = .error fault)
    (hrelay : Ends (fun s' ↦ ∃ refs', Told s refs msg (some r) s' refs') E
      ((messageAllClients depth msg (some r)).run s))
    (htold : ∀ s' refs', Told s refs msg (some r) s' refs' → J s')
    (hstored : ∀ t player tail direction, J t → t.players.lookup (s.getID r) = some player →
      J (t.moved (s.getID r) player tail direction))
    (hmissing : ∀ t, J t → E .outOfRange t) (hshort : ∀ t, J t → E .shortBody t) :
    Ends (fun _ ↦ False) E ((onMessage platform env depth r msg).run s) := by
  cases hrun : (messageAllClients depth msg (some r)).run s with
  | error fault t =>
      rw [run_onMessage_of_relay_error hid hrun]
      rw [hrun] at hrelay
      exact hrelay
  | ok u t =>
      rw [hrun] at hrelay
      obtain ⟨refs', h⟩ := hrelay
      obtain ⟨fault, s', hcutOff, hrun⟩ := @cutOff_of_popUpdate_error _ _ _ env _ _ hid _ hpop _ hrun
      rw [hrun]
      rw [h.extends_.getID] at hcutOff
      have hJ := htold t refs' h
      cases hcutOff with
      | noID => exact hshort t hJ
      | unknown => exact hmissing t hJ
      | noDirection _ _ hplayer => exact hshort _ (hstored t _ [] _ hJ hplayer)
      | noLength _ _ hplayer => exact hshort _ (hstored t _ [] _ hJ hplayer)
      | noPosition _ hplayer => exact hshort _ (hstored t _ _ _ hJ hplayer)

/-! ## What a message that is too short leaves alone -/

/-- The powerups are the same, and so are the players but for the one of `r` and
those of closed connections. -/
structure KeepsOthers (s : Server) (refs : List ConnRef) (r : ConnRef) (s' : Server) : Prop where
  powerups : s'.powerups = s.powerups
  players : ∀ id, id ≠ s.getID r → s'.players.lookup id = s.players.lookup id ∨
    ∃ gone ∈ refs, ¬ s.IsOpen gone ∧ s.getID gone = id

theorem KeepsOthers.moved {s' : Server} (h : s.KeepsOthers refs r s') (player : PlayerData)
    (tail : List Position) (direction : Direction) :
    s.KeepsOthers refs r (s'.moved (s.getID r) player tail direction) := by
  refine ⟨h.powerups, fun id hne ↦ ?_⟩
  rw [lookup_moved_ne hne]
  exact h.players id hne

/-- Two clients in a game. -/
def inGame : Server :=
  { twoConnections fun _ ↦ true with
    players := ((∅ : AssocMap UInt32 PlayerData).insert 10000 ⟨.up, [⟨1, 1⟩], 7⟩).insert 10001
      ⟨.up, [⟨2, 2⟩], 8⟩
    getID := fun r ↦ if r = 0 then 10000 else 10001
    log := [.validated 0, .validated 1] }

end Server

end SnekCpp
