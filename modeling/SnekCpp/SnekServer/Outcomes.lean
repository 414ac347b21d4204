import SnekCpp.SnekServer.Codec
import SnekCpp.SnekServer.Extends
import SnekCpp.SnekServer.FreeGrid

/-!
# What a handler can come to

The broadcasts that return, the search for a free cell, the collision check and
the handlers of the three messages of a client, each with all its outcomes.
-/

namespace SnekCpp.Server

open Lib Networking

/-! ## Broadcasts that return -/

/-- A broadcast of `msg` leads from `s`, whose connections are `refs`, to `s'`
with the connections `refs'`. -/
inductive Told (s : Server) (refs : List ConnRef) (msg : Msg) (ignoreClient : Option ConnRef) :
    Server → List ConnRef → Prop
  | delivered (hopen : ∀ ref ∈ addressed ignoreClient refs, s.IsOpen ref) :
      Told s refs msg ignoreClient (s.logged (sends msg (addressed ignoreClient refs))) refs
  | departed {before after : List ConnRef} {gone : ConnRef}
      (hrefs : refs = before ++ gone :: after) (hgone : some gone ≠ ignoreClient)
      (hclosed : ¬ s.IsOpen gone) (hopen : ∀ ref ∈ before ++ after, s.IsOpen ref) :
      Told s refs msg ignoreClient (s.departed msg ignoreClient before gone after) (before ++ after)

/-- A broadcast that fails has sent `msg` to some open clients and removals to others. -/
def Overflows (s : Server) (refs : List ConnRef) (msg : Msg) (s' : Server) : Prop :=
  ∃ reached removals, (∀ ref ∈ reached, ref ∈ refs ∧ s.IsOpen ref) ∧
    (∀ e ∈ removals, s.Removal refs e) ∧ s' = s.logged (sends msg reached ++ removals)

section Told

variable {s s' : Server} {refs refs' : List ConnRef} {msg : Msg} {ignoreClient : Option ConnRef}

theorem Broadcast.told {u : Unit} (h : Broadcast s refs msg ignoreClient (.ok u s')) :
    ∃ refs', Told s refs msg ignoreClient s' refs' := by
  cases h with
  | delivered hopen => exact ⟨refs, .delivered hopen⟩
  | departed hrefs hgone hclosed hopen => exact ⟨_, .departed hrefs hgone hclosed hopen⟩

theorem Broadcast.overflows {fault : Fault}
    (h : Broadcast s refs msg ignoreClient (.error fault s')) :
    fault = .stackOverflow ∧ Overflows s refs msg s' := by
  cases h with
  | overflow hreached hremovals =>
      refine ⟨rfl, _, _, fun ref href ↦ ?_, hremovals, rfl⟩
      exact ⟨(mem_addressed.mp (hreached ref href).1).1, (hreached ref href).2⟩

/-- An effect of a broadcast: its message to an open client that it addresses,
or an effect of a disconnect. -/
def Cast (s : Server) (refs : List ConnRef) (msg : Msg) (ignoreClient : Option ConnRef)
    (e : Effect) : Prop :=
  (∃ ref ∈ addressed ignoreClient refs, s.IsOpen ref ∧ e = .sent ref msg) ∨ s.Removal refs e

theorem cast_sends {reached : List ConnRef}
    (h : ∀ ref ∈ reached, ref ∈ addressed ignoreClient refs ∧ s.IsOpen ref) :
    ∀ e ∈ sends msg reached, s.Cast refs msg ignoreClient e := by
  intro e he
  obtain ⟨ref, href, rfl⟩ := List.mem_map.mp he
  exact .inl ⟨ref, (h ref href).1, (h ref href).2, rfl⟩

theorem Told.cast (h : Told s refs msg ignoreClient s' refs') :
    ∃ effects, s'.log = s.log ++ effects ∧ ∀ e ∈ effects, s.Cast refs msg ignoreClient e := by
  cases h with
  | delivered hopen => exact ⟨_, rfl, cast_sends fun ref href ↦ ⟨href, hopen ref href⟩⟩
  | @departed before after gone hrefs hgone hclosed hopen =>
      subst hrefs
      have hothers : ∀ ref ∈ before ++ after, some ref ≠ ignoreClient →
          ref ∈ addressed ignoreClient (before ++ gone :: after) ∧ s.IsOpen ref :=
        fun ref href hne ↦ ⟨mem_addressed.mpr ⟨mem_of_mem_others href, hne⟩, hopen ref href⟩
      refine ⟨_, rfl, fun e he ↦ ?_⟩
      simp only [departure, List.mem_append, List.mem_singleton] at he
      rcases he with ((he | rfl) | he) | he
      · refine cast_sends (fun ref href ↦ ?_) e he
        obtain ⟨hmem, hne⟩ := mem_addressed.mp href
        exact hothers ref (List.mem_append_left _ hmem) hne
      · exact .inr ⟨gone, by simp, rfl, hclosed⟩
      · obtain ⟨ref, href, rfl⟩ := List.mem_map.mp he
        exact .inr ⟨mem_of_mem_others href, hopen ref href, gone, by simp, hclosed, rfl⟩
      · refine cast_sends (fun ref href ↦ ?_) e he
        obtain ⟨hmem, hne⟩ := mem_addressed.mp href
        exact hothers ref (List.mem_append_right _ hmem) hne

/-- A broadcast that fails has not reached the client that it ignores either. -/
theorem Broadcast.cast {fault : Fault} (h : Broadcast s refs msg ignoreClient (.error fault s')) :
    ∃ effects, s' = s.logged effects ∧ ∀ e ∈ effects, s.Cast refs msg ignoreClient e := by
  cases h with
  | overflow hreached hremovals =>
      refine ⟨_, rfl, fun e he ↦ ?_⟩
      rcases List.mem_append.mp he with he | he
      · exact cast_sends hreached e he
      · exact .inr (hremovals e he)

theorem Overflows.broadcast (h : Overflows s refs msg s') :
    Broadcast s refs msg none (.error .stackOverflow s') := by
  obtain ⟨reached, removals, hreached, hremovals, rfl⟩ := h
  refine .overflow (fun ref href ↦ ⟨?_, (hreached ref href).2⟩) hremovals
  exact mem_addressed.mpr ⟨(hreached ref href).1, by simp⟩

theorem Cast.speaks {e : Effect} (h : s.Cast refs msg ignoreClient e) : Speaks msg e := by
  rcases h with ⟨ref, -, -, rfl⟩ | hremoval
  · exact .inl rfl
  · cases e with
    | sent ref m =>
        obtain ⟨-, -, gone, -, -, rfl⟩ := hremoval
        exact .inr (.removePlayer _)
    | disconnected client => trivial
    | validated client => exact hremoval.elim
    | collided id owner => exact hremoval.elim

theorem Told.extends_ (h : Told s refs msg ignoreClient s' refs') : Extends msg s s' := by
  obtain ⟨effects, hlog, hcast⟩ := h.cast
  have hspeaks : ∃ effects, s'.log = s.log ++ effects ∧ ∀ e ∈ effects, Speaks msg e :=
    ⟨effects, hlog, fun e he ↦ (hcast e he).speaks⟩
  cases h with
  | delivered => exact ⟨rfl, rfl, rfl, rfl, rfl, rfl, id, hspeaks⟩
  | departed => exact ⟨rfl, rfl, rfl, rfl, rfl, rfl, id, hspeaks⟩

theorem Overflows.extends_ (h : Overflows s refs msg s') : Extends msg s s' := by
  obtain ⟨effects, rfl, hcast⟩ := h.broadcast.cast
  exact ⟨rfl, rfl, rfl, rfl, rfl, rfl, id, effects, rfl, fun e he ↦ (hcast e he).speaks⟩

theorem Told.listed (h : Told s refs msg ignoreClient s' refs') (hlisted : s.Listed refs) :
    s'.Listed refs' := by
  cases h with
  | delivered hopen => exact hlisted.logged _
  | @departed before after gone hrefs hgone hclosed hopen =>
      subst hrefs
      refine ⟨rfl, ?_⟩
      exact (List.nodup_cons.mp ((List.perm_middle.nodup_iff).mp hlisted.nodup)).2

theorem Told.mem_of_told {r : ConnRef} (h : Told s refs msg ignoreClient s' refs') (hr : r ∈ refs') :
    r ∈ refs := by
  cases h with
  | delivered hopen => exact hr
  | departed hrefs =>
      rw [hrefs]
      exact mem_of_mem_others hr

/-- A broadcast that ignores a closed client meets no other closed one. -/
theorem Told.refs_eq_of_closed {r : ConnRef} (h : Told s refs msg (some r) s' refs') (hr : r ∈ refs)
    (hclosed : ¬ s.IsOpen r) : refs' = refs := by
  cases h with
  | delivered hopen => rfl
  | departed hrefs hgone _ hopen =>
      exfalso
      rw [hrefs] at hr
      exact hclosed (hopen r (mem_others hr fun heq ↦ hgone (congrArg some heq.symm)))

theorem Told.mem_of_ignored {r : ConnRef} (h : Told s refs msg (some r) s' refs') (hr : r ∈ refs) :
    r ∈ refs' := by
  cases h with
  | delivered hopen => exact hr
  | departed hrefs hgone hclosed hopen =>
      rw [hrefs] at hr
      exact mem_others hr fun heq ↦ hgone (congrArg some heq.symm)

/-- No broadcast changes the data of a player that it leaves in the map. -/
theorem Told.lookup (h : Told s refs msg ignoreClient s' refs') {id : UInt32} {player : PlayerData}
    (hlookup : s'.players.lookup id = some player) : s.players.lookup id = some player := by
  cases h with
  | delivered hopen => exact hlookup
  | departed hrefs hgone hclosed hopen =>
      simp only [Server.departed, AssocMap.lookup_erase_eq] at hlookup
      split at hlookup
      · cases hlookup
      · exact hlookup

end Told

/-- A property of the state in which a run ends. -/
def Ends {α : Type} (Q : Server → Prop) (E : Fault → Server → Prop) :
    EStateM.Result Fault Server α → Prop
  | .ok _ s => Q s
  | .error fault s => E fault s

section Ends

variable {α β : Type} {Q R : Server → Prop} {E : Fault → Server → Prop}

theorem Ends.bind {m : ServerM α} {f : α → ServerM β} {s : Server} (hm : Ends Q E (m.run s))
    (hf : ∀ a t, m.run s = .ok a t → Q t → Ends R E ((f a).run t)) :
    Ends R E ((m >>= f).run s) := by
  rw [EStateM.run_bind]
  cases hrun : m.run s with
  | ok a t =>
      rw [hrun] at hm
      exact hf a t hrun hm
  | error fault t =>
      rw [hrun] at hm
      exact hm

theorem Ends.mono {result : EStateM.Result Fault Server α} {E' : Fault → Server → Prop}
    (h : Ends Q E result) (hQ : ∀ s, Q s → R s) (hE : ∀ fault s, E fault s → E' fault s) :
    Ends R E' result := by
  cases result with
  | ok a s => exact hQ s h
  | error fault s => exact hE fault s h

theorem Ends.after {result : EStateM.Result Fault Server α} (h : Ends Q (fun _ ↦ Q) result) :
    Q (after result) := by
  cases result with
  | ok a s => exact h
  | error fault s => exact h

/-- What holds after every broadcast that returns and every one that fails. -/
theorem ends_messageAllClients {s : Server} {refs : List ConnRef} (hlisted : s.Listed refs)
    {msg : Msg} {ignoreClient : Option ConnRef} {depth : ℕ}
    (htold : ∀ s' refs', Told s refs msg ignoreClient s' refs' → Q s')
    (hoverflow : ∀ s', Overflows s refs msg s' → E .stackOverflow s') :
    Ends Q E ((messageAllClients depth msg ignoreClient).run s) := by
  have houtcome := broadcast_outcome hlisted depth msg ignoreClient
  cases hrun : (messageAllClients depth msg ignoreClient).run s with
  | ok u s' =>
      rw [hrun] at houtcome
      obtain ⟨refs', h⟩ := houtcome.told
      exact htold s' refs' h
  | error fault s' =>
      rw [hrun] at houtcome
      obtain ⟨rfl, h⟩ := houtcome.overflows
      exact hoverflow s' h

theorem ends_told {s : Server} {refs : List ConnRef} (hlisted : s.Listed refs) {msg : Msg}
    {ignoreClient : Option ConnRef} {depth : ℕ}
    (hoverflow : ∀ s', Overflows s refs msg s' → E .stackOverflow s') :
    Ends (fun s' ↦ ∃ refs', Told s refs msg ignoreClient s' refs') E
      ((messageAllClients depth msg ignoreClient).run s) :=
  ends_messageAllClients hlisted (fun _ refs' htold ↦ ⟨refs', htold⟩) hoverflow

end Ends

/-! ## Broadcasts from any state -/

section Invariant

variable {P : Server → Prop} {said : Msg}

/-- The faults of a broadcast. -/
def CastFault (fault : Fault) : Prop := fault = .nullPointer ∨ fault = .stackOverflow

theorem ends_messageClientsFrom {disconnect : Option ConnRef → ServerM Unit} {msg : Msg}
    (hsent : ∀ s r, P s → P (s.logged [.sent r msg]))
    (hdeque : ∀ s m_deqConnections, P s → P { s with m_deqConnections })
    (hdisconnect : ∀ client s, P s →
      Ends P (fun fault t ↦ CastFault fault ∧ P t) ((disconnect client).run s))
    (ignoreClient : Option ConnRef) (i left : ℕ) (invalid : Bool) {s : Server} (h : P s) :
    Ends P (fun fault t ↦ CastFault fault ∧ P t)
      ((messageClientsFrom disconnect msg ignoreClient i left invalid).run s) := by
  induction left generalizing s i invalid with
  | zero => exact h
  | succ left ih =>
      rw [messageClientsFrom, EStateM.run_bind, EStateM.run_get]
      simp only
      split
      · exact ih (i + 1) invalid h
      · split
        · rw [EStateM.run_bind, run_send]
          exact ih (i + 1) invalid (hsent s _ h)
        · refine Ends.bind (hdisconnect _ s h) fun _ t _ ht ↦ ?_
          rw [EStateM.run_bind, EStateM.run_modify]
          exact ih (i + 1) true (hdeque t _ ht)

/-- What holds before a broadcast holds after it, if messages, removed
connections and erased players do not affect it. -/
theorem ends_messageAllClients_of_invariant
    (hrecord : ∀ s e, P s → (∀ r msg, e = .sent r msg → msg = said ∨ ∃ id, msg = removePlayerMsg id) →
      P (s.logged [e]))
    (hdeque : ∀ s m_deqConnections, P s → P { s with m_deqConnections })
    (herase : ∀ s id, P s → P { s with players := s.players.erase id })
    {msg : Msg} (hmsg : msg = said ∨ ∃ id, msg = removePlayerMsg id) (depth : ℕ)
    (ignoreClient : Option ConnRef) {s : Server} (h : P s) :
    Ends P (fun fault t ↦ CastFault fault ∧ P t)
      ((messageAllClients depth msg ignoreClient).run s) := by
  induction depth generalizing msg ignoreClient s with
  | zero => exact ⟨.inr rfl, h⟩
  | succ depth ih =>
      have hdisconnect : ∀ client s, P s → Ends P (fun fault t ↦ CastFault fault ∧ P t)
          ((onClientDisconnectWith (messageAllClients depth) client).run s) := by
        intro client s h
        have hrecorded : P (s.logged [.disconnected client]) := hrecord s _ h fun _ _ heq ↦ by cases heq
        unfold onClientDisconnectWith
        rw [EStateM.run_bind, run_record]
        cases client with
        | none => exact ⟨.inl rfl, hrecorded⟩
        | some ref =>
            simp only [EStateM.run_bind, EStateM.run_get]
            rw [← EStateM.run_bind]
            refine Ends.bind (ih (.inr ⟨_, rfl⟩) _ hrecorded) fun _ t _ ht ↦ ?_
            exact herase t _ ht
      have hsent : ∀ s r, P s → P (s.logged [.sent r msg]) := by
        intro s r h
        refine hrecord s _ h fun r m heq ↦ ?_
        cases heq
        exact hmsg
      rw [messageAllClients, EStateM.run_bind, EStateM.run_get]
      refine Ends.bind (ends_messageClientsFrom hsent hdeque hdisconnect _ _ _ _ h)
        fun invalid t _ ht ↦ ?_
      cases invalid with
      | false => exact ht
      | true => exact hdeque t _ ht

theorem ends_powerups_messageAllClients (depth : ℕ) (msg : Msg) (ignoreClient : Option ConnRef)
    (s : Server) :
    Ends (fun t ↦ t.powerups = s.powerups)
      (fun fault t ↦ CastFault fault ∧ t.powerups = s.powerups)
      ((messageAllClients depth msg ignoreClient).run s) :=
  ends_messageAllClients_of_invariant (P := fun t ↦ t.powerups = s.powerups)
    (fun _ _ h _ ↦ h) (fun _ _ h ↦ h) (fun _ _ h ↦ h) (.inl rfl) depth ignoreClient rfl

end Invariant

/-! ## A new powerup -/

/-- The server with one more powerup. -/
def spawned (s : Server) (powerup : PowerupData) : Server :=
  { s with powerups := s.powerups ++ [powerup] }

/-- A cell off the grid is covered, or all cells are, or one that is free gets a
powerup and all are told. -/
theorem run_generatePowerup (s : Server) (env : Env) (depth : ℕ) :
    ((¬ ∀ pos ∈ s.covered, pos.OnBoard) ∧
        (generatePowerup env depth).run s = .error .gridIndex s) ∨
      (∀ pos ∈ s.covered, pos.OnBoard) ∧
        ((s.freeGrid = [] ∧ (generatePowerup env depth).run s = .error .emptyFreeGrid s) ∨
          ∃ powerup : PowerupData, s.freeGrid[env.draw s.freeGrid]? = some powerup.position ∧
            (generatePowerup env depth).run s =
              (messageAllClients depth (newPowerupMsg powerup) none).run (s.spawned powerup)) := by
  rw [generatePowerup, EStateM.run_bind, run_getFreeGrid_eq]
  by_cases hcovered : ∀ pos ∈ s.covered, pos.OnBoard
  · refine .inr ⟨hcovered, ?_⟩
    rw [if_pos hcovered]
    cases hdraw : s.freeGrid[env.draw s.freeGrid]? with
    | none =>
        refine .inl ⟨?_, by simp only [hdraw]; rfl⟩
        by_contra hfree
        have hlt := env.draw_lt s.freeGrid hfree
        simp [List.getElem?_eq_getElem hlt] at hdraw
    | some spawnPos =>
        refine .inr ⟨⟨spawnPos.x, spawnPos.y⟩, rfl, ?_⟩
        simp only [hdraw, EStateM.run_bind, EStateM.run_modify]
        rfl
  · rw [if_neg hcovered]
    exact .inl ⟨hcovered, rfl⟩

/-! ## The collision check -/

/-- The cells of a player, none if it is unknown. -/
def cells (s : Server) (id : UInt32) : List Position :=
  ((s.players.lookup id).map PlayerData.tail).getD []

theorem tail_subscript (s : Server) (id : UInt32) :
    (s.players.subscript id default).1.tail = s.cells id := by
  unfold AssocMap.subscript cells
  split
  · next player hsome => simp [hsome]
  · next hnone =>
      simp [hnone]
      rfl

theorem lookup_of_cells {s : Server} {id : UInt32} {head : Position} {tail : List Position}
    (h : s.cells id = head :: tail) : ∃ player, s.players.lookup id = some player ∧
      player.tail = head :: tail := by
  unfold cells at h
  cases hlookup : s.players.lookup id with
  | none => simp [hlookup] at h
  | some player => exact ⟨player, rfl, by simpa [hlookup] using h⟩

theorem run_hitsCell_of_head {s : Server} {id : UInt32} {head : Position} {tail : List Position}
    (h : s.cells id = head :: tail) (positions : List Position) :
    (hitsCell id positions).run s = .ok (decide (head ∈ positions)) s := by
  obtain ⟨player, hlookup, htail⟩ := lookup_of_cells h
  induction positions with
  | nil => rfl
  | cons pos positions ih =>
      have hhead : (headOf id).run s = .ok head s := by
        rw [run_headOf, AssocMap.subscript_of_lookup hlookup, htail]
      rw [hitsCell, EStateM.run_bind, hhead]
      by_cases heq : pos = head
      · simp [heq]
      · have hne : ¬ head = pos := fun h ↦ heq h.symm
        simp [heq, hne, ih]

theorem run_hitsCell_of_nil {s : Server} {id : UInt32} (h : s.cells id = [])
    (positions : List Position) :
    (hitsCell id positions).run s =
      match positions with
      | [] => .ok false s
      | _ :: _ => .error .emptyTail { s with players := (s.players.subscript id default).2 } := by
  cases positions with
  | nil => rfl
  | cons pos positions =>
      rw [hitsCell, EStateM.run_bind, run_headOf, tail_subscript, h]

/-- What the collision check of a client comes to. -/
inductive Collision (s : Server) (depth : ℕ) (clientID : Int32) :
    EStateM.Result Fault Server Unit → Prop
  | missed : Collision s depth clientID (.ok () s)
  | emptyTail {id : UInt32} {player : PlayerData} (hown : s.cells clientID.toUInt32 = [])
      (hother : s.players.lookup id = some player) (hne : id ≠ clientID.toUInt32)
      (htail : player.tail ≠ []) :
      Collision s depth clientID
        (.error .emptyTail
          { s with players := (s.players.subscript clientID.toUInt32 default).2 })
  | killed {owner : UInt32} {player : PlayerData} {head : Position} {tail : List Position}
      (hown : s.cells clientID.toUInt32 = head :: tail)
      (howner : s.players.lookup owner = some player)
      (hcell : head ∈ collisionCells clientID.toUInt32 (owner, player)) :
      Collision s depth clientID
        ((sendKillMessage depth clientID).run
          (s.logged [.collided clientID.toUInt32 owner]))

theorem collision_outcome (s : Server) (env : Env) (depth : ℕ) (clientID : Int32) :
    Collision s depth clientID ((playerCollision env depth clientID).run s) := by
  have hentries : ∀ entry ∈ env.iteration s.players, s.players.lookup entry.1 = some entry.2 :=
    fun entry hmem ↦ env.mem_iteration.mp hmem
  have hrun : (playerCollision env depth clientID).run s =
      (playerCollisionOver depth clientID (env.iteration s.players)).run s := rfl
  rw [hrun]
  clear hrun
  generalize env.iteration s.players = entries at hentries
  induction entries with
  | nil => exact .missed
  | cons entry entries ih =>
      have hentry := hentries entry (by simp)
      have hrest := ih fun e he ↦ hentries e (List.mem_cons_of_mem _ he)
      rw [playerCollisionOver, EStateM.run_bind]
      cases hown : s.cells clientID.toUInt32 with
      | nil =>
          rw [run_hitsCell_of_nil hown]
          cases hcells : collisionCells clientID.toUInt32 entry with
          | nil => simpa using hrest
          | cons cell cells =>
              have hne : entry.1 ≠ clientID.toUInt32 := by
                intro heq
                have htail : entry.2.tail = [] := by
                  rw [heq] at hentry
                  simpa [Server.cells, hentry] using hown
                simp [collisionCells, heq, htail] at hcells
              rw [collisionCells, if_neg hne] at hcells
              exact .emptyTail hown hentry hne (by simp [hcells])
      | cons head tail =>
          rw [run_hitsCell_of_head hown]
          by_cases hhit : head ∈ collisionCells clientID.toUInt32 entry
          · simp only [hhit, decide_true, if_true, EStateM.run_bind, run_record]
            exact .killed hown hentry hhit
          · simpa [hhit] using hrest

/-! ## The three messages of a client -/

section Messages

variable {platform : Platform} {Q : Server → Prop} {E : Fault → Server → Prop}
  {s : Server} {refs : List ConnRef} {r : ConnRef} {env : Env} {depth : ℕ}

theorem run_onMessage_startGame (s : Server) {msg : Msg} (hid : msg.header.id = .startGame) :
    (onMessage platform env depth r msg).run s =
      (messageAllClients depth msg none).run { s with gameStarted := true } := by
  rw [onMessage, hid]
  rfl

theorem run_onMessage_unhandled (s : Server) {msg : Msg} (heaten : msg.header.id ≠ .powerupEaten)
    (hupdate : msg.header.id ≠ .updatePlayer) (hstart : msg.header.id ≠ .startGame) :
    (onMessage platform env depth r msg).run s = .ok () s := by
  unfold onMessage
  split
  · contradiction
  · contradiction
  · contradiction
  · rfl

/-- The server without the first powerup at the position of `powerup`. -/
def eaten (s : Server) (powerup : PowerupData) : Server :=
  { s with powerups := s.powerups.eraseP fun p ↦ p.x == powerup.x && p.y == powerup.y }

theorem run_onMessage_of_powerup (s : Server) {msg rest : Msg} {powerup : PowerupData}
    (hid : msg.header.id = .powerupEaten) (hread : readField PowerupData msg = .ok (powerup, rest)) :
    (onMessage platform env depth r msg).run s =
      (do
        messageAllClients depth (powerupEatenMsg powerup) (some r)
        generatePowerup env depth : ServerM Unit).run (s.eaten powerup) := by
  rw [onMessage, hid]
  simp only [onPowerupEaten, hread]
  rfl

theorem readField_powerupEatenMsg (powerup : PowerupData) :
    readField PowerupData (powerupEatenMsg powerup) = .ok (powerup, .new .powerupEaten) :=
  readField_push (show (Message.new MessageTypes.powerupEaten).Consistent from rfl) powerup

theorem run_onMessage_powerupEaten (s : Server) (powerup : PowerupData) :
    (onMessage platform env depth r (powerupEatenMsg powerup)).run s =
      (do
        messageAllClients depth (powerupEatenMsg powerup) (some r)
        generatePowerup env depth : ServerM Unit).run (s.eaten powerup) :=
  run_onMessage_of_powerup s rfl (readField_powerupEatenMsg powerup)

/-- What the server stores of an `UpdatePlayer`. -/
def moved (s : Server) (id : UInt32) (player : PlayerData) (tail : List Position)
    (direction : Direction) : Server :=
  { s with players := s.players.insert id { player with tail, direction } }

theorem cells_moved (s : Server) (id : UInt32) (player : PlayerData) (tail : List Position)
    (direction : Direction) : (s.moved id player tail direction).cells id = tail := by
  simp [cells, moved]

theorem lookup_moved_ne {s : Server} {id other : UInt32} {player : PlayerData}
    {tail : List Position} {direction : Direction} (hne : other ≠ id) :
    (s.moved id player tail direction).players.lookup other = s.players.lookup other := by
  rw [moved, AList.lookup_insert_ne hne]

/-- The positions that come off the top, at most `count` of them. -/
def poppedPositions : ℕ → Msg → List Position
  | 0, _ => []
  | count + 1, msg =>
      match readField Position msg with
      | .ok (pos, msg) => pos :: poppedPositions count msg
      | .error _ => []

theorem eq_of_popTail {count : ℕ} {msg rest : Msg} {tail tail' : List Position}
    (h : popTail count tail msg = .ok (tail', rest)) :
    tail' = (poppedPositions count msg).reverse ++ tail := by
  induction count generalizing msg tail with
  | zero =>
      cases h
      rfl
  | succ count ih =>
      obtain ⟨⟨pos, below⟩, hread, hpop⟩ := bind_eq_ok.mp h
      rw [ih hpop, poppedPositions, hread]
      simp

/-- The server with the data of a player. -/
def stored (s : Server) (id : UInt32) (player : PlayerData) : Server :=
  { s with players := s.players.insert id player }

theorem stored_stored (s : Server) (id : UInt32) (player player' : PlayerData) :
    (s.stored id player).stored id player' = s.stored id player' := by
  simp only [stored, AList.insert_insert]

theorem run_setPlayer (s : Server) (id : UInt32) (player : PlayerData) :
    (setPlayer id player).run s = .ok () (s.stored id player) := rfl

/-- The loop has stored what it has popped, whether or not the body is long enough. -/
theorem run_storeTail (s : Server) (id : UInt32) (count : ℕ) (player : PlayerData) (msg : Msg) :
    (storeTail id count player msg).run (s.stored id player) =
      match popTail count player.tail msg with
      | .ok _ =>
          .ok () (s.stored id { player with
            tail := (poppedPositions count msg).reverse ++ player.tail })
      | .error fault =>
          .error fault (s.stored id { player with
            tail := (poppedPositions count msg).reverse ++ player.tail }) := by
  induction count generalizing player msg with
  | zero => rfl
  | succ count ih =>
      rw [storeTail, popTail, poppedPositions]
      cases hread : readField Position msg with
      | error fault => rfl
      | ok result =>
          obtain ⟨pos, below⟩ := result
          simp only [readMsg, pure_bind, List.reverse_cons, List.append_assoc,
            List.singleton_append]
          rw [EStateM.run_bind, run_setPlayer, stored_stored]
          exact ih { player with tail := pos :: player.tail } below

/-- The tail of an `UpdatePlayer`, if every pop of the loop finds its position. -/
def popUnsignedTail (tailLength : ℕ) (msg : Msg) : Except Fault (List Position × Msg) :=
  if tailLength < 2 ^ 32 then popTail tailLength [] msg else .error .shortBody

theorem popUnsignedTail_eq_ok {tailLength : ℕ} {msg : Msg} {result : List Position × Msg} :
    popUnsignedTail tailLength msg = .ok result ↔
      tailLength < 2 ^ 32 ∧ popTail tailLength [] msg = .ok result := by
  unfold popUnsignedTail
  split
  · next hcount => exact ⟨fun h ↦ ⟨hcount, h⟩, fun h ↦ h.2⟩
  · next hcount => exact ⟨fun h ↦ (by cases h), fun h ↦ absurd h.1 hcount⟩

/-- The fields that the server pops off an `UpdatePlayer`, and what is left below them. -/
def popUpdate (platform : Platform) (msg : Msg) :
    Except Fault ((Int32 × Direction × List Position) × Msg) := do
  let (clientID, msg) ← readField Int32 msg
  let (direction, msg) ← readField Direction msg
  let (tailLength, msg) ← readField (SizeT platform) msg
  let (tail, msg) ← popUnsignedTail tailLength.toNat msg
  return ((clientID, direction, tail), msg)

theorem popUpdate_updatePlayerMsg {tail : List Position} (hsize : tail.length < 2 ^ 32)
    (direction : Direction) (clientID : Int32) :
    popUpdate platform (SnakeClient.updatePlayerMsg platform tail direction clientID) =
      .ok ((clientID, direction, tail), .new .updatePlayer) := by
  have hbase : (Message.new MessageTypes.updatePlayer).Consistent := rfl
  have htail := popTail_pushTail hbase tail []
  rw [List.append_nil] at htail
  obtain ⟨size, hval, hlength⟩ := Packet.readField_size (consistent_pushTail hbase tail)
    (.of_lt_word hsize : Packet.FitsSizeT platform tail.length)
  have hpop : popUnsignedTail tail.length (pushTail (.new .updatePlayer) tail) =
      .ok (tail, .new .updatePlayer) := by
    rw [popUnsignedTail, if_pos hsize, htail]
  simp only [popUpdate, SnakeClient.updatePlayerMsg, Message.shiftLeft_eq_push,
    readField_push (Message.consistent_push _ _), bind, Except.bind, hlength, hval, hpop]
  rfl

/-- A message that can be decoded is relayed first, then stored, and then its
sender's head is checked, under the id that the message gives. -/
theorem run_onMessage_of_popUpdate (s : Server) {msg rest : Msg} {clientID : Int32}
    {direction : Direction} {tail : List Position} (hid : msg.header.id = .updatePlayer)
    (hpop : popUpdate platform msg = .ok ((clientID, direction, tail), rest)) :
    (onMessage platform env depth r msg).run s =
      (do
        messageAllClients depth msg (some r)
        let s ← get
        match s.players.lookup (s.getID r) with
        | none => throw .outOfRange
        | some player =>
            modify fun s ↦ s.moved (s.getID r) player tail direction
            playerCollision env depth clientID : ServerM Unit).run s := by
  obtain ⟨⟨_, afterID⟩, hreadID, hpop⟩ := bind_eq_ok.mp hpop
  obtain ⟨⟨_, afterDirection⟩, hreadDirection, hpop⟩ := bind_eq_ok.mp hpop
  obtain ⟨⟨tailLength, afterLength⟩, hreadLength, hpop⟩ := bind_eq_ok.mp hpop
  obtain ⟨⟨_, afterTail⟩, hpopTail, hpop⟩ := bind_eq_ok.mp hpop
  cases hpop
  obtain ⟨hcount, hpopTail⟩ := popUnsignedTail_eq_ok.mp hpopTail
  rw [onMessage, hid]
  simp only [onUpdatePlayer, hreadID, readMsg, EStateM.run_bind]
  cases (messageAllClients depth msg (some r)).run s with
  | error fault t => rfl
  | ok u t =>
      simp only [EStateM.run_pure, EStateM.run_get]
      cases hlookup : t.players.lookup (t.getID r) with
      | none => rfl
      | some player =>
          have hstore : (storeTail (t.getID r) (tailTurns tailLength.toNat afterLength)
              { player with tail := [], direction } afterLength).run
                (t.stored (t.getID r) { player with tail := [], direction }) =
              .ok () (t.moved (t.getID r) player tail direction) := by
            rw [run_storeTail, tailTurns, if_pos hcount]
            simp only [hpopTail, eq_of_popTail hpopTail]
            rfl
          simp only [hreadDirection, hreadLength, EStateM.run_bind, run_setPlayer, stored_stored,
            EStateM.run_pure, hstore, EStateM.run_modify]

/-- A relay that fails, a client that is unknown by then, or a move and its
collision check. -/
theorem ends_onMessage_of_popUpdate {msg rest : Msg} {clientID : Int32}
    {direction : Direction} {tail : List Position} (hid : msg.header.id = .updatePlayer)
    (hpop : popUpdate platform msg = .ok ((clientID, direction, tail), rest))
    (hrelay : Ends (fun s' ↦ ∃ refs', Told s refs msg (some r) s' refs') E
      ((messageAllClients depth msg (some r)).run s))
    (hmissing : ∀ s' refs', Told s refs msg (some r) s' refs' →
      s'.players.lookup (s'.getID r) = none → E .outOfRange s')
    (hmoved : ∀ s' refs' player, Told s refs msg (some r) s' refs' →
      s'.players.lookup (s'.getID r) = some player →
        Ends Q E ((playerCollision env depth clientID).run
          (s'.moved (s'.getID r) player tail direction))) :
    Ends Q E ((onMessage platform env depth r msg).run s) := by
  rw [run_onMessage_of_popUpdate s hid hpop]
  refine Ends.bind hrelay ?_
  rintro _ t - ⟨refs', htold⟩
  rw [EStateM.run_bind, EStateM.run_get]
  cases hlookup : t.players.lookup (t.getID r) with
  | none =>
      simp only [hlookup]
      exact hmissing t refs' htold hlookup
  | some player =>
      simp only [hlookup, EStateM.run_bind, EStateM.run_modify]
      exact hmoved t refs' player htold hlookup

theorem ends_updatePlayer (hlisted : s.Listed refs) {tail : List Position} {direction : Direction}
    {clientID : Int32} (hsize : tail.length < 2 ^ 31)
    (hoverflow : ∀ s', Overflows s refs
      (SnakeClient.updatePlayerMsg platform tail direction clientID) s' → E .stackOverflow s')
    (hmissing : ∀ s' refs',
      Told s refs (SnakeClient.updatePlayerMsg platform tail direction clientID) (some r) s' refs' →
        s'.players.lookup (s'.getID r) = none → E .outOfRange s')
    (hmoved : ∀ s' refs' player,
      Told s refs (SnakeClient.updatePlayerMsg platform tail direction clientID) (some r) s' refs' →
        s'.players.lookup (s'.getID r) = some player →
          Ends Q E ((playerCollision env depth clientID).run
            (s'.moved (s'.getID r) player tail direction))) :
    Ends Q E ((onMessage platform env depth r
      (SnakeClient.updatePlayerMsg platform tail direction clientID)).run s) :=
  ends_onMessage_of_popUpdate (Packet.header_id_updatePlayerMsg tail direction clientID)
    (popUpdate_updatePlayerMsg (by omega) direction clientID) (ends_told hlisted hoverflow) hmissing
    hmoved

theorem ends_playerCollision {clientID : Int32} (hmissed : Q s)
    (hempty : ∀ id player, s.cells clientID.toUInt32 = [] → s.players.lookup id = some player →
      id ≠ clientID.toUInt32 → player.tail ≠ [] →
        E .emptyTail { s with players := (s.players.subscript clientID.toUInt32 default).2 })
    (hkilled : ∀ owner player head tail, s.cells clientID.toUInt32 = head :: tail →
      s.players.lookup owner = some player →
        head ∈ collisionCells clientID.toUInt32 (owner, player) →
          Ends Q E ((messageAllClients depth (killPlayerMsg clientID) none).run
            (s.logged [.collided clientID.toUInt32 owner]))) :
    Ends Q E ((playerCollision env depth clientID).run s) := by
  have houtcome := collision_outcome s env depth clientID
  generalize (playerCollision env depth clientID).run s = result at houtcome
  cases houtcome with
  | missed => exact hmissed
  | emptyTail hown hother hne htail => exact hempty _ _ hown hother hne htail
  | killed hown howner hcell => exact hkilled _ _ _ _ hown howner hcell

theorem ends_onClientValidated
    (hempty : s.spawnpoints = [] → E .emptySpawnpoints (s.logged [.validated r]))
    (hwelcomed : ∀ spawnpoint, s.spawnpoints.getLast? = some spawnpoint →
      Ends Q E ((announce platform env depth r (s.getID r)
        { direction := .up, tail := [spawnpoint], color := env.color }).run
          (s.welcomed platform env r spawnpoint))) :
    Ends Q E ((onClientValidated platform env depth r).run s) := by
  cases hspawn : s.spawnpoints.getLast? with
  | none =>
      rw [run_onClientValidated_none platform hspawn]
      exact hempty (List.getLast?_eq_none_iff.mp hspawn)
  | some spawnpoint =>
      rw [run_onClientValidated platform hspawn]
      exact hwelcomed spawnpoint hspawn

end Messages

/-! ## Properties that concern the game at large as little as possible -/

/-- The messages that are about no player. -/
inductive AtLarge : Msg → Prop
  | startGame {msg : Msg} (hid : msg.header.id = .startGame) : AtLarge msg
  | newPowerup (powerup : PowerupData) : AtLarge (newPowerupMsg powerup)
  | powerupEaten (powerup : PowerupData) : AtLarge (powerupEatenMsg powerup)

/-- A property of servers and connections that changes of the powerups and
messages about no player keep, and what holds after a fault. -/
structure Indifferent (I : Server → List ConnRef → Prop) (E : Fault → Server → Prop) : Prop where
  listed : ∀ {s refs}, I s refs → s.Listed refs
  fields : ∀ {s refs}, I s refs → ∀ powerups gameStarted m_qMessagesIn,
    I { s with powerups, gameStarted, m_qMessagesIn } refs
  told : ∀ {s refs msg ignoreClient s' refs'}, I s refs → AtLarge msg →
    Told s refs msg ignoreClient s' refs' → I s' refs'
  overflow : ∀ {s refs msg s'}, I s refs → AtLarge msg → Overflows s refs msg s' →
    E .stackOverflow s'
  noCell : ∀ {s refs fault}, I s refs → fault = .gridIndex ∨ fault = .emptyFreeGrid → E fault s

namespace Indifferent

variable {platform : Platform} {I : Server → List ConnRef → Prop} {E : Fault → Server → Prop}
  {s : Server} {refs : List ConnRef}

theorem messageAllClients (h : Indifferent I E) (hI : I s refs) {msg : Msg} (hmsg : AtLarge msg)
    (depth : ℕ) (ignoreClient : Option ConnRef) :
    Ends (fun s' ↦ ∃ refs', I s' refs') E
      ((Server.messageAllClients depth msg ignoreClient).run s) :=
  ends_messageAllClients (h.listed hI) (fun _ refs' htold ↦ ⟨refs', h.told hI hmsg htold⟩)
    fun _ hoverflow ↦ h.overflow hI hmsg hoverflow

theorem generatePowerup (h : Indifferent I E) (hI : I s refs) (env : Env) (depth : ℕ) :
    Ends (fun s' ↦ ∃ refs', I s' refs') E ((Server.generatePowerup env depth).run s) := by
  rcases run_generatePowerup s env depth with ⟨-, hrun⟩ | ⟨-, ⟨-, hrun⟩ | ⟨powerup, -, hrun⟩⟩
  · rw [hrun]
    exact h.noCell hI (.inl rfl)
  · rw [hrun]
    exact h.noCell hI (.inr rfl)
  · rw [hrun]
    exact h.messageAllClients (h.fields hI _ _ _) (.newPowerup powerup) depth none

theorem generatePowerups (h : Indifferent I E) (hI : I s refs) (env : Env)
    (depth powerupCount turns : ℕ) :
    Ends (fun s' ↦ ∃ refs', I s' refs') E
      ((Server.generatePowerups env depth powerupCount turns).run s) := by
  induction turns generalizing s refs with
  | zero => exact ⟨refs, hI⟩
  | succ turns ih =>
      rw [Server.generatePowerups, EStateM.run_bind, EStateM.run_get]
      by_cases hmore : s.powerups.length < powerupCount
      · simp only [if_pos hmore]
        refine Ends.bind (h.generatePowerup hI env depth) ?_
        rintro _ t - ⟨refs', hI'⟩
        exact ih hI'
      · simp only [if_neg hmore]
        exact ⟨refs, hI⟩

theorem startGame (h : Indifferent I E) (hI : I s refs) (env : Env) (depth : ℕ) (r : ConnRef)
    {msg : Msg} (hid : msg.header.id = .startGame) :
    Ends (fun s' ↦ ∃ refs', I s' refs') E ((onMessage platform env depth r msg).run s) := by
  rw [run_onMessage_startGame s hid]
  exact h.messageAllClients (h.fields hI _ _ _) (.startGame hid) depth none

theorem ofPowerup (h : Indifferent I E) (hI : I s refs) (env : Env) (depth : ℕ) (r : ConnRef)
    {msg rest : Msg} {powerup : PowerupData} (hid : msg.header.id = .powerupEaten)
    (hread : readField PowerupData msg = .ok (powerup, rest)) :
    Ends (fun s' ↦ ∃ refs', I s' refs') E ((onMessage platform env depth r msg).run s) := by
  rw [run_onMessage_of_powerup s hid hread]
  refine Ends.bind
    (h.messageAllClients (h.fields hI _ _ _) (.powerupEaten powerup) depth (some r)) ?_
  rintro _ t - ⟨refs', hI'⟩
  exact h.generatePowerup hI' env depth

theorem powerupEaten (h : Indifferent I E) (hI : I s refs) (env : Env) (depth : ℕ) (r : ConnRef)
    (powerup : PowerupData) :
    Ends (fun s' ↦ ∃ refs', I s' refs') E
      ((onMessage platform env depth r (powerupEatenMsg powerup)).run s) :=
  h.ofPowerup hI env depth r rfl (readField_powerupEatenMsg powerup)

/-- The rest of `OnClientValidated`, once the news of the new player is out. -/
theorem announce (h : Indifferent I E) {env : Env} {depth : ℕ} {client : ConnRef} {id : UInt32}
    {player : PlayerData}
    (hnews : Ends (fun s' ↦ ∃ refs', I s' refs') E
      ((Server.messageAllClients depth (newPlayerMsg platform player id) (some client)).run s)) :
    Ends (fun s' ↦ ∃ refs', I s' refs') E
      ((Server.announce platform env depth client id player).run s) := by
  refine Ends.bind hnews ?_
  rintro _ t - ⟨refs', hI⟩
  rw [EStateM.run_bind, EStateM.run_get]
  exact h.generatePowerups hI _ _ _ _

end Indifferent

end SnekCpp.Server
