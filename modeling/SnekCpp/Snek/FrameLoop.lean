import SnekCpp.Lib.Transition
import SnekCpp.Snek.Packet

/-!
# The game loop

What the functions that `main` calls in a frame can do to the client, and when
a frame runs through.
-/

namespace SnekCpp

open Lib Networking

def Powerup.data (powerup : Powerup) : PowerupData := ⟨powerup.x, powerup.y⟩

namespace SnakeClient

/-- The key of the client's own player. -/
def ownID (client : SnakeClient) : UInt32 := client.clientID.toUInt32

/-! ## What a frame can do -/

theorem moveAll_cases {client client' : SnakeClient} (h : client.moveAll = .ok client') :
    ∃ players, client.players.update Player.move = .ok players ∧
      client' = { client with players } := by
  obtain ⟨players, hplayers, hclient'⟩ := bind_eq_ok.mp h
  exact ⟨players, hplayers, by cases hclient'; rfl⟩

/-- The first powerup that the head touches, if there is one. -/
theorem find_zipIdx_cases (powerups : List Powerup) (head : Position) :
    powerups.zipIdx.find? (fun p ↦ p.1.checkCollision head) = none ∨
      ∃ before eaten after, powerups = before ++ eaten :: after ∧
        (∀ powerup ∈ before, powerup.checkCollision head = false) ∧
          eaten.checkCollision head = true ∧
            powerups.zipIdx.find? (fun p ↦ p.1.checkCollision head) =
              some (eaten, before.length) := by
  suffices hfrom : ∀ n, (powerups.zipIdx n).find? (fun p ↦ p.1.checkCollision head) = none ∨
      ∃ before eaten after, powerups = before ++ eaten :: after ∧
        (∀ powerup ∈ before, powerup.checkCollision head = false) ∧
          eaten.checkCollision head = true ∧
            (powerups.zipIdx n).find? (fun p ↦ p.1.checkCollision head) =
              some (eaten, n + before.length) by
    simpa using hfrom 0
  induction powerups with
  | nil => simp
  | cons powerup powerups ih =>
      intro n
      by_cases htouch : powerup.checkCollision head = true
      · exact .inr ⟨[], powerup, powerups, rfl, by simp, htouch, by simp [htouch]⟩
      · have hmiss : powerup.checkCollision head = false := by simpa using htouch
        rcases ih (n + 1) with hnone | ⟨before, eaten, after, rfl, hbefore, heaten, hfind⟩
        · left
          simp only [List.zipIdx_cons, List.find?_cons, hmiss]
          exact hnone
        · right
          refine ⟨powerup :: before, eaten, after, rfl, ?_, heaten, ?_⟩
          · intro p hp
            rcases List.mem_cons.mp hp with rfl | hp
            · exact hmiss
            · exact hbefore p hp
          · simp only [List.zipIdx_cons, List.find?_cons, hmiss, hfind, List.length_cons]
            congr 2
            omega

/-- The message of `EatPowerup`. -/
def powerupEatenMsg (powerup : PowerupData) : Msg := Message.new .powerupEaten <<< powerup

/-- What the check for powerups does: nothing, a look at the own player's head,
or the first powerup there is eaten. -/
inductive PowerupCheck (client : SnakeClient) : SnakeClient → Option Msg → Prop
  | noPowerups (h : client.powerups = []) : PowerupCheck client client none
  | missed {player : Player} {players : AssocMap UInt32 Player}
      (hown : client.players.subscript client.ownID default = (player, players))
      (htail : player.tail ≠ []) : PowerupCheck client { client with players } none
  | ate {player : Player} {players : AssocMap UInt32 Player} {head : Position}
      {tail : List Position} {before after : List Powerup} {eaten : Powerup}
      (hown : client.players.subscript client.ownID default = (player, players))
      (htail : player.tail = head :: tail)
      (hpowerups : client.powerups = before ++ eaten :: after)
      (hbefore : ∀ powerup ∈ before, powerup.checkCollision head = false)
      (heaten : eaten.checkCollision head = true) :
      PowerupCheck client
        { client with
          players := players.insert client.ownID (player.addLength 1)
          powerups := before ++ after }
        (some (powerupEatenMsg eaten.data))

theorem subscript_subscript {m players : AssocMap UInt32 Player} {id : UInt32} {player : Player}
    (h : m.subscript id default = (player, players)) :
    players.subscript id default = (player, players) := by
  unfold AssocMap.subscript at h
  split at h
  · next a ha =>
      cases h
      exact AssocMap.subscript_of_lookup ha _
  · cases h
    exact AssocMap.subscript_of_lookup (AList.lookup_insert _) _

theorem checkPowerups_cases {client client' : SnakeClient} {msg : Option Msg}
    (h : client.checkPowerups = .ok (client', msg)) : PowerupCheck client client' msg := by
  unfold checkPowerups at h
  cases hpowerups : client.powerups with
  | nil =>
      rw [hpowerups] at h
      cases h
      exact .noPowerups hpowerups
  | cons powerup powerups =>
      rw [hpowerups] at h
      obtain ⟨player, players, hown⟩ : ∃ player players,
          client.players.subscript client.ownID default = (player, players) :=
        ⟨_, _, rfl⟩
      have hown' := hown
      simp only [ownID] at hown'
      simp only [hown'] at h
      obtain ⟨head, hhead, h⟩ := bind_eq_ok.mp h
      cases htail : player.tail with
      | nil => simp [Player.getHead, htail] at hhead
      | cons first tail =>
          have hfirst : first = head := by simpa [Player.getHead, htail] using hhead
          subst hfirst
          rw [← hpowerups] at h
          rcases find_zipIdx_cases client.powerups first with
            hnone | ⟨before, eaten, after, hsplit, hbefore, heaten, hfind⟩
          · simp only [hnone] at h
            cases h
            exact .missed hown (by simp [htail])
          · simp only [hfind, eatPowerup, subscript_subscript hown'] at h
            cases h
            have herase : client.powerups.eraseIdx before.length = before ++ after := by
              rw [hsplit]
              simp [List.eraseIdx_append_of_length_le]
            rw [herase]
            exact .ate hown htail hsplit hbefore heaten

theorem frame_cases {client client' : SnakeClient} {msg : Option Msg}
    (h : client.frame = .ok (client', msg)) :
    ∃ players, client.players.update Player.move = .ok players ∧
      PowerupCheck { client with players } client' msg := by
  obtain ⟨moved, hmoved, hcheck⟩ := bind_eq_ok.mp h
  obtain ⟨players, hplayers, rfl⟩ := moveAll_cases hmoved
  exact ⟨players, hplayers, checkPowerups_cases hcheck⟩

/-- The own player is looked up and, if the key asks for it, turned. -/
theorem steer_cases (client : SnakeClient) (pressed : Bool) (opposite direction : Direction) :
    client.steer pressed opposite direction = client ∨
      ∃ player players, client.players.subscript client.ownID default = (player, players) ∧
        (client.steer pressed opposite direction = { client with players } ∨
          client.steer pressed opposite direction =
            { client with players := players.insert client.ownID (player.setDirection direction) }) := by
  unfold steer
  split
  · right
    refine ⟨_, _, rfl, ?_⟩
    simp only [ownID]
    split
    · exact .inr rfl
    · exact .inl rfl
  · exact .inl rfl

theorem updateServer_of_lookup {platform : Platform} {client : SnakeClient} {player : Player}
    (h : client.players.lookup client.ownID = some player) :
    client.updateServer platform =
      (client, updatePlayerMsg platform player.tail player.direction client.clientID) := by
  simp only [ownID] at h
  simp only [updateServer, AssocMap.subscript_of_lookup h]

end SnakeClient

/-! ## Players that can move -/

/-- An alive player has cells and knows the grid. -/
def Player.Mobile (player : Player) : Prop :=
  player.alive = true → player.grid ≠ none ∧ player.tail ≠ []

def AllMobile (players : AssocMap UInt32 Player) : Prop :=
  ∀ id player, players.lookup id = some player → player.Mobile

namespace Player.Mobile

variable {player player' : Player}

theorem kill (player : Player) : player.kill.Mobile := by
  intro halive
  cases halive

theorem create {grid : Grid} {color : ImU32} {tail : List Position} (h : tail ≠ []) :
    { Player.create grid color with tail }.Mobile :=
  fun _ ↦ ⟨by simp [Player.create], h⟩

theorem addLength (h : player.Mobile) (l : Int32) : (player.addLength l).Mobile := h

theorem setDirection (h : player.Mobile) (direction : Direction) :
    (player.setDirection direction).Mobile := h

theorem update (h : player.Mobile) {direction : Direction} {tail : List Position}
    (htail : tail = [] → player.alive = false) :
    { player.setDirection direction with tail }.Mobile := by
  intro halive
  refine ⟨(h halive).1, fun hempty ↦ ?_⟩
  have hdead := htail hempty
  simp [hdead] at halive

theorem move (h : player.Mobile) : ∃ player', player.move = .ok player' := by
  unfold Player.move
  cases halive : player.alive with
  | false => exact ⟨player, rfl⟩
  | true =>
      obtain ⟨hgrid, htail⟩ := h halive
      obtain ⟨grid, hgrid⟩ := Option.ne_none_iff_exists'.mp hgrid
      obtain ⟨head, tail, htail⟩ := List.exists_cons_of_ne_nil htail
      have hemplace : ∀ next, ∃ player', player.emplaceHead next = .ok player' := by
        intro next
        simp [Player.emplaceHead, htail, hgrid]
      cases player.direction with
      | up => exact hemplace _
      | right => exact hemplace _
      | down => exact hemplace _
      | left => exact hemplace _
      | unnamed value hvalue => exact ⟨player, rfl⟩

theorem of_move (h : player.Mobile) (hmove : player.move = .ok player') : player'.Mobile := by
  intro halive
  rw [Player.alive_of_move hmove] at halive
  rw [Player.grid_of_move hmove]
  refine ⟨(h halive).1, fun hempty ↦ ?_⟩
  exact (h halive).2 ((Player.tail_eq_nil_of_move hmove).mp hempty)

end Player.Mobile

namespace AllMobile

variable {players players' : AssocMap UInt32 Player}

theorem insert (h : AllMobile players) {id : UInt32} {player : Player} (hplayer : player.Mobile) :
    AllMobile (players.insert id player) :=
  AssocMap.All.insert h id hplayer

theorem erase (h : AllMobile players) (id : UInt32) : AllMobile (players.erase id) :=
  AssocMap.All.erase h id

theorem update (h : AllMobile players) (hupdate : players.update Player.move = .ok players') :
    AllMobile players' :=
  AssocMap.All.update h (fun _ _ hmobile hmove ↦ hmobile.of_move hmove) hupdate

theorem update_ok (h : AllMobile players) : ∃ moved, players.update Player.move = .ok moved :=
  AssocMap.update_ok fun key p hp ↦ (h key p hp).move

theorem insertEntries (h : AllMobile players) (grid : Grid) {roster : List RosterEntry}
    (hroster : ∀ entry ∈ roster, entry.2.2 ≠ []) :
    AllMobile (roster.foldl (SnakeClient.insertEntry grid) players) := by
  induction roster generalizing players with
  | nil => exact h
  | cons entry roster ih =>
      apply ih
      · exact h.insert (.create (hroster entry (by simp)))
      · exact fun e he ↦ hroster e (List.mem_cons_of_mem _ he)

end AllMobile

theorem mem_insertEntries (grid : Grid) (players : AssocMap UInt32 Player)
    (roster : List RosterEntry) (id : UInt32) :
    id ∈ roster.foldl (SnakeClient.insertEntry grid) players ↔
      id ∈ roster.map Prod.fst ∨ id ∈ players := by
  induction roster generalizing players with
  | nil => simp
  | cons entry roster ih =>
      simp only [List.foldl_cons, ih, SnakeClient.insertEntry, AList.mem_insert, List.map_cons,
        List.mem_cons]
      tauto

namespace SnakeClient

/-! ## The client among its events -/

inductive ClientEvent
  | message (msg : Msg)
  | frame
  | updateServer
  | key (key : Key) (press : Bool)

def step (platform : Platform) (client : SnakeClient) : ClientEvent → Option SnakeClient
  | .message msg => (client.handleMessage platform msg).toOption
  | .frame => if 0 ≤ client.clientID then (client.frame.map Prod.fst).toOption else none
  | .updateServer => if 0 ≤ client.clientID then some (client.updateServer platform).1 else none
  | .key key press => some (client.keyCallback key press).1

/-- What the server can send: first the validation, which lists the client
itself, and then anything about players the client knows. -/
def Expected (client : SnakeClient) : Packet → Prop
  | .serverValidation clientID _ roster =>
      client.clientID < 0 ∧ 0 ≤ clientID.toInt32 ∧ clientID ∈ roster.map Prod.fst
  | .newPlayer _ _ _ => 0 ≤ client.clientID
  | .removePlayer id => 0 ≤ client.clientID ∧ id ∈ client.players ∧ id ≠ client.ownID
  | .updatePlayer id _ _ => 0 ≤ client.clientID ∧ id ∈ client.players
  | .killPlayer id => 0 ≤ client.clientID ∧ id ∈ client.players
  | .startGame => 0 ≤ client.clientID
  | .newPowerup _ => 0 ≤ client.clientID
  | .powerupEaten _ => 0 ≤ client.clientID
  | .unnamed => False

def Sent (platform : Platform) (client : SnakeClient) : ClientEvent → Prop
  | .message msg => ∃ packet, Packet.decode platform msg = .ok packet ∧ client.Expected packet
  | _ => True

/-- An empty tail arrives only for a player that is dead on this client. -/
def KeepsTails (client : SnakeClient) : Packet → Prop
  | .serverValidation _ _ roster => ∀ entry ∈ roster, entry.2.2 ≠ []
  | .newPlayer _ _ tail => tail ≠ []
  | .updatePlayer id _ tail =>
      tail = [] → ∀ player, client.players.lookup id = some player → player.alive = false
  | _ => True

/-- No empty tail for an alive player, and no check for powerups by a dead one. -/
def Harmless (platform : Platform) (client : SnakeClient) : ClientEvent → Prop
  | .message msg => ∀ packet, Packet.decode platform msg = .ok packet → client.KeepsTails packet
  | .frame => client.powerups = [] ∨
      ∃ player, client.players.lookup client.ownID = some player ∧ player.alive = true
  | _ => True

/-- In every run of allowed events, each frame makes only defined moves of alive
players and looks at the own head only if there is one. -/
def FrameLoopSafe (platform : Platform) (allowed : SnakeClient → ClientEvent → Prop) : Prop :=
  ∀ client, Reaches (step platform) allowed {} client → allowed client .frame →
    AllMobile client.players ∧ ∃ result, client.frame = .ok result

structure Ready (client : SnakeClient) : Prop where
  mobile : AllMobile client.players
  own : 0 ≤ client.clientID → client.ownID ∈ client.players

theorem ready_start : Ready {} where
  mobile id player h := by cases h
  own h := by cases h

namespace Ready

variable {client client' : SnakeClient}

/-- The own player is there, so that looking it up inserts nothing. -/
theorem subscript_own (h : client.Ready) (hplaying : 0 ≤ client.clientID) {player : Player}
    {players : AssocMap UInt32 Player}
    (hown : client.players.subscript client.ownID default = (player, players)) :
    players = client.players ∧ client.players.lookup client.ownID = some player := by
  obtain ⟨own, hlookup⟩ := AssocMap.lookup_eq_some_of_mem (h.own hplaying)
  rw [AssocMap.subscript_of_lookup hlookup] at hown
  cases hown
  exact ⟨rfl, hlookup⟩

theorem updateOwn (h : client.Ready) {player : Player} (hplayer : player.Mobile) :
    { client with players := client.players.insert client.ownID player }.Ready where
  mobile := h.mobile.insert hplayer
  own _ := (AList.mem_insert _).mpr (.inl rfl)

theorem steer (h : client.Ready) (hplaying : 0 ≤ client.clientID) (pressed : Bool)
    (opposite direction : Direction) : (client.steer pressed opposite direction).Ready := by
  rcases steer_cases client pressed opposite direction with heq | ⟨player, players, hown, heq⟩
  · rw [heq]
    exact h
  · obtain ⟨rfl, hlookup⟩ := h.subscript_own hplaying hown
    rcases heq with heq | heq
    · rw [heq]
      exact h
    · rw [heq]
      exact h.updateOwn ((h.mobile _ player hlookup).setDirection direction)

theorem steer_clientID (client : SnakeClient) (pressed : Bool) (opposite direction : Direction) :
    (client.steer pressed opposite direction).clientID = client.clientID := by
  rcases steer_cases client pressed opposite direction with heq | ⟨player, players, -, heq | heq⟩
  · rw [heq]
  · rw [heq]
  · rw [heq]

theorem keyCallback (h : client.Ready) (key : Key) (press : Bool) :
    (client.keyCallback key press).1.Ready := by
  unfold SnakeClient.keyCallback
  split
  · exact h
  · next hnot =>
      have hplaying : 0 ≤ client.clientID := Int32.not_lt.mp hnot
      refine steer (steer (steer (steer h ?_ _ _ _) ?_ _ _ _) ?_ _ _ _) ?_ _ _ _
      · exact hplaying
      · simpa only [steer_clientID] using hplaying
      · simpa only [steer_clientID] using hplaying
      · simpa only [steer_clientID] using hplaying

theorem update (h : client.Ready) {players : AssocMap UInt32 Player}
    (hupdate : client.players.update Player.move = .ok players) :
    { client with players }.Ready where
  mobile := h.mobile.update hupdate
  own hplaying := (AssocMap.mem_update hupdate _).mpr (h.own hplaying)

theorem powerupCheck (h : client.Ready) (hplaying : 0 ≤ client.clientID) {msg : Option Msg}
    (hcheck : client.PowerupCheck client' msg) : client'.Ready := by
  cases hcheck with
  | noPowerups => exact h
  | missed hown =>
      obtain ⟨rfl, -⟩ := h.subscript_own hplaying hown
      exact h
  | ate hown =>
      obtain ⟨rfl, hlookup⟩ := h.subscript_own hplaying hown
      have hate := h.updateOwn ((h.mobile _ _ hlookup).addLength 1)
      exact ⟨hate.mobile, hate.own⟩

theorem handlePacket (h : client.Ready) {packet : Packet} (hexpected : client.Expected packet)
    (hkeeps : client.KeepsTails packet) : (client.handlePacket packet).Ready := by
  cases packet with
  | serverValidation clientID powerups roster =>
      refine ⟨h.mobile.insertEntries _ hkeeps, fun _ ↦ ?_⟩
      exact (mem_insertEntries _ _ _ _).mpr (.inl hexpected.2.2)
  | newPlayer id color tail =>
      refine ⟨h.mobile.insert (.create hkeeps), fun hplaying ↦ ?_⟩
      exact (AList.mem_insert _).mpr (.inr (h.own hplaying))
  | removePlayer id =>
      refine ⟨h.mobile.erase id, fun hplaying ↦ ?_⟩
      exact AList.mem_erase.mpr ⟨hexpected.2.2.symm, h.own hplaying⟩
  | startGame => exact ⟨h.mobile, h.own⟩
  | updatePlayer id direction tail =>
      obtain ⟨player, hlookup⟩ := AssocMap.lookup_eq_some_of_mem hexpected.2
      simp only [SnakeClient.handlePacket, AssocMap.subscript_of_lookup hlookup]
      refine ⟨h.mobile.insert ?_, fun hplaying ↦ ?_⟩
      · exact (h.mobile id player hlookup).update fun hempty ↦ hkeeps hempty player hlookup
      · exact (AList.mem_insert _).mpr (.inr (h.own hplaying))
  | newPowerup powerup => exact ⟨h.mobile, h.own⟩
  | powerupEaten powerup => exact ⟨h.mobile, h.own⟩
  | killPlayer id =>
      obtain ⟨player, hlookup⟩ := AssocMap.lookup_eq_some_of_mem hexpected.2
      simp only [SnakeClient.handlePacket, AssocMap.subscript_of_lookup hlookup]
      refine ⟨h.mobile.insert (.kill player), fun hplaying ↦ ?_⟩
      exact (AList.mem_insert _).mpr (.inr (h.own hplaying))
  | unnamed => exact h

theorem step (h : client.Ready) {platform : Platform} {e : ClientEvent}
    (hsent : client.Sent platform e) (hharmless : client.Harmless platform e)
    (hstep : client.step platform e = some client') : client'.Ready := by
  cases e with
  | message msg =>
      obtain ⟨packet, hdecode, hexpected⟩ := hsent
      simp only [SnakeClient.step, handleMessage_eq, hdecode] at hstep
      cases hstep
      exact h.handlePacket hexpected (hharmless packet hdecode)
  | frame =>
      simp only [SnakeClient.step] at hstep
      split at hstep
      · next hplaying =>
          cases hframe : client.frame with
          | error fault => simp [hframe, Except.map, Except.toOption] at hstep
          | ok result =>
              have heq : result.1 = client' := by
                simpa [hframe, Except.map, Except.toOption] using hstep
              subst heq
              obtain ⟨players, hupdate, hcheck⟩ := @frame_cases _ _ result.2 hframe
              exact powerupCheck (h.update hupdate) hplaying hcheck
      · cases hstep
  | updateServer =>
      simp only [SnakeClient.step] at hstep
      split at hstep
      · next hplaying =>
          obtain ⟨player, hlookup⟩ := AssocMap.lookup_eq_some_of_mem (h.own hplaying)
          rw [updateServer_of_lookup hlookup] at hstep
          cases hstep
          exact h
      · cases hstep
  | key key press =>
      cases hstep
      exact h.keyCallback key press

/-- A frame of an alive player, or without powerups, runs through. -/
theorem frame_ok (h : client.Ready) {platform : Platform}
    (hharmless : client.Harmless platform .frame) : ∃ result, client.frame = .ok result := by
  obtain ⟨players, hupdate⟩ := h.mobile.update_ok
  have hmove : client.moveAll = .ok { client with players } := by
    simp [moveAll, hupdate, bind, Except.bind, pure, Except.pure]
  have hcheck : ∃ result, { client with players }.checkPowerups = .ok result := by
    unfold checkPowerups
    cases hpowerups : client.powerups with
    | nil => exact ⟨_, rfl⟩
    | cons powerup powerups =>
        obtain ⟨player, hlookup, halive⟩ := hharmless.resolve_left (by simp [hpowerups])
        obtain ⟨moved, hmoved, hlookup'⟩ := AssocMap.lookup_update hupdate hlookup
        have htail : moved.tail ≠ [] := fun hempty ↦
          (h.mobile _ _ hlookup halive).2 ((Player.tail_eq_nil_of_move hmoved).mp hempty)
        obtain ⟨head, tail, htail⟩ := List.exists_cons_of_ne_nil htail
        simp only [ownID] at hlookup'
        simp only [AssocMap.subscript_of_lookup hlookup', Player.getHead, htail, bind, Except.bind]
        split
        · exact ⟨_, rfl⟩
        · exact ⟨_, rfl⟩
  obtain ⟨result, hresult⟩ := hcheck
  exact ⟨result, by simp [SnakeClient.frame, hmove, hresult, bind, Except.bind]⟩

end Ready

/-- The game loop is safe in every run in which an empty tail arrives only for a
dead player and frames with powerups are those of an alive one. -/
theorem frameLoopSafe_of_harmless (platform : Platform) :
    FrameLoopSafe platform fun client e ↦ client.Sent platform e ∧ client.Harmless platform e := by
  intro client hreaches hframe
  have hready : client.Ready := hreaches.invariant ready_start
    fun _ _ _ h hallowed hstep ↦ h.step hallowed.1 hallowed.2 hstep
  exact ⟨hready.mobile, hready.frame_ok hframe.2⟩

/-- A client that has joined a game with one powerup. -/
def joinedMsg : Msg :=
  pushTail (.new .serverValidation) [⟨10, 10⟩] <<< SizeT.ofLength .x64 1 <<< (0 : ImU32) <<<
    (10000 : UInt32) <<< SizeT.ofLength .x64 1 <<< (⟨3, 4⟩ : PowerupData) <<<
      SizeT.ofLength .x64 1 <<< (10000 : UInt32)

/-- A powerup on the cell before the client's head. -/
def nextCellMsg : Msg := Message.new .newPowerup <<< (⟨10, 9⟩ : PowerupData)

/-- The client joins, and the next frame moves it onto a powerup. -/
theorem frameLoopSafe_of_harmless_eats :
    ∃ client, Reaches (step .x64) (fun client e ↦ client.Sent .x64 e ∧ client.Harmless .x64 e) {}
        client ∧ AllMobile client.players ∧
      ∃ client', client.frame = .ok (client', some (powerupEatenMsg ⟨10, 9⟩)) := by
  have hjoin : Packet.decode .x64 joinedMsg =
      .ok (.serverValidation 10000 [⟨3, 4⟩] [(10000, 0, [⟨10, 10⟩])]) := by decide +kernel
  have hnext : Packet.decode .x64 nextCellMsg = .ok (.newPowerup ⟨10, 9⟩) := by decide +kernel
  let joined : SnakeClient :=
    handlePacket {} (.serverValidation 10000 [⟨3, 4⟩] [(10000, 0, [⟨10, 10⟩])])
  let client := joined.handlePacket (.newPowerup ⟨10, 9⟩)
  have hjoined : step .x64 {} (.message joinedMsg) = some joined := by
    simp only [step, handleMessage_eq, hjoin]
    rfl
  have hplaced : step .x64 joined (.message nextCellMsg) = some client := by
    simp only [step, handleMessage_eq, hnext]
    rfl
  have hfirst : Sent .x64 {} (.message joinedMsg) ∧ Harmless .x64 {} (.message joinedMsg) := by
    refine ⟨⟨_, hjoin, by decide, by decide, by decide⟩, fun packet hpacket ↦ ?_⟩
    cases hjoin.symm.trans hpacket
    simp [KeepsTails]
  have hsecond : Sent .x64 joined (.message nextCellMsg) ∧
      Harmless .x64 joined (.message nextCellMsg) := by
    have hplaying : 0 ≤ joined.clientID := by decide +kernel
    refine ⟨⟨_, hnext, hplaying⟩, fun packet hpacket ↦ ?_⟩
    cases hnext.symm.trans hpacket
    trivial
  have hreaches : Reaches (step .x64)
      (fun client e ↦ client.Sent .x64 e ∧ client.Harmless .x64 e) {} client :=
    (Relation.ReflTransGen.single ⟨_, hfirst, hjoined⟩).tail ⟨_, hsecond, hplaced⟩
  obtain ⟨own, hown, halive⟩ : ∃ own, client.players.lookup client.ownID = some own ∧
      own.alive = true := ⟨_, rfl, rfl⟩
  obtain ⟨hmobile, ⟨client', msg⟩, hframe⟩ :=
    frameLoopSafe_of_harmless .x64 client hreaches ⟨trivial, .inr ⟨own, hown, halive⟩⟩
  have hmsg : client.frame.map Prod.snd = .ok (some (powerupEatenMsg ⟨10, 9⟩)) := by rfl
  rw [hframe] at hmsg
  exact ⟨client, hreaches, hmobile, client', by rw [hframe]; cases hmsg; rfl⟩

def killedMsg : Msg := Message.new .killPlayer <<< (10000 : Int32)

/-- The own player is killed, and the next frame asks for its head. -/
theorem not_frameLoopSafe_killed : ¬ FrameLoopSafe .x64 (Sent .x64) := by
  intro hsafe
  have hjoin : Packet.decode .x64 joinedMsg =
      .ok (.serverValidation 10000 [⟨3, 4⟩] [(10000, 0, [⟨10, 10⟩])]) := by decide +kernel
  have hkill : Packet.decode .x64 killedMsg = .ok (.killPlayer 10000) := by decide +kernel
  let joined : SnakeClient :=
    handlePacket {} (.serverValidation 10000 [⟨3, 4⟩] [(10000, 0, [⟨10, 10⟩])])
  have hjoined : step .x64 {} (.message joinedMsg) = some joined := by
    simp only [step, handleMessage_eq, hjoin]
    rfl
  have hkilled : step .x64 joined (.message killedMsg) =
      some (joined.handlePacket (.killPlayer 10000)) := by
    simp only [step, handleMessage_eq, hkill]
    rfl
  have hreaches : Reaches (step .x64) (Sent .x64) {} (joined.handlePacket (.killPlayer 10000)) := by
    have hfirst : Sent .x64 {} (.message joinedMsg) :=
      ⟨_, hjoin, by decide, by decide, by decide⟩
    have hsecond : Sent .x64 joined (.message killedMsg) :=
      ⟨_, hkill, by decide, by decide +kernel⟩
    exact (Relation.ReflTransGen.single ⟨_, hfirst, hjoined⟩).tail ⟨_, hsecond, hkilled⟩
  obtain ⟨-, result, hframe⟩ := hsafe _ hreaches trivial
  have hfault : (joined.handlePacket (.killPlayer 10000)).frame = .error .emptyTail := by rfl
  rw [hfault] at hframe
  cases hframe

end SnakeClient

end SnekCpp
