import SnekCpp.SnekServer.Server

/-!
# The broadcast and its disconnects

A broadcast that meets a closed connection starts another one inside its own
loop.  There are three outcomes: every addressed client is open and gets the
message; one client is closed and is removed; or two of them are closed, each
nested broadcast meets the other one, and the stack overflows.
-/

namespace SnekCpp.Server

open Lib Networking

/-- The same state after more effects. -/
def logged (s : Server) (effects : List Effect) : Server :=
  { s with log := s.log ++ effects }

@[simp] theorem logged_nil (s : Server) : s.logged [] = s := by
  simp [logged]

@[simp] theorem logged_logged (s : Server) (xs ys : List Effect) :
    (s.logged xs).logged ys = s.logged (xs ++ ys) := by
  simp [logged]

@[simp] theorem run_record (e : Effect) (s : Server) : (record e).run s = .ok () (s.logged [e]) :=
  rfl

@[simp] theorem run_send (client : ConnRef) (msg : Msg) (s : Server) :
    (send client msg).run s = .ok () (s.logged [.sent client msg]) := rfl

/-- The clients that a broadcast does not ignore. -/
def addressed (ignoreClient : Option ConnRef) (refs : List ConnRef) : List ConnRef :=
  refs.filter fun ref ↦ some ref ≠ ignoreClient

def sends (msg : Msg) (refs : List ConnRef) : List Effect :=
  refs.map fun ref ↦ .sent ref msg

theorem sentTo_sends (msg : Msg) (refs : List ConnRef) (r : ConnRef) :
    sentTo (sends msg refs) r = List.replicate (refs.count r) msg := by
  induction refs with
  | nil => rfl
  | cons ref refs ih =>
      have hcons : sends msg (ref :: refs) = .sent ref msg :: sends msg refs := rfl
      rw [hcons, sentTo, List.filterMap_cons, ← sentTo, ih]
      by_cases heq : ref = r
      · simp [heq, List.replicate_succ]
      · simp [heq]

theorem sentTo_sends_of_mem {msg : Msg} {refs : List ConnRef} {r : ConnRef} (hnodup : refs.Nodup)
    (h : r ∈ refs) : sentTo (sends msg refs) r = [msg] := by
  rw [sentTo_sends, List.count_eq_one_of_mem hnodup h]
  rfl

theorem sentTo_sends_of_notMem {msg : Msg} {refs : List ConnRef} {r : ConnRef} (h : r ∉ refs) :
    sentTo (sends msg refs) r = [] := by
  rw [sentTo_sends, List.count_eq_zero.mpr h]
  rfl

theorem eq_of_mem_sentTo_sends {msg m : Msg} {refs : List ConnRef} {r : ConnRef}
    (h : m ∈ sentTo (sends msg refs) r) : m = msg := by
  rw [sentTo_sends] at h
  exact List.eq_of_mem_replicate h

theorem mem_addressed {ignoreClient : Option ConnRef} {refs : List ConnRef} {ref : ConnRef} :
    ref ∈ addressed ignoreClient refs ↔ ref ∈ refs ∧ some ref ≠ ignoreClient := by
  simp [addressed]

theorem nodup_addressed {ignoreClient : Option ConnRef} {refs : List ConnRef}
    (hnodup : refs.Nodup) : (addressed ignoreClient refs).Nodup :=
  hnodup.filter _

theorem addressed_append (ignoreClient : Option ConnRef) (xs ys : List ConnRef) :
    addressed ignoreClient (xs ++ ys) = addressed ignoreClient xs ++ addressed ignoreClient ys :=
  List.filter_append ..

theorem mem_others {before after : List ConnRef} {gone ref : ConnRef}
    (h : ref ∈ before ++ gone :: after) (hne : ref ≠ gone) : ref ∈ before ++ after :=
  (List.mem_cons.mp ((List.perm_middle.mem_iff).mp h)).resolve_left hne

theorem mem_of_mem_others {before after : List ConnRef} {gone ref : ConnRef}
    (h : ref ∈ before ++ after) : ref ∈ before ++ gone :: after :=
  (List.perm_middle.mem_iff).mpr (List.mem_cons_of_mem _ h)

theorem addressed_of_notMem {refs : List ConnRef} {r : ConnRef} (h : r ∉ refs) :
    addressed (some r) refs = refs := by
  apply List.filter_eq_self.mpr
  intro ref href
  have hne : ref ≠ r := fun heq ↦ h (heq ▸ href)
  simpa using hne

/-- A broadcast that ignores a client of the list addresses the others. -/
theorem addressed_some {before after : List ConnRef} {gone : ConnRef}
    (hnodup : (before ++ gone :: after).Nodup) :
    addressed (some gone) (before ++ gone :: after) = before ++ after := by
  have hnodup' : (gone :: (before ++ after)).Nodup :=
    (List.perm_middle.nodup_iff).mp hnodup
  have hnot : gone ∉ before ++ after := (List.nodup_cons.mp hnodup').1
  have hgone : addressed (some gone) (gone :: after) = addressed (some gone) after := by
    simp [addressed]
  rw [addressed_append, hgone, ← addressed_append, addressed_of_notMem hnot]

/-! ## The loop -/

section Loop

variable (disconnect : Option ConnRef → ServerM Unit) (msg : Msg) (ignoreClient : Option ConnRef)

theorem getD_length_append {pre post : List (Option ConnRef)} (client : Option ConnRef) :
    (pre ++ client :: post).getD pre.length none = client := by
  simp

/-- Clients that are ignored or open leave the loop going, with one more
message for each of the open ones. -/
theorem run_messageClientsFrom_open {s : Server} (pre post : List (Option ConnRef))
    {refs : List ConnRef} (hdeq : s.m_deqConnections = pre ++ (refs.map some ++ post))
    (hopen : ∀ ref ∈ addressed ignoreClient refs, s.isConnected ref = true)
    (left : ℕ) (invalid : Bool) :
    (messageClientsFrom disconnect msg ignoreClient pre.length (refs.length + left) invalid).run s =
      (messageClientsFrom disconnect msg ignoreClient (pre.length + refs.length) left invalid).run
        (s.logged (sends msg (addressed ignoreClient refs))) := by
  induction refs generalizing s pre with
  | nil => simp [addressed, sends]
  | cons ref refs ih =>
      have hclient : s.m_deqConnections.getD pre.length none = some ref := by
        rw [hdeq, List.map_cons, List.cons_append, getD_length_append]
      have hshift : pre ++ ((ref :: refs).map some ++ post) =
          (pre ++ [some ref]) ++ (refs.map some ++ post) := by
        simp
      have hlen : (pre ++ [some ref]).length = pre.length + 1 := by simp
      have hcount : (ref :: refs).length + left = refs.length + left + 1 := by
        rw [List.length_cons]
        omega
      rw [hcount, messageClientsFrom, EStateM.run_bind, EStateM.run_get]
      by_cases hignored : some ref = ignoreClient
      · have haddressed : addressed ignoreClient (ref :: refs) = addressed ignoreClient refs := by
          simp [addressed, hignored]
        have hrest := ih (pre ++ [some ref]) (by rw [hdeq, hshift])
          (by rwa [haddressed] at hopen)
        rw [haddressed]
        simp only [hclient, if_pos hignored, List.length_cons]
        rw [hlen] at hrest
        rw [hrest]
        congr 2
        omega
      · have haddressed : addressed ignoreClient (ref :: refs) =
            ref :: addressed ignoreClient refs := by
          simp [addressed, hignored]
        rw [haddressed] at hopen ⊢
        have href : s.isConnected ref = true := hopen ref (by simp)
        have hrest := @ih (s.logged [.sent ref msg]) (pre ++ [some ref])
          (by rw [← hshift, ← hdeq]; rfl) fun r hr ↦ hopen r (List.mem_cons_of_mem _ hr)
        simp only [hclient, if_neg hignored, Option.filter_some, href, if_true,
          EStateM.run_bind, run_send, List.length_cons]
        rw [hlen] at hrest
        rw [hrest, logged_logged]
        congr 2
        omega

/-- A closed client that is not ignored is reported and reset. -/
theorem run_messageClientsFrom_closed {s : Server} (pre post : List (Option ConnRef))
    {gone : ConnRef} (hdeq : s.m_deqConnections = pre ++ some gone :: post)
    (hgone : some gone ≠ ignoreClient) (hclosed : s.isConnected gone = false)
    (left : ℕ) (invalid : Bool) :
    (messageClientsFrom disconnect msg ignoreClient pre.length (left + 1) invalid).run s =
      match (disconnect (some gone)).run s with
      | .ok _ s' =>
          (messageClientsFrom disconnect msg ignoreClient (pre.length + 1) left true).run
            { s' with m_deqConnections := s'.m_deqConnections.set pre.length none }
      | .error fault s' => .error fault s' := by
  have hclient : s.m_deqConnections.getD pre.length none = some gone := by
    rw [hdeq, getD_length_append]
  rw [messageClientsFrom, EStateM.run_bind, EStateM.run_get]
  simp only [hclient, if_neg hgone, Option.filter_some, hclosed, Bool.false_eq_true, if_false,
    EStateM.run_bind, EStateM.run_modify]
  cases (disconnect (some gone)).run s <;> rfl

end Loop

/-! ## The whole broadcast -/

/-- The connections are `refs`, all of them distinct and none of them null. -/
structure Listed (s : Server) (refs : List ConnRef) : Prop where
  deque : s.m_deqConnections = refs.map some
  nodup : refs.Nodup

def IsOpen (s : Server) (ref : ConnRef) : Prop := s.isConnected ref = true

instance (s : Server) (ref : ConnRef) : Decidable (s.IsOpen ref) :=
  inferInstanceAs (Decidable (_ = true))

theorem Listed.logged {s : Server} {refs : List ConnRef} (h : s.Listed refs)
    (effects : List Effect) : (s.logged effects).Listed refs :=
  ⟨h.deque, h.nodup⟩

/-- The effects of a broadcast in which `gone` is the closed client, met after
`before` and before `after`. -/
def departure (s : Server) (msg : Msg) (ignoreClient : Option ConnRef)
    (before : List ConnRef) (gone : ConnRef) (after : List ConnRef) : List Effect :=
  sends msg (addressed ignoreClient before) ++ [.disconnected (some gone)] ++
    sends (removePlayerMsg (s.getID gone).toInt32) (before ++ after) ++
      sends msg (addressed ignoreClient after)

/-- The state after such a broadcast. -/
def departed (s : Server) (msg : Msg) (ignoreClient : Option ConnRef)
    (before : List ConnRef) (gone : ConnRef) (after : List ConnRef) : Server :=
  { s with
    log := s.log ++ s.departure msg ignoreClient before gone after
    m_deqConnections := (before ++ after).map some
    players := s.players.erase (s.getID gone) }

theorem run_messageAllClients_of_open {s : Server} {refs : List ConnRef}
    (hdeque : s.m_deqConnections = refs.map some) {ignoreClient : Option ConnRef}
    (hopen : ∀ ref ∈ addressed ignoreClient refs, s.IsOpen ref) (depth : ℕ) (msg : Msg) :
    (messageAllClients (depth + 1) msg ignoreClient).run s =
      .ok () (s.logged (sends msg (addressed ignoreClient refs))) := by
  have hloop := run_messageClientsFrom_open
    (onClientDisconnectWith (messageAllClients depth)) msg ignoreClient [] [] (by simpa using hdeque) hopen 0 false
  have hlen : s.m_deqConnections.length = refs.length := by simp [hdeque]
  simp only [messageAllClients, EStateM.run_bind, EStateM.run_get, hlen]
  simp only [List.length_nil, Nat.add_zero] at hloop
  rw [hloop]
  rfl

theorem run_messageAllClients_open {s : Server} {refs : List ConnRef} (h : s.Listed refs)
    {ignoreClient : Option ConnRef} (hopen : ∀ ref ∈ addressed ignoreClient refs, s.IsOpen ref)
    (depth : ℕ) (msg : Msg) :
    (messageAllClients (depth + 1) msg ignoreClient).run s =
      .ok () (s.logged (sends msg (addressed ignoreClient refs))) :=
  run_messageAllClients_of_open h.deque hopen depth msg

theorem filter_isSome_map_some (refs : List ConnRef) :
    (refs.map some).filter (· ≠ none) = refs.map some := by
  apply List.filter_eq_self.mpr
  simp

theorem filter_isSome_departed (before after : List ConnRef) :
    (before.map some ++ none :: after.map some).filter (· ≠ none) =
      (before ++ after).map some := by
  rw [List.filter_append, List.filter_cons_of_neg (by simp), filter_isSome_map_some,
    filter_isSome_map_some, List.map_append]

/-- Up to the first closed client that it addresses, a broadcast only sends. -/
theorem run_messageAllClients_closed {s : Server} {before after : List ConnRef} {gone : ConnRef}
    (h : s.Listed (before ++ gone :: after)) {ignoreClient : Option ConnRef}
    (hgone : some gone ≠ ignoreClient) (hclosed : ¬ s.IsOpen gone)
    (hbefore : ∀ ref ∈ addressed ignoreClient before, s.IsOpen ref) (depth : ℕ) (msg : Msg) :
    (messageAllClients (depth + 1) msg ignoreClient).run s =
      match (onClientDisconnectWith (messageAllClients depth) (some gone)).run
          (s.logged (sends msg (addressed ignoreClient before))) with
      | .ok _ s' =>
          (do
            let invalid ← messageClientsFrom (onClientDisconnectWith (messageAllClients depth)) msg
              ignoreClient (before.length + 1) after.length true
            if invalid then
              modify fun s ↦ { s with
                m_deqConnections := s.m_deqConnections.filter (· ≠ none) } : ServerM Unit).run
              { s' with m_deqConnections := s'.m_deqConnections.set before.length none }
      | .error fault s' => .error fault s' := by
  have hdeq : s.m_deqConnections = [] ++ (before.map some ++ some gone :: after.map some) := by
    simpa using h.deque
  have hloop := run_messageClientsFrom_open
    (onClientDisconnectWith (messageAllClients depth)) msg ignoreClient [] _ hdeq hbefore
    (after.length + 1) false
  have hnext := run_messageClientsFrom_closed
    (onClientDisconnectWith (messageAllClients depth)) msg ignoreClient
    (s := s.logged (sends msg (addressed ignoreClient before))) (before.map some)
    (after.map some) hdeq hgone (by simpa [IsOpen, logged] using hclosed) after.length false
  have hlen : s.m_deqConnections.length = before.length + (after.length + 1) := by
    simp [h.deque]
  simp only [List.length_nil, Nat.zero_add, List.length_map] at hloop hnext
  simp only [messageAllClients, EStateM.run_bind, EStateM.run_get, hlen]
  rw [hloop, hnext]
  cases (onClientDisconnectWith (messageAllClients depth) (some gone)).run
      (s.logged (sends msg (addressed ignoreClient before))) <;> rfl

/-- The rest of the loop, once a closed client has been reset and the others are open. -/
theorem run_rest_of_loop (disconnect : Option ConnRef → ServerM Unit) (msg : Msg)
    (ignoreClient : Option ConnRef) {s : Server} {before after : List ConnRef} {gone : ConnRef}
    (hdeq : s.m_deqConnections = (before ++ gone :: after).map some)
    (hafter : ∀ ref ∈ addressed ignoreClient after, s.IsOpen ref) :
    (do
      let invalid ← messageClientsFrom disconnect msg ignoreClient (before.length + 1)
        after.length true
      if invalid then
        modify fun s ↦ { s with
          m_deqConnections := s.m_deqConnections.filter (· ≠ none) } : ServerM Unit).run
        { s with m_deqConnections := s.m_deqConnections.set before.length none } =
      .ok () { s.logged (sends msg (addressed ignoreClient after)) with
        m_deqConnections := (before ++ after).map some } := by
  have hset : s.m_deqConnections.set before.length none =
      before.map some ++ none :: after.map some := by
    simp [hdeq]
  rw [hset]
  have hloop := run_messageClientsFrom_open disconnect msg ignoreClient
    (s := { s with m_deqConnections := before.map some ++ none :: after.map some })
    (before.map some ++ [none]) [] (by simp) hafter 0 true
  simp only [List.length_append, List.length_map, List.length_singleton, Nat.add_zero] at hloop
  simp only [EStateM.run_bind]
  rw [hloop]
  simp only [messageClientsFrom, EStateM.run_pure, if_true, EStateM.run_modify, logged,
    filter_isSome_departed]

/-- The state after `gone` has been reported to `others`. -/
def reported (s : Server) (gone : ConnRef) (others : List ConnRef) : Server :=
  { s with
    log := s.log ++ ([.disconnected (some gone)] ++
      sends (removePlayerMsg (s.getID gone).toInt32) others)
    players := s.players.erase (s.getID gone) }

/-- A disconnect whose broadcast meets only open clients. -/
theorem run_onClientDisconnect_open {s : Server} {before after : List ConnRef} {gone : ConnRef}
    (h : s.Listed (before ++ gone :: after)) (hopen : ∀ ref ∈ before ++ after, s.IsOpen ref)
    (depth : ℕ) :
    (onClientDisconnectWith (messageAllClients (depth + 1)) (some gone)).run s =
      .ok () (s.reported gone (before ++ after)) := by
  have haddressed := addressed_some h.nodup
  have hnested := @run_messageAllClients_open _ _ (h.logged [.disconnected (some gone)])
    (some gone) (by rw [haddressed]; exact hopen) depth
    (removePlayerMsg (s.getID gone).toInt32)
  rw [haddressed, logged_logged] at hnested
  simp only [onClientDisconnectWith, EStateM.run_bind, run_record, EStateM.run_get]
  have hid : (s.logged [.disconnected (some gone)]).getID gone = s.getID gone := rfl
  rw [hid, hnested]
  rfl

/-- One closed client and a stack of two broadcasts: the client is removed. -/
theorem run_messageAllClients_departed {s : Server} {before after : List ConnRef} {gone : ConnRef}
    (h : s.Listed (before ++ gone :: after)) {ignoreClient : Option ConnRef}
    (hgone : some gone ≠ ignoreClient) (hclosed : ¬ s.IsOpen gone)
    (hopen : ∀ ref ∈ before ++ after, s.IsOpen ref) (depth : ℕ) (msg : Msg) :
    (messageAllClients (depth + 2) msg ignoreClient).run s =
      .ok () (s.departed msg ignoreClient before gone after) := by
  have hbefore : ∀ ref ∈ addressed ignoreClient before, s.IsOpen ref := fun ref href ↦
    hopen ref (List.mem_append_left _ (mem_addressed.mp href).1)
  have hafter : ∀ ref ∈ addressed ignoreClient after, s.IsOpen ref := fun ref href ↦
    hopen ref (List.mem_append_right _ (mem_addressed.mp href).1)
  have hdisconnect := run_onClientDisconnect_open
    (h.logged (sends msg (addressed ignoreClient before))) hopen depth
  rw [run_messageAllClients_closed h hgone hclosed hbefore, hdisconnect]
  refine (run_rest_of_loop _ msg ignoreClient
    (s := (s.logged (sends msg (addressed ignoreClient before))).reported gone (before ++ after))
    h.deque hafter).trans ?_
  simp [departed, departure, logged, reported]

/-! ## Every outcome of a broadcast -/

/-- An effect of a disconnect: a report of a closed client, or the news of it
to an open one. -/
def Removal (s : Server) (refs : List ConnRef) : Effect → Prop
  | .disconnected client => ∃ gone ∈ refs, client = some gone ∧ ¬ s.IsOpen gone
  | .sent ref msg => ref ∈ refs ∧ s.IsOpen ref ∧
      ∃ gone ∈ refs, ¬ s.IsOpen gone ∧ msg = removePlayerMsg (s.getID gone).toInt32
  | _ => False

inductive Broadcast (s : Server) (refs : List ConnRef) (msg : Msg)
    (ignoreClient : Option ConnRef) : EStateM.Result Fault Server Unit → Prop
  | delivered (hopen : ∀ ref ∈ addressed ignoreClient refs, s.IsOpen ref) :
      Broadcast s refs msg ignoreClient
        (.ok () (s.logged (sends msg (addressed ignoreClient refs))))
  | departed {before after : List ConnRef} {gone : ConnRef}
      (hrefs : refs = before ++ gone :: after) (hgone : some gone ≠ ignoreClient)
      (hclosed : ¬ s.IsOpen gone) (hopen : ∀ ref ∈ before ++ after, s.IsOpen ref) :
      Broadcast s refs msg ignoreClient (.ok () (s.departed msg ignoreClient before gone after))
  | overflow {reached : List ConnRef} {removals : List Effect}
      (hreached : ∀ ref ∈ reached, ref ∈ addressed ignoreClient refs ∧ s.IsOpen ref)
      (hremovals : ∀ e ∈ removals, s.Removal refs e) :
      Broadcast s refs msg ignoreClient
        (.error .stackOverflow (s.logged (sends msg reached ++ removals)))

/-- The clients up to the first closed one that is addressed. -/
theorem exists_first_closed {s : Server} {ignoreClient : Option ConnRef} {refs : List ConnRef}
    (h : ¬ ∀ ref ∈ addressed ignoreClient refs, s.IsOpen ref) :
    ∃ before gone after, refs = before ++ gone :: after ∧ some gone ≠ ignoreClient ∧
      ¬ s.IsOpen gone ∧ ∀ ref ∈ addressed ignoreClient before, s.IsOpen ref := by
  induction refs with
  | nil => simp [addressed] at h
  | cons ref refs ih =>
      by_cases hfirst : some ref ≠ ignoreClient ∧ ¬ s.IsOpen ref
      · exact ⟨[], ref, refs, rfl, hfirst.1, hfirst.2, by simp [addressed]⟩
      · have hok : ∀ r ∈ addressed ignoreClient [ref], s.IsOpen r := by
          intro r hr
          obtain ⟨hmem, hne⟩ := mem_addressed.mp hr
          rw [List.mem_singleton] at hmem
          subst hmem
          by_contra hclosed
          exact hfirst ⟨hne, hclosed⟩
        have hrest : ¬ ∀ r ∈ addressed ignoreClient refs, s.IsOpen r := by
          intro hall
          apply h
          intro r hr
          rw [← List.singleton_append, addressed_append, List.mem_append] at hr
          rcases hr with hr | hr
          · exact hok r hr
          · exact hall r hr
        obtain ⟨before, gone, after, hrefs, hgone, hclosed, hbefore⟩ := ih hrest
        refine ⟨ref :: before, gone, after, by rw [hrefs]; rfl, hgone, hclosed, ?_⟩
        intro r hr
        rw [← List.singleton_append, addressed_append, List.mem_append] at hr
        rcases hr with hr | hr
        · exact hok r hr
        · exact hbefore r hr

/-- The induction is on the stack: the broadcast of a disconnect either meets
only open clients, or ends in an overflow, because the client it ignores is
closed as well. -/
theorem broadcast_outcome {s : Server} {refs : List ConnRef} (h : s.Listed refs) (depth : ℕ)
    (msg : Msg) (ignoreClient : Option ConnRef) :
    Broadcast s refs msg ignoreClient ((messageAllClients depth msg ignoreClient).run s) := by
  induction depth generalizing s msg ignoreClient with
  | zero =>
      have hoverflow := @Broadcast.overflow s refs msg ignoreClient [] [] (by simp) (by simp)
      rw [show (messageAllClients 0 msg ignoreClient).run s = .error .stackOverflow s from rfl]
      simpa [sends] using hoverflow
  | succ depth ih =>
      by_cases hall : ∀ ref ∈ addressed ignoreClient refs, s.IsOpen ref
      · rw [run_messageAllClients_open h hall]
        exact .delivered hall
      · obtain ⟨before, gone, after, rfl, hgone, hclosed, hbefore⟩ := exists_first_closed hall
        have hreached : ∀ ref ∈ addressed ignoreClient before,
            ref ∈ addressed ignoreClient (before ++ gone :: after) ∧ s.IsOpen ref := by
          intro ref href
          refine ⟨?_, hbefore ref href⟩
          rw [addressed_append]
          exact List.mem_append_left _ href
        have hgoneMem : gone ∈ before ++ gone :: after := by simp
        have hcall := ih ((h.logged (sends msg (addressed ignoreClient before))).logged
          [.disconnected (some gone)]) (removePlayerMsg (s.getID gone).toInt32) (some gone)
        rw [run_messageAllClients_closed h hgone hclosed hbefore]
        simp only [onClientDisconnectWith, EStateM.run_bind, run_record, EStateM.run_get,
          logged_logged] at hcall ⊢
        generalize hresult : (messageAllClients depth (removePlayerMsg (s.getID gone).toInt32)
          (some gone)).run (s.logged (sends msg (addressed ignoreClient before) ++
            [.disconnected (some gone)])) = result at hcall
        have hid : (s.logged (sends msg (addressed ignoreClient before) ++
            [.disconnected (some gone)])).getID gone = s.getID gone := rfl
        rw [hid, hresult]
        cases hcall with
        | delivered hopen =>
            rw [addressed_some h.nodup] at hopen ⊢
            have hafter : ∀ ref ∈ addressed ignoreClient after, s.IsOpen ref := fun ref href ↦
              hopen ref (List.mem_append_right _ (mem_addressed.mp href).1)
            have hrest := run_rest_of_loop (onClientDisconnectWith (messageAllClients depth)) msg
              ignoreClient (s := (s.logged (sends msg (addressed ignoreClient before))).reported
                gone (before ++ after)) h.deque hafter
            have houtcome := @Broadcast.departed _ _ msg _ _ _ _ rfl hgone hclosed hopen
            convert houtcome using 1
            refine Eq.trans ?_ (hrest.trans ?_)
            · simp [reported, logged]
            · simp [Server.departed, departure, logged, reported]
        | departed hrefs hother hclosed' hopen =>
            exfalso
            have hne : gone ≠ _ := fun heq ↦ hother (by rw [heq])
            have hmem : gone ∈ before ++ gone :: after := hgoneMem
            rw [hrefs] at hmem
            exact hclosed (hopen gone (mem_others hmem hne))
        | @overflow reached removals hreached' hremovals =>
            have houtcome := @Broadcast.overflow _ _ msg ignoreClient _
              ([.disconnected (some gone)] ++
                sends (removePlayerMsg (s.getID gone).toInt32) reached ++ removals) hreached
              (by
                intro e he
                rw [List.append_assoc, List.mem_append, List.mem_append] at he
                rcases he with he | he | he
                · rw [List.mem_singleton] at he
                  subst he
                  exact ⟨gone, hgoneMem, rfl, hclosed⟩
                · obtain ⟨ref, href, rfl⟩ := List.mem_map.mp he
                  obtain ⟨hmem, hopen⟩ := hreached' ref href
                  exact ⟨(mem_addressed.mp hmem).1, hopen, gone, hgoneMem, hclosed, rfl⟩
                · exact hremovals e he)
            convert houtcome using 1
            simp [logged]

/-! ## Two closed clients -/

/-- A broadcast that ignores `ignoreClient` gets as far as `reach`, and meets `gone` closed. -/
def Meets (s : Server) (refs : List ConnRef) (ignoreClient : Option ConnRef)
    (reach : List ConnRef) (gone : ConnRef) : Prop :=
  ∃ before after, refs = before ++ gone :: after ∧ some gone ≠ ignoreClient ∧ ¬ s.IsOpen gone ∧
    addressed ignoreClient before = reach ∧ ∀ ref ∈ reach, s.IsOpen ref

/-- The news of `gone`, inside which the news of `other` is sent, and so on
until the stack is used up. -/
def chase (s : Server) : ℕ → ConnRef → List ConnRef → ConnRef → List ConnRef → List Effect
  | 0, _, _, _, _ => []
  | depth + 1, gone, reach, other, reach' =>
      sends (removePlayerMsg (s.getID gone).toInt32) reach ++ [.disconnected (some other)] ++
        s.chase depth other reach' gone reach

section Chase

variable {s : Server} {refs reach reach' : List ConnRef} {gone other : ConnRef}

theorem chase_logged (effects : List Effect) (depth : ℕ) :
    (s.logged effects).chase depth gone reach other reach' =
      s.chase depth gone reach other reach' := by
  induction depth generalizing gone reach other reach' with
  | zero => rfl
  | succ depth ih =>
      rw [chase, chase, ih]
      rfl

theorem run_messageAllClients_of_meets (h : s.Listed refs) {ignoreClient : Option ConnRef}
    (hmeets : s.Meets refs ignoreClient reach gone) {depth : ℕ} {msg : Msg} {fault : Fault}
    {s' : Server}
    (hnested : (messageAllClients depth (removePlayerMsg (s.getID gone).toInt32) (some gone)).run
      (s.logged (sends msg reach ++ [.disconnected (some gone)])) = .error fault s') :
    (messageAllClients (depth + 1) msg ignoreClient).run s = .error fault s' := by
  obtain ⟨before, after, rfl, hgone, hclosed, rfl, hopen⟩ := hmeets
  rw [run_messageAllClients_closed h hgone hclosed hopen]
  simp only [onClientDisconnectWith, EStateM.run_bind, run_record, EStateM.run_get, logged_logged]
  have hid : (s.logged (sends msg (addressed ignoreClient before) ++
      [.disconnected (some gone)])).getID gone = s.getID gone := rfl
  rw [hid, hnested]

/-- Each of the two is met by the news of the other one. -/
theorem run_chase (h : s.Listed refs) (hgone : s.Meets refs (some gone) reach other)
    (hother : s.Meets refs (some other) reach' gone) (depth : ℕ) :
    (messageAllClients depth (removePlayerMsg (s.getID gone).toInt32) (some gone)).run s =
      .error .stackOverflow (s.logged (s.chase depth gone reach other reach')) := by
  induction depth generalizing s gone other reach reach' with
  | zero => rw [chase, logged_nil]; rfl
  | succ depth ih =>
      apply run_messageAllClients_of_meets h hgone
      have hnested := ih (h.logged (sends (removePlayerMsg (s.getID gone).toInt32) reach ++
        [.disconnected (some other)])) hother hgone
      rw [logged_logged, chase_logged] at hnested
      exact hnested

theorem run_messageAllClients_chase (h : s.Listed refs) {ignoreClient : Option ConnRef}
    {heard : List ConnRef} (hmeets : s.Meets refs ignoreClient heard gone)
    (hgone : s.Meets refs (some gone) reach other) (hother : s.Meets refs (some other) reach' gone)
    (depth : ℕ) (msg : Msg) :
    (messageAllClients (depth + 1) msg ignoreClient).run s =
      .error .stackOverflow (s.logged (sends msg heard ++ [.disconnected (some gone)] ++
        s.chase depth gone reach other reach')) := by
  apply run_messageAllClients_of_meets h hmeets
  have hnested := run_chase (h.logged (sends msg heard ++ [.disconnected (some gone)])) hgone hother
    depth
  rw [logged_logged, chase_logged] at hnested
  exact hnested

theorem mem_chase {depth : ℕ} {e : Effect} (h : e ∈ s.chase depth gone reach other reach') :
    (∃ client, e = .disconnected client) ∨
      e ∈ sends (removePlayerMsg (s.getID gone).toInt32) reach ∨
        e ∈ sends (removePlayerMsg (s.getID other).toInt32) reach' := by
  induction depth generalizing gone reach other reach' with
  | zero => cases h
  | succ depth ih =>
      rw [chase, List.mem_append, List.mem_append, List.mem_singleton] at h
      rcases h with (h | rfl) | h
      · exact .inr (.inl h)
      · exact .inl ⟨_, rfl⟩
      · exact (ih h).imp_right Or.symm

/-- With room for two calls both of them are told. -/
theorem forall_mem_chase {P : Effect → Prop} (hdisconnected : ∀ client, P (.disconnected client))
    (depth : ℕ) :
    (∀ e ∈ s.chase (depth + 2) gone reach other reach', P e) ↔
      (∀ e ∈ sends (removePlayerMsg (s.getID gone).toInt32) reach, P e) ∧
        ∀ e ∈ sends (removePlayerMsg (s.getID other).toInt32) reach', P e := by
  constructor
  · intro h
    refine ⟨fun e he ↦ h e ?_, fun e he ↦ h e ?_⟩
    · rw [chase]
      exact List.mem_append_left _ (List.mem_append_left _ he)
    · rw [chase, chase]
      exact List.mem_append_right _ (List.mem_append_left _ (List.mem_append_left _ he))
  · rintro ⟨hfirst, hsecond⟩ e he
    rcases mem_chase he with ⟨client, rfl⟩ | he | he
    · exact hdisconnected client
    · exact hfirst e he
    · exact hsecond e he

end Chase

/-! ## Termination -/

def AtMostOneClosed (s : Server) (refs : List ConnRef) : Prop :=
  ∀ a ∈ refs, ∀ b ∈ refs, ¬ s.IsOpen a → ¬ s.IsOpen b → a = b

/-- With enough stack the broadcast returns, and it reports no null pointer and
no connection twice. -/
def BroadcastSafe (s : Server) (msg : Msg) (ignoreClient : Option ConnRef) : Prop :=
  ∃ needed, ∀ depth ≥ needed, ∃ s' effects,
    (messageAllClients depth msg ignoreClient).run s = .ok () s' ∧ s'.log = s.log ++ effects ∧
      .disconnected none ∉ effects ∧ ∀ ref, effects.count (.disconnected (some ref)) ≤ 1

theorem disconnected_notMem_sends (client : Option ConnRef) (msg : Msg) (refs : List ConnRef) :
    .disconnected client ∉ sends msg refs := by
  simp [sends]

theorem count_disconnected_sends (client : Option ConnRef) (msg : Msg) (refs : List ConnRef) :
    (sends msg refs).count (.disconnected client) = 0 :=
  List.count_eq_zero.mpr (disconnected_notMem_sends client msg refs)

theorem atMostOneClosed_of_returns {s s' : Server} {refs : List ConnRef} (h : s.Listed refs)
    {depth : ℕ} {msg : Msg} {ignoreClient : Option ConnRef}
    (hreturns : (messageAllClients depth msg ignoreClient).run s = .ok () s') :
    s.AtMostOneClosed refs := by
  have houtcome := broadcast_outcome h depth msg ignoreClient
  rw [hreturns] at houtcome
  intro a ha b hb hclosedA hclosedB
  cases houtcome with
  | delivered hopen =>
      have hignored : ∀ r ∈ refs, ¬ s.IsOpen r → some r = ignoreClient := by
        intro r hr hclosed
        by_contra hne
        exact hclosed (hopen r (mem_addressed.mpr ⟨hr, hne⟩))
      exact Option.some.inj ((hignored a ha hclosedA).trans (hignored b hb hclosedB).symm)
  | @departed before after gone hrefs hgone hclosed hopen =>
      subst hrefs
      have honly : ∀ r ∈ before ++ gone :: after, ¬ s.IsOpen r → r = gone := by
        intro r hr hr'
        by_contra hne
        exact hr' (hopen r (mem_others hr hne))
      rw [honly a ha hclosedA, honly b hb hclosedB]

/-- A list with one closed client at most, at the client that a broadcast meets closed. -/
theorem exists_only_closed {s : Server} {refs : List ConnRef} (h : s.Listed refs)
    (hclosed : s.AtMostOneClosed refs) {ignoreClient : Option ConnRef}
    (hmet : ¬ ∀ ref ∈ addressed ignoreClient refs, s.IsOpen ref) :
    ∃ before gone after, refs = before ++ gone :: after ∧ some gone ≠ ignoreClient ∧
      ¬ s.IsOpen gone ∧ ∀ ref ∈ before ++ after, s.IsOpen ref := by
  obtain ⟨before, gone, after, rfl, hgone, hgoneClosed, -⟩ := exists_first_closed hmet
  have hnot : gone ∉ before ++ after :=
    (List.nodup_cons.mp ((List.perm_middle.nodup_iff).mp h.nodup)).1
  refine ⟨before, gone, after, rfl, hgone, hgoneClosed, ?_⟩
  intro ref href
  by_contra hrefClosed
  have heq := hclosed ref (mem_of_mem_others href) gone (by simp) hrefClosed hgoneClosed
  exact hnot (heq ▸ href)

theorem broadcastSafe_of_atMostOneClosed {s : Server} {refs : List ConnRef} (h : s.Listed refs)
    (hclosed : s.AtMostOneClosed refs) (msg : Msg) (ignoreClient : Option ConnRef) :
    s.BroadcastSafe msg ignoreClient := by
  by_cases hall : ∀ ref ∈ addressed ignoreClient refs, s.IsOpen ref
  · refine ⟨1, fun depth hdepth ↦ ?_⟩
    obtain ⟨depth, rfl⟩ := Nat.exists_eq_add_of_le' hdepth
    exact ⟨_, _, run_messageAllClients_open h hall depth msg, rfl,
      disconnected_notMem_sends _ _ _, fun ref ↦ by simp [count_disconnected_sends]⟩
  · obtain ⟨before, gone, after, rfl, hgone, hgoneClosed, hopen⟩ := exists_only_closed h hclosed hall
    refine ⟨2, fun depth hdepth ↦ ?_⟩
    obtain ⟨depth, rfl⟩ := Nat.exists_eq_add_of_le' hdepth
    refine ⟨_, _, run_messageAllClients_departed h hgone hgoneClosed hopen depth msg, rfl, ?_, ?_⟩
    · simp [departure, disconnected_notMem_sends]
    · intro ref
      simp only [departure, List.count_append, count_disconnected_sends, Nat.zero_add,
        Nat.add_zero]
      exact (List.count_le_length).trans_eq rfl

/-- The mutual recursion of broadcast and disconnect is safe exactly when at
most one connection of the list is closed. -/
theorem broadcastSafe_iff {s : Server} {refs : List ConnRef} (h : s.Listed refs) (msg : Msg)
    (ignoreClient : Option ConnRef) :
    s.BroadcastSafe msg ignoreClient ↔ s.AtMostOneClosed refs := by
  constructor
  · rintro ⟨needed, hsafe⟩
    obtain ⟨s', effects, hreturns, -⟩ := hsafe needed le_rfl
    exact atMostOneClosed_of_returns h hreturns
  · intro hclosed
    exact broadcastSafe_of_atMostOneClosed h hclosed msg ignoreClient

/-- A server with two connections, of which those in `isConnected` are open. -/
def twoConnections (isConnected : ConnRef → Bool) : Server :=
  { m_deqConnections := [some 0, some 1], isConnected }

theorem listed_twoConnections (isConnected : ConnRef → Bool) :
    (twoConnections isConnected).Listed [0, 1] :=
  ⟨rfl, by decide⟩

theorem broadcastSafe_iff_one_closed :
    (twoConnections (· == 0)).BroadcastSafe (.new .startGame) none ↔
      (twoConnections (· == 0)).AtMostOneClosed [0, 1] :=
  broadcastSafe_iff (listed_twoConnections _) _ _

/-- Two clients are gone when the next message is broadcast. -/
theorem not_broadcastSafe_two_closed :
    (twoConnections fun _ ↦ false).Listed [0, 1] ∧
      ¬ (twoConnections fun _ ↦ false).BroadcastSafe (.new .startGame) none := by
  refine ⟨listed_twoConnections _, ?_⟩
  rintro ⟨needed, hsafe⟩
  obtain ⟨s', effects, hreturns, -⟩ := hsafe needed le_rfl
  have hone := atMostOneClosed_of_returns (listed_twoConnections _) hreturns
  have heq := hone 0 (by simp) 1 (by simp) (by simp [IsOpen, twoConnections])
    (by simp [IsOpen, twoConnections])
  exact absurd heq (by decide)

end SnekCpp.Server
