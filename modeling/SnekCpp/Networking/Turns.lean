import SnekCpp.Networking.Duplex

/-!
# One end and the reader of whole messages

Whatever happens at one end of a connection, its owner sees no more of it than a
message that is there at once, a socket that closes, or nothing.
-/

namespace SnekCpp.Networking

open Lib

variable {T : Type} [StandardLayout T]

theorem Incoming.Follows.congr [Inhabited T] {I I' : Incoming T} {reader : Reader T}
    (h : I.Follows reader) (hsame : I.connection.SameIn I'.connection) (hwire : I'.wire = I.wire)
    (harrived : I'.arrived = I.arrived) : I'.Follows reader := by
  refine ⟨?_, harrived ▸ h.consumed, ?_⟩
  · rw [harrived, hsame.queue]
    exact h.reads
  · have hbehind := h.behind
    unfold Behind at hbehind ⊢
    rw [hsame.reading, hsame.buffer, hwire, harrived]
    exact hbehind

namespace Station

variable {s s' : Station T} {coming : List UInt8} {e : StationEvent T} {reader : Reader T}

/-- The read loop of an open socket stands where the reader does, or within the next message. -/
def Follows [Inhabited T] (s : Station T) (reader : Reader T) : Prop :=
  s.connection.isOpen = true → s.incoming.Follows reader

theorem follows_fresh [Inhabited T] : (fresh : Station T).Follows default :=
  fun _ ↦ ⟨.nil, Nat.zero_le _, rfl, rfl⟩

/-- What the owner of an end sees of a step. -/
inductive Turns [Inhabited T] (s : Station T) (e : StationEvent T) (reader : Reader T)
    (s' : Station T) : Prop
  | quiet (hqueue : s'.connection.m_qMessagesIn = s.connection.m_qMessagesIn)
      (hopen : s'.connection.isOpen = s.connection.isOpen) (h : s'.Follows reader) :
      Turns s e reader s'
  | closes (hqueue : s'.connection.m_qMessagesIn = s.connection.m_qMessagesIn)
      (hclosed : s'.connection.isOpen = false) : Turns s e reader s'
  | queues {msg : Message T} {reader' : Reader T} (he : e = .read)
      (hread : reader.read s.arrived = some (msg, reader'))
      (hqueue : s'.connection.m_qMessagesIn = s.connection.m_qMessagesIn ++ [msg])
      (hopen : s'.connection.isOpen = s.connection.isOpen) (h : s'.Follows reader') :
      Turns s e reader s'

theorem turns_of_outgoing [Inhabited T] {e : OutgoingEvent T} {O : Outgoing T}
    (hfollows : s.Follows reader) (h : s.toOutgoing.step e = some O) :
    s.Turns (.outgoing e) reader { s with toOutgoing := O } := by
  have hadvances := Outgoing.advances_of_step h
  cases hopen : O.connection.isOpen with
  | false => exact .closes hadvances.keeps.queue hopen
  | true =>
      have hbefore := (hadvances.isOpen hopen).1
      exact .quiet hadvances.keeps.queue (hopen.trans hbefore.symm)
        fun _ ↦ (hfollows hbefore).congr hadvances.keeps rfl rfl

/-- A read that completes, on an open socket. -/
theorem turns_of_read [Inhabited T] (hopen : s.connection.isOpen = true)
    (hfollows : s.Follows reader) {I : Incoming T} (h : s.incoming.step .read = some I) :
    s.Turns .read reader (s.setIncoming I) := by
  have hproceeds := (hfollows hopen).read h
  have hsame : I.connection.isOpen = s.connection.isOpen := by
    obtain ⟨-, h⟩ := Option.ite_none_right_eq_some.mp h
    cases h
    exact Incoming.isOpen_take _ _
  cases hproceeds with
  | within hqueue h => exact .quiet hqueue hsame fun _ ↦ h
  | queues hread hqueue h => exact .queues rfl hread hqueue hsame fun _ ↦ h

theorem turns_of_step [Inhabited T] (hfollows : s.Follows reader)
    (hread : e = .read → s.connection.isOpen = true) (h : s.step coming e = some s') :
    s.Turns e reader s' := by
  cases e with
  | outgoing e =>
      obtain ⟨O, hO, rfl⟩ := Option.map_eq_some_iff.mp h
      exact turns_of_outgoing hfollows hO
  | arrive n =>
      obtain ⟨-, h⟩ := Option.ite_none_right_eq_some.mp h
      cases h
      exact .quiet rfl rfl fun hopen ↦ (hfollows hopen).arrive _
  | read =>
      obtain ⟨I, hI, rfl⟩ := Option.map_eq_some_iff.mp h
      exact turns_of_read (hread rfl) hfollows hI
  | fail =>
      obtain ⟨I, hI, rfl⟩ := Option.map_eq_some_iff.mp h
      simp only [Incoming.step] at hI
      split at hI
      · cases hI
      · next op _ =>
          cases hI
          refine .closes ?_ (Incoming.isOpen_onRead_failed _ op _)
          cases op with
          | header => rfl
          | body => rfl

end Station

/-! ## Several messages at once -/

theorem Outgoing.Orderly.sendAll {O : Outgoing T} (h : O.Orderly) (msgs : List (Message T)) :
    Orderly { O with posted := O.posted ++ msgs, sent := O.sent ++ msgs } := by
  induction msgs generalizing O with
  | nil => simpa only [List.append_nil] using h
  | cons msg msgs ih =>
      have hrest := ih (h.send msg)
      simpa only [List.append_assoc, List.singleton_append] using hrest

namespace Station

omit [StandardLayout T] in
/-- Each of the messages is passed to `Send`. -/
def sendAll (s : Station T) (msgs : List (Message T)) : Station T :=
  { s with posted := s.posted ++ msgs, sent := s.sent ++ msgs }

theorem Sound.sendAll {s : Station T} (h : s.Sound) (msgs : List (Message T)) :
    (s.sendAll msgs).Sound :=
  ⟨h.orderly.sendAll msgs, h.reencodes, h.up⟩

theorem Follows.sendAll [Inhabited T] {s : Station T} {reader : Reader T} (h : s.Follows reader)
    (msgs : List (Message T)) : (s.sendAll msgs).Follows reader := h

end Station

theorem Duplex.Linked.sendAll {D : Duplex T} (h : D.Linked) (msgs : Owner → List (Message T)) :
    Linked fun side ↦ (D side).sendAll (msgs side) :=
  ⟨fun side ↦ (h.ends side).sendAll (msgs side), h.arrived⟩

end SnekCpp.Networking
