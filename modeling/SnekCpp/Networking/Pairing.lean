import SnekCpp.Networking.Duplex
import SnekCpp.Networking.Scramble

/-!
# The handshake of both ends

The server's end writes its clock and the client's end answers.  Whatever the
order of the completions and the pieces in which the bytes come, the server
accepts the answer, and both message loops start on empty streams.
-/

namespace SnekCpp.Networking

open Lib

variable {T : Type}

/-- One end of a connection until its message loop starts. -/
structure Newcomer (T : Type) where
  endpoint : Endpoint T
  /-- The bytes that have arrived and that no read has taken. -/
  wire : List UInt8 := []
  /-- What it has handed over and has not arrived at the other end. -/
  leaving : List UInt8 := []
  /-- `OnClientValidated` has been called. -/
  validated : Bool := false
  deriving DecidableEq

inductive NewcomerEvent
  /-- The write of the handshake value completes. -/
  | written (ec : Bool)
  /-- The read of eight bytes completes. -/
  | read (ec : Bool)
  deriving DecidableEq

namespace Newcomer

/-- `ConnectToClient`, at the time `now`. -/
def server [Inhabited T] (now : UInt64) : Newcomer T where
  endpoint := (Endpoint.create .server now).connectToClient
  leaving := StandardLayout.toBytes now

/-- The lambda of `ConnectToServer`. -/
def client [Inhabited T] : Newcomer T where
  endpoint := (Endpoint.create .client 0).readValidation

/-- After a read without error the server goes on to `ReadHeader` when it has
called `OnClientValidated`, and the client writes its answer. -/
def onValidationRead (N : Newcomer T) : Newcomer T :=
  let (endpoint, validated) := N.endpoint.onValidationRead false (N.wire.take 8)
  let N := { N with endpoint, wire := N.wire.drop 8 }
  if validated then { N with endpoint := endpoint.readHeader, validated }
  else if endpoint.m_ownerType = .client then
    { N with leaving := N.leaving ++ StandardLayout.toBytes endpoint.m_handshakeOut }
  else N

def step (N : Newcomer T) : NewcomerEvent → Option (Newcomer T)
  | .written ec =>
      if N.endpoint.writingValidation then
        some { N with endpoint := N.endpoint.onValidationWritten ec }
      else none
  | .read true =>
      if N.endpoint.readingValidation then
        some { N with endpoint := (N.endpoint.onValidationRead true []).1 }
      else none
  | .read false =>
      if N.endpoint.readingValidation ∧ 8 ≤ N.wire.length then some N.onValidationRead else none

end Newcomer

/-- Both ends. -/
structure Pairing (T : Type) where
  server : Newcomer T
  client : Newcomer T
  deriving DecidableEq

inductive PairingEvent
  | server (e : NewcomerEvent)
  | client (e : NewcomerEvent)
  /-- The next `n` bytes of the client arrive at the server. -/
  | arriveServer (n : ℕ)
  /-- The next `n` bytes of the server arrive at the client. -/
  | arriveClient (n : ℕ)
  deriving DecidableEq

/-- The next `n` bytes of one end arrive at the other. -/
def transfer (n : ℕ) (source target : Newcomer T) : Option (Newcomer T × Newcomer T) :=
  if 0 < n ∧ n ≤ source.leaving.length then
    some ({ source with leaving := source.leaving.drop n },
      { target with wire := target.wire ++ source.leaving.take n })
  else none

namespace Pairing

def start [Inhabited T] (now : UInt64) : Pairing T := ⟨.server now, .client⟩

def step (P : Pairing T) : PairingEvent → Option (Pairing T)
  | .server e => (P.server.step e).map fun server ↦ { P with server }
  | .client e => (P.client.step e).map fun client ↦ { P with client }
  | .arriveServer n =>
      (transfer n P.client P.server).map fun (client, server) ↦ { server, client }
  | .arriveClient n =>
      (transfer n P.server P.client).map fun (server, client) ↦ { server, client }

/-- No operation fails. -/
def Succeeds (_P : Pairing T) : PairingEvent → Prop
  | .server e | .client e => e ≠ .written true ∧ e ≠ .read true
  | _ => True

instance (P : Pairing T) (e : PairingEvent) : Decidable (Succeeds P e) := by
  rcases e with e | e | n | n <;> unfold Succeeds <;> infer_instance

/-- The server has accepted the client, no byte is left of the handshake, and both
message loops are about to read their first header. -/
structure Paired [Inhabited T] (P : Pairing T) : Prop where
  validated : P.server.validated = true
  server : P.server.endpoint.toConnection = Station.fresh.connection
  client : P.client.endpoint.toConnection = Station.fresh.connection
  streams : P.server.wire = [] ∧ P.server.leaving = [] ∧ P.client.wire = [] ∧ P.client.leaving = []
  quiet : ∀ N ∈ [P.server, P.client],
    N.endpoint.writingValidation = false ∧ N.endpoint.readingValidation = false

/-! ## The three phases -/

section Phases

variable (T) [Inhabited T] (now : UInt64)

/-- The server's end while it waits for the answer. -/
def waiting (writing : Bool) : Endpoint T :=
  { (Endpoint.create .server now : Endpoint T) with writingValidation := writing, readingValidation := true }

/-- The server's end once the answer has been accepted. -/
def accepted (writing : Bool) : Endpoint T :=
  { (Endpoint.create .server now : Endpoint T) with
    toConnection := Station.fresh.connection
    m_handshakeIn := Endpoint.scramble now
    writingValidation := writing }

/-- The client's end once it has read the challenge. -/
def answering (writing : Bool) : Endpoint T :=
  { (Endpoint.create .client 0 : Endpoint T) with
    toConnection :=
      if writing then { m_msgTemporaryIn := default } else Station.fresh.connection
    m_handshakeIn := now
    m_handshakeOut := Endpoint.scramble now
    writingValidation := writing }

@[simp] theorem written_waiting :
    (waiting T now true).onValidationWritten false = waiting T now false := rfl

@[simp] theorem written_accepted :
    (accepted T now true).onValidationWritten false = accepted T now false := rfl

@[simp] theorem written_answering :
    (answering T now true).onValidationWritten false = answering T now false := rfl

@[simp] theorem writing_waiting (writing : Bool) :
    (waiting T now writing).writingValidation = writing := rfl

@[simp] theorem reading_waiting (writing : Bool) :
    (waiting T now writing).readingValidation = true := rfl

@[simp] theorem writing_accepted (writing : Bool) :
    (accepted T now writing).writingValidation = writing := rfl

@[simp] theorem reading_accepted (writing : Bool) :
    (accepted T now writing).readingValidation = false := rfl

@[simp] theorem writing_answering (writing : Bool) :
    (answering T now writing).writingValidation = writing := rfl

@[simp] theorem reading_answering (writing : Bool) :
    (answering T now writing).readingValidation = false := rfl

variable {T}

/-- The challenge is on its way, then the answer, then neither. -/
inductive Phase : Pairing T → Prop
  | challenged {writing : Bool} {here coming : List UInt8}
      (h : here ++ coming = StandardLayout.toBytes now) :
      Phase ⟨{ endpoint := waiting T now writing, leaving := coming },
        { endpoint := Endpoint.readValidation (.create .client 0), wire := here }⟩
  | answered {writing writing' : Bool} {here coming : List UInt8}
      (h : here ++ coming = StandardLayout.toBytes (Endpoint.scramble now)) :
      Phase ⟨{ endpoint := waiting T now writing, wire := here },
        { endpoint := answering T now writing', leaving := coming }⟩
  | accepted {writing writing' : Bool} :
      Phase ⟨{ endpoint := accepted T now writing, validated := true },
        { endpoint := answering T now writing' }⟩

end Phases

/-- The bytes on their way and the operations that are outstanding.  The read of the
challenge counts for the answer that it starts. -/
def load (P : Pairing T) : ℕ :=
  P.server.leaving.length + P.client.leaving.length + P.server.endpoint.writingValidation.toNat +
    P.client.endpoint.writingValidation.toNat + P.server.endpoint.readingValidation.toNat +
      10 * P.client.endpoint.readingValidation.toNat

section Steps

variable [Inhabited T] {now : UInt64} {P P' : Pairing T} {e : PairingEvent}

theorem phase_start : Phase now (start now : Pairing T) :=
  @Phase.challenged T _ now true [] _ rfl

/-- The client reads the challenge and answers. -/
theorem onValidationRead_client :
    Newcomer.onValidationRead
        { endpoint := Endpoint.readValidation (.create .client 0)
          wire := StandardLayout.toBytes now : Newcomer T } =
      { endpoint := answering T now true
        leaving := StandardLayout.toBytes (Endpoint.scramble now) } := by
  have hlen : (StandardLayout.toBytes now).length = 8 := StandardLayout.length_toBytes now
  have htake : (StandardLayout.toBytes now).take 8 = StandardLayout.toBytes now :=
    List.take_of_length_le hlen.le
  have hdrop : (StandardLayout.toBytes now).drop 8 = [] := List.drop_of_length_le hlen.le
  simp only [Newcomer.onValidationRead, htake, hdrop]
  simp [Endpoint.onValidationRead, Endpoint.readValidation, Endpoint.create, answering,
    Endpoint.writeValidation]

/-- The server reads the answer and accepts it. -/
theorem onValidationRead_server {writing : Bool} :
    Newcomer.onValidationRead
        { endpoint := waiting T now writing
          wire := StandardLayout.toBytes (Endpoint.scramble now) : Newcomer T } =
      { endpoint := accepted T now writing, validated := true } := by
  have hlen : (StandardLayout.toBytes (Endpoint.scramble now)).length = 8 :=
    StandardLayout.length_toBytes _
  have htake := List.take_of_length_le hlen.le
  have hdrop := List.drop_of_length_le hlen.le
  simp only [Newcomer.onValidationRead, htake, hdrop]
  simp [Endpoint.onValidationRead, waiting, Endpoint.create, accepted, Endpoint.readHeader]
  rfl

omit [Inhabited T] in
theorem transfer_cases {n : ℕ} {source target source' target' : Newcomer T}
    (h : transfer n source target = some (source', target')) :
    ∃ moved rest, 0 < moved.length ∧ source.leaving = moved ++ rest ∧
      source' = { source with leaving := rest } ∧
        target' = { target with wire := target.wire ++ moved } := by
  obtain ⟨⟨hpos, hle⟩, h⟩ := Option.ite_none_right_eq_some.mp h
  cases h
  refine ⟨source.leaving.take n, source.leaving.drop n, ?_, ?_, rfl, rfl⟩
  · rw [List.length_take]
    omega
  · exact (List.take_append_drop n source.leaving).symm

/-- Eight bytes of a value that has come in part are all of it. -/
theorem eq_of_arrived {here coming : List UInt8} {value : UInt64}
    (h : here ++ coming = StandardLayout.toBytes value) (hlen : 8 ≤ here.length) :
    here = StandardLayout.toBytes value ∧ coming = [] := by
  have htotal := congrArg List.length h
  rw [List.length_append, StandardLayout.length_toBytes] at htotal
  have hsize : StandardLayout.size UInt64 = 8 := rfl
  have hcoming : coming = [] := List.eq_nil_of_length_eq_zero (by omega)
  rw [hcoming, List.append_nil] at h
  exact ⟨h, hcoming⟩

/-- What one step of an end that does not fail is. -/
inductive NewcomerMoves (N : Newcomer T) : NewcomerEvent → Newcomer T → Prop
  | written (hwriting : N.endpoint.writingValidation = true) :
      NewcomerMoves N (.written false) { N with endpoint := N.endpoint.onValidationWritten false }
  | read (hreading : N.endpoint.readingValidation = true) (hlen : 8 ≤ N.wire.length) :
      NewcomerMoves N (.read false) N.onValidationRead

omit [Inhabited T] in
theorem newcomer_cases {N N' : Newcomer T} {e : NewcomerEvent} (hwritten : e ≠ .written true)
    (hread : e ≠ .read true) (h : N.step e = some N') : NewcomerMoves N e N' := by
  cases e with
  | written ec =>
      obtain ⟨hwriting, h⟩ := Option.ite_none_right_eq_some.mp h
      cases h
      cases ec with
      | false => exact .written hwriting
      | true => exact absurd rfl hwritten
  | read ec =>
      cases ec with
      | false =>
          obtain ⟨⟨hreading, hlen⟩, h⟩ := Option.ite_none_right_eq_some.mp h
          cases h
          exact .read hreading hlen
      | true => exact absurd rfl hread

namespace Phase

theorem server (h : Phase now P) {e : NewcomerEvent} {N : Newcomer T}
    (hmoves : NewcomerMoves P.server e N) :
    Phase now { P with server := N } ∧ load { P with server := N } < P.load := by
  cases h with
  | @challenged writing here coming h =>
      cases hmoves with
      | written hwriting =>
          obtain rfl : writing = true := hwriting
          simp only [written_waiting]
          exact ⟨.challenged h, by simp [load]⟩
      | read _ hlen => exact absurd hlen (by simp)
  | @answered writing writing' here coming h =>
      cases hmoves with
      | written hwriting =>
          obtain rfl : writing = true := hwriting
          simp only [written_waiting]
          exact ⟨.answered h, by simp [load]⟩
      | read _ hlen =>
          obtain ⟨rfl, rfl⟩ := eq_of_arrived h hlen
          rw [onValidationRead_server]
          exact ⟨.accepted, by simp [load]⟩
  | @accepted writing writing' =>
      cases hmoves with
      | written hwriting =>
          obtain rfl : writing = true := hwriting
          simp only [written_accepted]
          exact ⟨.accepted, by simp [load]⟩
      | read _ hlen => exact absurd hlen (by simp)

theorem client (h : Phase now P) {e : NewcomerEvent} {N : Newcomer T}
    (hmoves : NewcomerMoves P.client e N) :
    Phase now { P with client := N } ∧ load { P with client := N } < P.load := by
  cases h with
  | @challenged writing here coming h =>
      cases hmoves with
      | written hwriting => cases hwriting
      | read _ hlen =>
          obtain ⟨rfl, rfl⟩ := eq_of_arrived h hlen
          rw [onValidationRead_client]
          have hanswer : (StandardLayout.toBytes (Endpoint.scramble now)).length = 8 :=
            StandardLayout.length_toBytes _
          refine ⟨.answered (List.nil_append _), ?_⟩
          simp [load, hanswer, Endpoint.create, Endpoint.readValidation]
          omega
  | @answered writing writing' here coming h =>
      cases hmoves with
      | written hwriting =>
          obtain rfl : writing' = true := hwriting
          simp only [written_answering]
          exact ⟨.answered h, by simp [load]⟩
      | read hreading => cases hreading
  | @accepted writing writing' =>
      cases hmoves with
      | written hwriting =>
          obtain rfl : writing' = true := hwriting
          simp only [written_answering]
          exact ⟨.accepted, by simp [load]⟩
      | read hreading => cases hreading

theorem step (h : Phase now P) (hsucceeds : Succeeds P e) (hstep : P.step e = some P') :
    Phase now P' ∧ P'.load < P.load := by
  cases e with
  | server e =>
      obtain ⟨N, hN, rfl⟩ := Option.map_eq_some_iff.mp hstep
      exact h.server (newcomer_cases hsucceeds.1 hsucceeds.2 hN)
  | client e =>
      obtain ⟨N, hN, rfl⟩ := Option.map_eq_some_iff.mp hstep
      exact h.client (newcomer_cases hsucceeds.1 hsucceeds.2 hN)
  | arriveServer n =>
      obtain ⟨⟨client, server⟩, hmoved, rfl⟩ := Option.map_eq_some_iff.mp hstep
      obtain ⟨moved, rest, hpos, hleaving, rfl, rfl⟩ := transfer_cases hmoved
      cases h with
      | challenged => cases moved <;> simp at hpos hleaving
      | @answered writing writing' here coming h =>
          simp only at hleaving
          subst hleaving
          rw [← List.append_assoc] at h
          exact ⟨.answered h, by simp [load]; omega⟩
      | accepted => cases moved <;> simp at hpos hleaving
  | arriveClient n =>
      obtain ⟨⟨server, client⟩, hmoved, rfl⟩ := Option.map_eq_some_iff.mp hstep
      obtain ⟨moved, rest, hpos, hleaving, rfl, rfl⟩ := transfer_cases hmoved
      cases h with
      | @challenged writing here coming h =>
          simp only at hleaving
          subst hleaving
          rw [← List.append_assoc] at h
          exact ⟨.challenged h, by simp [load]; omega⟩
      | answered => cases moved <;> simp at hpos hleaving
      | accepted => cases moved <;> simp at hpos hleaving

/-- As long as the ends have not been paired there is something left to be done. -/
theorem paired (h : Phase now P) (hhalted : ∀ e, Succeeds P e → P.step e = none) : P.Paired := by
  have hsize : ∀ value : UInt64, (StandardLayout.toBytes value).length = 8 :=
    StandardLayout.length_toBytes
  cases h with
  | @challenged writing here coming h =>
      exfalso
      cases coming with
      | nil =>
          rw [List.append_nil] at h
          have hread := hhalted (.client (.read false)) ⟨by simp, by simp⟩
          simp [Pairing.step, Newcomer.step, Endpoint.readValidation, h, hsize] at hread
      | cons byte coming =>
          have harrive := hhalted (.arriveClient 1) trivial
          simp [Pairing.step, transfer] at harrive
  | @answered writing writing' here coming h =>
      exfalso
      cases coming with
      | nil =>
          rw [List.append_nil] at h
          have hread := hhalted (.server (.read false)) ⟨by simp, by simp⟩
          simp [Pairing.step, Newcomer.step, h, hsize] at hread
      | cons byte coming =>
          have harrive := hhalted (.arriveServer 1) trivial
          simp [Pairing.step, transfer] at harrive
  | @accepted writing writing' =>
      have hserver := hhalted (.server (.written false)) ⟨by simp, by simp⟩
      have hclient := hhalted (.client (.written false)) ⟨by simp, by simp⟩
      cases writing with
      | true => simp [Pairing.step, Newcomer.step] at hserver
      | false =>
          cases writing' with
          | true => simp [Pairing.step, Newcomer.step] at hclient
          | false => exact ⟨rfl, rfl, rfl, ⟨rfl, rfl, rfl, rfl⟩, by simp⟩

end Phase

end Steps

/-- Whatever the clock says, and in any order of arrivals and completions: if no operation
fails the server accepts the client, and both come to their message loops. -/
theorem paired_inevitable [Inhabited T] (now : UInt64) :
    Inevitably (guarded step Succeeds) Paired (start now : Pairing T) := by
  apply Inevitably.of_measure (Phase now) load
  · intro P e P' h hstep
    obtain ⟨hsucceeds, hstep⟩ := Option.ite_none_right_eq_some.mp hstep
    exact h.step hsucceeds hstep
  · intro P h hhalted
    refine h.paired fun e hsucceeds ↦ ?_
    have hnone := hhalted e
    rwa [guarded, if_pos hsucceeds] at hnone
  · exact phase_start

end Pairing

end SnekCpp.Networking
