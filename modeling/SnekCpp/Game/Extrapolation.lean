import SnekCpp.Game.Board
import SnekCpp.Game.Powerups
import SnekCpp.Snek.Extrapolation

/-!
# Between two reports

A client moves its copies of the other snakes on its own until it hears of them
again.  No copy has food, so each of them keeps up with its original.
-/

namespace SnekCpp

open Lib Networking

/-- The client's copies of the other players have no food, and one that has just
taken a report keeps up with the player that was reported. -/
structure SnakeClient.Extrapolates (platform : Platform) (client : SnakeClient) : Prop where
  foodless : Foodless client.ownID client.players
  keepsUp : ∀ (sender : SnakeClient) (player : Player) (grid : Grid) (client' : SnakeClient)
    (copy : Player), sender.players.lookup sender.ownID = some player →
      sender.ownID ≠ client.ownID → player.alive = true → player.tail ≠ [] →
        player.grid = some grid → Packet.FitsSizeT platform player.tail.length →
          client.handleMessage platform (sender.updateServer platform).2 = .ok client' →
            client'.players.lookup sender.ownID = some copy → copy.alive = true →
              copy.grid = some grid → Player.KeepsUp player.tail.length player copy

theorem SnakeClient.extrapolates_of_foodless {platform : Platform} {client : SnakeClient}
    (h : Foodless client.ownID client.players) : client.Extrapolates platform := by
  refine ⟨h, fun sender player grid client' copy hplayer hother halive htail hgrid hsize hhandle
    hcopy halive' hgrid' ↦ ?_⟩
  rw [updateServer_of_lookup hplayer, handleMessage_eq,
    Packet.decode_updatePlayerMsg_of_fits hsize] at hhandle
  split at hhandle
  · cases hhandle
    obtain ⟨looked, players, hlooked⟩ : ∃ looked players,
        client.players.subscript sender.ownID default = (looked, players) := ⟨_, _, rfl⟩
    have hreported : (client.handlePacket
        (.updatePlayer sender.ownID player.direction player.tail)).players.lookup sender.ownID =
          some copy := hcopy
    simp only [handlePacket, hlooked, AList.lookup_insert, Option.some.injEq] at hreported
    subst hreported
    exact @Player.Shadows.keepsUp grid _ _ _ ⟨⟨halive, halive'⟩, ⟨hgrid, hgrid'⟩, rfl,
      (h.subscript hlooked).1 hother, List.length_pos_iff.mpr htail, le_rfl, List.take_length.symm⟩
  · cases hhandle

namespace System

/-- On every client only its own player has food, and nobody has any before the
client knows its id. -/
def Foodless (S : System) : Prop :=
  ∀ r own, (S.peers r).client.clientID = -1 ∨ own = idOf r →
    SnekCpp.Foodless own (S.peers r).client.players

namespace Foodless

variable {platform : Platform} {depth : ℕ} {S S' : System} {r : ConnRef}

theorem setPeer (h : S.Foodless) {peer : Peer}
    (hpeer : ∀ own, peer.client.clientID = -1 ∨ own = idOf r →
      SnekCpp.Foodless own peer.client.players) : (S.setPeer r peer).Foodless :=
  @System.forall_setPeer S r peer (fun r peer ↦ ∀ own, peer.client.clientID = -1 ∨ own = idOf r →
    SnekCpp.Foodless own peer.client.players) hpeer fun r' _ ↦ h r'

theorem handle (h : S.Foodless) (hknow : S.KnowIDs) (htells : TellsIDs platform S (.handle r))
    {msg : Msg} {rest : List Msg} {client : SnakeClient}
    (hqueue : (S.peers r).m_qMessagesIn = msg :: rest)
    (hhandle : (S.peers r).client.handleMessage platform msg = .ok client) (own : UInt32)
    (hown : client.clientID = -1 ∨ own = idOf r) : SnekCpp.Foodless own client.players := by
  obtain ⟨packet, hdecode, rfl⟩ := SnakeClient.handleMessage_cases hhandle
  have hpacket := htells.packet hqueue hdecode
  apply (h r own (hown.imp_left fun hnone ↦ ?_)).handlePacket
  cases packet with
  | serverValidation clientID powerups roster =>
      rcases (hknow r).clientID with hID | hID
      · exact hID
      · -- A snapshot that comes again brings the same id.
        rw [show clientID = idOf r from hpacket, ← hID] at hnone
        exact hnone
  | _ => exact hnone

/-- What a client that knows its id does on its own. -/
theorem plays (h : S.Foodless) (hknow : S.KnowIDs) (hphase : (S.peers r).phase ≠ .connecting)
    {client : SnakeClient} (hplays : (S.peers r).client.Plays client)
    (hfoodless : SnekCpp.Foodless (S.peers r).client.ownID (S.peers r).client.players →
      SnekCpp.Foodless (S.peers r).client.ownID client.players) (own : UInt32)
    (hown : client.clientID = -1 ∨ own = idOf r) : SnekCpp.Foodless own client.players := by
  have hID : (S.peers r).client.ownID = idOf r := (hknow r).clientID_eq hphase
  have hsame : own = idOf r := by
    refine hown.resolve_left fun hnone ↦ ?_
    have hplaying := (hknow r).playing hphase
    rw [← hplays.clientID, hnone] at hplaying
    exact absurd hplaying (by decide)
  rw [hsame, ← hID]
  apply hfoodless
  rw [hID]
  exact h r _ (.inr rfl)

theorem step (h : S.Foodless) (hknow : S.KnowIDs) {e : Event} (htells : TellsIDs platform S e)
    (hstep : S.step platform depth e = some S') : S'.Foodless := by
  cases moves_of_step hstep with
  | accept => exact h
  | validate => simpa [Foodless] using h
  | close => exact h
  | read => exact h
  | update => simpa [Foodless] using h
  | hangUp r => exact h.setPeer (h r)
  | @receive r => exact h.setPeer (h r)
  | handle hqueue _ hhandle => exact h.setPeer (h.handle hknow htells hqueue hhandle)
  | @enterGame r => exact h.setPeer (h r)
  | @frame r client msg hphase hframe =>
      apply h.setPeer
      rw [Peer.client_sendAny]
      exact h.plays hknow (by simp [hphase]) (.frame hframe) fun hown ↦ hown.frame hframe
  | @updateServer r client msg hphase hupdate =>
      apply h.setPeer
      rw [Peer.client_send]
      exact h.plays hknow (by simp [hphase]) (.updateServer hupdate) fun hown ↦
        hown.updateServer hupdate
  | @key r key press client msg hphase hkey =>
      apply h.setPeer
      rw [Peer.client_sendAny]
      exact h.plays hknow (by simp [hphase]) (.keyCallback hkey) fun hown ↦ hown.keyCallback hkey

end Foodless

end System

/-- Every client extrapolates in every run in which no client is told an id that
is not its own. -/
theorem extrapolates_of_reaches {platform : Platform} {depth : ℕ} {S : System}
    (h : Reaches (System.step platform depth) (TellsIDs platform) {} S) (r : ConnRef) :
    (S.peers r).client.Extrapolates platform := by
  have hinvariant : S.KnowIDs ∧ S.Foodless := by
    refine h.invariant (I := fun S ↦ S.KnowIDs ∧ S.Foodless)
      ⟨.start, fun _ own _ ↦ .empty own⟩ ?_
    rintro T e U ⟨hknow, hfoodless⟩ htells hstep
    exact ⟨hknow.step htells hstep, hfoodless.step hknow htells hstep⟩
  apply SnakeClient.extrapolates_of_foodless
  exact hinvariant.2 r _ (hinvariant.1 r).clientID

/-- The second client has heard of the first one's move, and then of its start with
the body of that report. -/
theorem extrapolates_firstMoves :
    ∃ S, run (guarded (System.step .x64 8) (TellsIDs .x64)) {}
        (firstMoves ++ [.key 0 .p true, .read 0, .update .plain, .receive 1, .handle 1]) = some S ∧
      (S.peers 1).client.Extrapolates .x64 := by
  obtain ⟨S, hrun⟩ : ∃ S, run (guarded (System.step .x64 8) (TellsIDs .x64)) {}
      (firstMoves ++ [.key 0 .p true, .read 0, .update .plain, .receive 1, .handle 1]) = some S :=
    Option.isSome_iff_exists.mp (by decide +kernel)
  exact ⟨S, hrun, extrapolates_of_reaches (reaches_of_guarded hrun) 1⟩

/-- Six clients take the spawnpoints and leave, and the next two start in the
corner.  The first of them reports the cell (0, 28) and presses P twice: the bytes
of the report follow both relayed messages, and the second client, which has just
eaten, reads a `ServerValidation` of 28 bytes out of them. -/
def strayValidation : List Event :=
  let env := Env.placing ⟨1, 0⟩
  List.flatten [(List.range 6).flatMap fun r ↦ [.accept, .validate r env, .close r],
    [.accept, .accept, .validate 6 env, .validate 7 env], listen 6 3, listen 7 3,
    [.enterGame 6, .frame 6, .updateServer 6, .frame 6, .updateServer 6],
    List.replicate 2 (.key 6 .p true), List.replicate 4 (.read 6), List.replicate 4 (.update env),
    [.enterGame 7, .key 7 .d true, .frame 7], listen 7 4]

/-- The second client takes the id 28, and the player that has eaten is no longer its own. -/
theorem not_extrapolates_strayValidation :
    ¬ ∀ S, Reaches (System.step .win32 8) (fun _ _ ↦ True) {} S →
      ∀ r, (S.peers r).client.Extrapolates .win32 := by
  intro hextrapolates
  obtain ⟨S, hreaches, hbad⟩ := @exists_reaches_of_run _ _ (System.step .win32 8) {}
    strayValidation (fun S ↦ decide ((S.peers 7).client.ownID = 28) &&
      ((S.peers 7).client.players.lookup 10007).any fun player : Player ↦ decide (player.food = 1))
    (by decide +kernel)
  obtain ⟨hown, hfed⟩ := Bool.and_eq_true_iff.mp hbad
  obtain ⟨player, hplayer, hfood⟩ := (Option.any_eq_true _ _).mp hfed
  have hnone := (hextrapolates S hreaches 7).foodless 10007 player hplayer (by
    rw [of_decide_eq_true hown]
    decide)
  rw [of_decide_eq_true hfood] at hnone
  exact absurd hnone (by decide)

end SnekCpp
