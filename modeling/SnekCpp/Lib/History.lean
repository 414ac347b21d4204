import Mathlib

/-!
# Histories

A history lists what has happened, oldest first.  An entry may need something
of the entries before it, and a reader may get a part of it only.
-/

namespace SnekCpp.Lib

variable {α : Type*}

/-- Every entry finds what it needs in its past. -/
def Preceded (needs : α → List α → Prop) (history : List α) : Prop :=
  ∀ past entry future, history = past ++ entry :: future → needs entry past

namespace Preceded

variable {needs : α → List α → Prop} {history fresh : List α}

theorem nil : Preceded needs [] := by
  intro past entry future h
  simp at h

/-- Fresh entries that find what they need in any past that has the history in front. -/
theorem append (h : Preceded needs history)
    (hfresh : ∀ entry ∈ fresh, ∀ past, history <+: past → needs entry past) :
    Preceded needs (history ++ fresh) := by
  intro past entry future heq
  rcases List.append_eq_append_iff.mp heq with ⟨middle, hpast, hfuture⟩ | ⟨middle, hhistory, hrest⟩
  · have hentry : entry ∈ fresh := by
      rw [hfuture]
      exact List.mem_append_right _ (List.mem_cons_self ..)
    exact hfresh entry hentry past ⟨middle, hpast.symm⟩
  · cases middle with
    | nil =>
        rw [List.append_nil] at hhistory
        have hentry : entry ∈ fresh := by
          rw [← show entry :: future = fresh from hrest]
          exact List.mem_cons_self ..
        exact hfresh entry hentry past ⟨[], by rw [List.append_nil, hhistory]⟩
    | cons first middle =>
        obtain ⟨rfl, -⟩ := List.cons.inj (show entry :: future = first :: (middle ++ fresh) from hrest)
        exact h past entry middle hhistory

theorem concat (h : Preceded needs history) {entry : α} (hentry : needs entry history) :
    Preceded needs (history ++ [entry]) := by
  intro past other future heq
  rcases List.eq_nil_or_concat future with rfl | ⟨rest, last, rfl⟩
  · obtain ⟨rfl, hlast⟩ := List.append_inj' heq rfl
    obtain ⟨rfl, -⟩ := List.cons.inj hlast
    exact hentry
  · have heq' : history ++ [entry] = past ++ other :: rest ++ [last] := by
      rw [heq]
      simp
    exact h past other rest (List.append_inj' heq' rfl).1

end Preceded

/-! ## Windows of a growing history -/

/-- What a reader has got of a history: a block of it, which reaches up to now
while the reader is subscribed. -/
structure Window (subscribed : Prop) (history got : List α) : Prop where
  block : got <:+: history
  recent : subscribed → got <:+ history

namespace Window

variable {subscribed subscribed' : Prop} {history got : List α}

theorem empty (history : List α) : Window subscribed history [] :=
  ⟨List.nil_infix, fun _ ↦ List.nil_suffix⟩

/-- A subscribed reader gets what is added. -/
theorem deliver (h : Window subscribed history got) (hsubscribed : subscribed) (fresh : List α) :
    Window subscribed (history ++ fresh) (got ++ fresh) := by
  obtain ⟨missed, hmissed⟩ := h.recent hsubscribed
  have hrecent : got ++ fresh <:+ history ++ fresh :=
    ⟨missed, by rw [← List.append_assoc, hmissed]⟩
  exact ⟨hrecent.isInfix, fun _ ↦ hrecent⟩

/-- A reader that is not subscribed gets nothing. -/
theorem miss (h : Window subscribed history got) (hleft : ¬ subscribed') (fresh : List α) :
    Window subscribed' (history ++ fresh) got :=
  ⟨List.infix_append_of_infix_left h.block, fun hsubscribed ↦ absurd hsubscribed hleft⟩

theorem mono (h : Window subscribed history got) (hstays : subscribed' → subscribed) :
    Window subscribed' history got :=
  ⟨h.block, fun hsubscribed ↦ h.recent (hstays hsubscribed)⟩

end Window

end SnekCpp.Lib
