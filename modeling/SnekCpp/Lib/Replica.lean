import Mathlib

/-!
# Replicas of a multiset

The owner of a multiset tells its replicas every change.  A replica may remove
an element on its own before the owner knows of it; the owner then does not tell
that replica.
-/

namespace SnekCpp.Lib

variable {α : Type*}

inductive Change (α : Type*)
  | add (a : α)
  | remove (a : α)
  /-- The replica starts again from a copy. -/
  | reset (s : Multiset α)

namespace Change

variable [DecidableEq α]

/-- Removing an element that is missing changes nothing. -/
def apply (s : Multiset α) : Change α → Multiset α
  | add a => a ::ₘ s
  | remove a => s.erase a
  | reset t => t

/-- After the change the element is there, even if it was removed just before. -/
def Brings (a : α) : Change α → Prop
  | add b => b = a
  | remove _ => False
  | reset _ => True

instance (a : α) (change : Change α) : Decidable (change.Brings a) := by
  cases change <;> unfold Brings <;> infer_instance

theorem apply_erase {s : Multiset α} {a : α} {change : Change α} (h : ¬ change.Brings a) :
    change.apply (s.erase a) = (change.apply s).erase a := by
  cases change with
  | add b => exact (Multiset.erase_cons_tail s h).symm
  | remove b => exact Multiset.erase_comm s a b
  | reset t => exact absurd trivial h

def applyAll (s : Multiset α) (changes : List (Change α)) : Multiset α :=
  changes.foldl apply s

@[simp] theorem applyAll_nil (s : Multiset α) : applyAll s [] = s := rfl

@[simp] theorem applyAll_cons (s : Multiset α) (change : Change α) (changes : List (Change α)) :
    applyAll s (change :: changes) = applyAll (change.apply s) changes := rfl

@[simp] theorem applyAll_append (s : Multiset α) (xs ys : List (Change α)) :
    applyAll s (xs ++ ys) = applyAll (applyAll s xs) ys :=
  List.foldl_append

theorem applyAll_erase {s : Multiset α} {a : α} {changes : List (Change α)}
    (h : ∀ change ∈ changes, ¬ change.Brings a) :
    applyAll (s.erase a) changes = (applyAll s changes).erase a := by
  induction changes generalizing s with
  | nil => rfl
  | cons change changes ih =>
      rw [applyAll_cons, apply_erase (h change (List.mem_cons_self ..)),
        ih fun c hc ↦ h c (List.mem_cons_of_mem _ hc), applyAll_cons]

end Change

variable [DecidableEq α] {owner removed replica : Multiset α} {pending : List (Change α)} {a : α}

/-- The replica, once it has heard what is `pending`, is the owner's multiset
less the elements it has `removed` and the owner does not know of. -/
def Lags (owner removed replica : Multiset α) (pending : List (Change α)) : Prop :=
  Change.applyAll replica pending = owner - removed

namespace Lags

theorem eq (h : Lags owner 0 replica []) : replica = owner := by
  simpa [Lags] using h

theorem of_eq (h : replica = owner) : Lags owner 0 replica [] := by
  simpa [Lags] using h

theorem hear {heard : List (Change α)} (h : Lags owner removed replica (heard ++ pending)) :
    Lags owner removed (Change.applyAll replica heard) pending := by
  rwa [Lags, Change.applyAll_append] at h

/-- The replica removes an element, and no change that is pending brings it back. -/
theorem remove (h : Lags owner removed replica pending)
    (hbrings : ∀ change ∈ pending, ¬ change.Brings a) :
    Lags owner (a ::ₘ removed) (replica.erase a) pending := by
  unfold Lags at *
  rw [Change.applyAll_erase hbrings, h]
  ext b
  rw [Multiset.count_sub]
  by_cases hb : b = a
  · subst hb
    rw [Multiset.count_erase_self, Multiset.count_sub, Multiset.count_cons_self]
    omega
  · rw [Multiset.count_erase_of_ne hb, Multiset.count_sub, Multiset.count_cons_of_ne hb]

/-- The owner learns that the replica has removed an element, and removes it. -/
theorem confirm (h : Lags owner (a ::ₘ removed) replica pending) :
    Lags (owner.erase a) removed replica pending := by
  rwa [Lags, Multiset.sub_cons] at h

theorem tellRemove (h : Lags owner removed replica pending) :
    Lags (owner.erase a) removed replica (pending ++ [.remove a]) := by
  unfold Lags at *
  rw [Change.applyAll_append, h, Change.applyAll_cons, Change.applyAll_nil]
  ext b
  rw [Multiset.count_sub]
  by_cases hb : b = a
  · subst hb
    rw [Change.apply, Multiset.count_erase_self, Multiset.count_erase_self, Multiset.count_sub]
    omega
  · rw [Change.apply, Multiset.count_erase_of_ne hb, Multiset.count_erase_of_ne hb,
      Multiset.count_sub]

/-- The owner adds an element that the replica has no removal of on its way. -/
theorem tellAdd (h : Lags owner removed replica pending) (hfresh : a ∉ removed) :
    Lags (a ::ₘ owner) removed replica (pending ++ [.add a]) := by
  unfold Lags at *
  rw [Change.applyAll_append, h, Change.applyAll_cons, Change.applyAll_nil]
  ext b
  rw [Change.apply, Multiset.count_sub]
  by_cases hb : b = a
  · subst hb
    have hnone := Multiset.count_eq_zero.mpr hfresh
    rw [Multiset.count_cons_self, Multiset.count_cons_self, Multiset.count_sub]
    omega
  · rw [Multiset.count_cons_of_ne hb, Multiset.count_cons_of_ne hb, Multiset.count_sub]

end Lags

end SnekCpp.Lib
