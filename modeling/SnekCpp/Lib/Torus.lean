import Mathlib

/-!
# Walks on a torus

A torus of `m` by `n` cells and the walks of unit steps on it.  With even sides
every step changes the parity of a cell, so a walk of odd length does not come
back to its start, and one of two steps only does if it turns around.
-/

namespace SnekCpp.Lib

/-- The four unit steps. -/
inductive Heading
  | up
  | right
  | down
  | left
  deriving DecidableEq

namespace Heading

def opposite : Heading → Heading
  | up => down
  | right => left
  | down => up
  | left => right

@[simp] theorem opposite_opposite (a : Heading) : a.opposite.opposite = a := by
  cases a <;> rfl

variable {m n : ℕ}

/-- The displacement of a step. -/
def vector (m n : ℕ) : Heading → ZMod m × ZMod n
  | up => (0, -1)
  | right => (1, 0)
  | down => (0, 1)
  | left => (-1, 0)

theorem vector_opposite (a : Heading) : a.opposite.vector m n = -a.vector m n := by
  cases a <;> simp [opposite, vector]

theorem one_ne_neg_one (hm : 2 < m) : (1 : ZMod m) ≠ -1 := by
  intro heq
  have hzero : ((2 : ℕ) : ZMod m) = 0 := by
    rw [Nat.cast_two, ← one_add_one_eq_two]
    exact add_eq_zero_iff_eq_neg.mpr heq
  have hdvd : m ∣ 2 := (ZMod.natCast_eq_zero_iff 2 m).mp hzero
  exact absurd (Nat.le_of_dvd (by decide) hdvd) (by omega)

theorem vector_injective (hm : 2 < m) (hn : 2 < n) : Function.Injective (vector m n) := by
  have : Fact (1 < m) := ⟨by omega⟩
  have : Fact (1 < n) := ⟨by omega⟩
  have hcols := one_ne_neg_one hm
  have hrows := one_ne_neg_one hn
  intro a b h
  cases a <;> cases b <;> simp [vector, hcols, hcols.symm, hrows, hrows.symm] at h ⊢

/-- Two steps come back to the start only if one undoes the other. -/
theorem vector_add_ne_zero (hm : 2 < m) (hn : 2 < n) {a b : Heading} (h : a ≠ b.opposite) :
    a.vector m n + b.vector m n ≠ 0 := by
  intro hzero
  apply h
  apply vector_injective hm hn
  rw [vector_opposite]
  exact add_eq_zero_iff_eq_neg.mp hzero

/-- The parity of a cell, where both sides are even. -/
def parity (hm : 2 ∣ m) (hn : 2 ∣ n) : ZMod m × ZMod n →+ ZMod 2 :=
  (ZMod.castHom hm (ZMod 2)).toAddMonoidHom.coprod (ZMod.castHom hn (ZMod 2)).toAddMonoidHom

theorem parity_apply (hm : 2 ∣ m) (hn : 2 ∣ n) (cell : ZMod m × ZMod n) :
    parity hm hn cell = ZMod.castHom hm (ZMod 2) cell.1 + ZMod.castHom hn (ZMod 2) cell.2 := rfl

theorem parity_vector (hm : 2 ∣ m) (hn : 2 ∣ n) (a : Heading) :
    parity hm hn (a.vector m n) = 1 := by
  rw [parity_apply]
  cases a <;> simp only [vector, map_zero, map_neg, map_one] <;> rfl

end Heading

variable {m n : ℕ}

/-- How far a walk leads. -/
def displacement (m n : ℕ) (walk : List Heading) : ZMod m × ZMod n :=
  (walk.map (Heading.vector m n)).sum

@[simp] theorem displacement_nil : displacement m n [] = 0 := rfl

@[simp] theorem displacement_cons (a : Heading) (walk : List Heading) :
    displacement m n (a :: walk) = a.vector m n + displacement m n walk := by
  simp [displacement]

theorem parity_displacement (hm : 2 ∣ m) (hn : 2 ∣ n) (walk : List Heading) :
    Heading.parity hm hn (displacement m n walk) = walk.length := by
  induction walk with
  | nil => simp
  | cons a walk ih =>
      rw [displacement_cons, map_add, Heading.parity_vector, ih, List.length_cons, Nat.cast_add,
        Nat.cast_one, add_comm]

/-- A walk of odd length does not come back. -/
theorem displacement_ne_zero_of_odd (hm : 2 ∣ m) (hn : 2 ∣ n) {walk : List Heading}
    (h : Odd walk.length) : displacement m n walk ≠ 0 := by
  intro hzero
  have hparity := parity_displacement hm hn walk
  rw [hzero, map_zero] at hparity
  have heven : Even walk.length := (ZMod.natCast_eq_zero_iff_even).mp hparity.symm
  exact (Nat.not_even_iff_odd.mpr h) heven

/-- No step of the walk undoes the one before it. -/
def NonReversing (walk : List Heading) : Prop :=
  walk.IsChain fun a b ↦ a ≠ b.opposite

instance (walk : List Heading) : Decidable (NonReversing walk) :=
  inferInstanceAs (Decidable (List.IsChain _ _))

/-- The shortest walk that comes back without turning around has four steps. -/
theorem displacement_ne_zero_of_lt_four (hm : 2 ∣ m) (hn : 2 ∣ n) (hm' : 2 < m) (hn' : 2 < n)
    {walk : List Heading} (h : NonReversing walk) (hne : walk ≠ []) (hlen : walk.length < 4) :
    displacement m n walk ≠ 0 := by
  match walk, h, hne, hlen with
  | [a], _, _, _ => exact displacement_ne_zero_of_odd hm hn ⟨0, rfl⟩
  | [a, b], h, _, _ =>
      have hturn : a ≠ b.opposite := (List.isChain_cons_cons.mp h).1
      simpa using Heading.vector_add_ne_zero hm' hn' hturn
  | [a, b, c], _, _, _ => exact displacement_ne_zero_of_odd hm hn ⟨1, rfl⟩

end SnekCpp.Lib
