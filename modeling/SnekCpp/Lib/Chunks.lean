import Mathlib

/-!
# Reads of exact sizes

A reader of a stream that always knows how many items it needs next.  What it
makes of the stream does not depend on how the stream was cut into pieces.
-/

namespace SnekCpp.Lib

/-- A reader that waits for `need` items and goes on with them.  It has stopped
where it needs none. -/
structure ExactReader (σ β : Type*) where
  need : σ → ℕ
  take : σ → List β → σ

namespace ExactReader

variable {σ β : Type*} (reader : ExactReader σ β)

/-- The next read can complete. -/
def Ready (s : σ) (pending : List β) : Prop :=
  0 < reader.need s ∧ reader.need s ≤ pending.length

instance (s : σ) (pending : List β) : Decidable (reader.Ready s pending) :=
  inferInstanceAs (Decidable (_ ∧ _))

/-- All the reads that complete with the items that are there. -/
def drain (s : σ) (pending : List β) : σ × List β :=
  if _h : reader.Ready s pending then
    drain (reader.take s (pending.take (reader.need s))) (pending.drop (reader.need s))
  else (s, pending)
termination_by pending.length
decreasing_by
  obtain ⟨hpos, hle⟩ := ‹reader.Ready s pending›
  rw [List.length_drop]
  omega

variable {reader} {s : σ} {pending : List β}

theorem drain_of_ready (h : reader.Ready s pending) :
    reader.drain s pending =
      reader.drain (reader.take s (pending.take (reader.need s)))
        (pending.drop (reader.need s)) := by
  rw [drain, dif_pos h]

theorem drain_of_not_ready (h : ¬ reader.Ready s pending) :
    reader.drain s pending = (s, pending) := by
  rw [drain, dif_neg h]

theorem Ready.append (h : reader.Ready s pending) (more : List β) :
    reader.Ready s (pending ++ more) :=
  ⟨h.1, by rw [List.length_append]; exact h.2.trans (Nat.le_add_right _ _)⟩

/-- Items that come later find the reader where the earlier ones have left it. -/
theorem drain_append (s : σ) (pending more : List β) :
    reader.drain s (pending ++ more) =
      reader.drain (reader.drain s pending).1 ((reader.drain s pending).2 ++ more) := by
  fun_induction reader.drain s pending with
  | case1 s pending h ih =>
      rw [drain_of_ready (h.append more), List.take_append_of_le_length h.2,
        List.drop_append_of_le_length h.2]
      exact ih
  | case2 s pending h => rfl

end ExactReader

end SnekCpp.Lib
