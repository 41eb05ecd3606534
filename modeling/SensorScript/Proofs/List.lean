/-
SensorScript.Proofs.List — lists that are cut in two.

A list is cut where a class of items ends, or, when it is in order, at the items
with one key.
-/
import Mathlib.Data.List.TakeWhile

namespace SensorScript

variable {α : Type}

theorem take_length_takeWhile (p : α → Bool) (xs : List α) :
    xs.take (xs.takeWhile p).length = xs.takeWhile p :=
  (List.prefix_iff_eq_take.mp (List.takeWhile_prefix p)).symm

theorem drop_length_takeWhile (p : α → Bool) (xs : List α) :
    xs.drop (xs.takeWhile p).length = xs.dropWhile p := by
  have h : (xs.takeWhile p ++ xs.dropWhile p).drop (xs.takeWhile p).length =
      xs.dropWhile p := List.drop_left
  rwa [List.takeWhile_append_dropWhile] at h

/-- In a list that is in order, what has an index comes before what has a later one. -/
theorem filter_append_filter {key : α → Nat} {xs : List α}
    (h : xs.Pairwise fun x y => key x ≤ key y) (k : Nat) (p : α → Bool)
    (hp : ∀ x, p x = true → k ≤ key x) :
    (xs.filter fun x => key x = k && p x) ++ (xs.filter fun x => decide (k < key x) && p x) =
      xs.filter p := by
  induction xs with
  | nil => rfl
  | cons x xs ih =>
    obtain ⟨hx, hxs⟩ := List.pairwise_cons.mp h
    have ih := ih hxs
    by_cases hpx : p x = true
    · by_cases hk : key x = k
      · simpa [hpx, hk] using ih
      · -- No later one has the index.
        have hlt : k < key x := Nat.lt_of_le_of_ne (hp x hpx) (Ne.symm hk)
        have hnone : (xs.filter fun y => key y = k && p y) = [] :=
          List.filter_eq_nil_iff.mpr fun y hy => by
            have hle := hx y hy
            simp only [Bool.and_eq_true, decide_eq_true_eq]
            omega
        rw [hnone, List.nil_append] at ih
        simpa [hpx, hk, hlt, hnone] using ih
    · simpa [hpx] using ih

end SensorScript
