/-
SensorScript.Proofs.Table — how tables grow.

A table only changes by items that are appended to it, up to its capacity.
`Grows` says which items those are, of one push or of many; that two runs of
items are appended one after the other or at once is the same
(`grows_append_iff`), so capacities need no counting of their own.
-/
import SensorScript.Table

namespace SensorScript.Table

variable {α : Type} {t t' : Table α} {a : α} {as bs : List α}

/-- The other table has the items as well, and no more room than it had. -/
structure Grows (t : Table α) (as : List α) (t' : Table α) : Prop where
  name_eq : t'.name = t.name
  capacity_eq : t'.capacity = t.capacity
  items_eq : t'.items = t.items ++ as

theorem eq_of_items (hn : t'.name = t.name) (hc : t'.capacity = t.capacity)
    (hi : t'.items = t.items) : t' = t := by
  cases t
  cases t'
  cases hn
  cases hc
  cases hi
  rfl

theorem Grows.unique {u : Table α} (h : t.Grows as t') (h' : t.Grows as u) : u = t' :=
  eq_of_items (h'.name_eq.trans h.name_eq.symm) (h'.capacity_eq.trans h.capacity_eq.symm)
    (h'.items_eq.trans h.items_eq.symm)

theorem Grows.size_eq (h : t.Grows as t') : t'.size = t.size + as.length := by
  unfold size
  rw [h.items_eq, List.length_append]

theorem grows_nil_iff : t.Grows [] t' ↔ t' = t := by
  constructor
  · intro h
    exact eq_of_items h.name_eq h.capacity_eq (h.items_eq.trans (List.append_nil _))
  · rintro rfl
    exact ⟨rfl, rfl, (List.append_nil _).symm⟩

/-- A table can grow exactly as far as its capacity. -/
theorem exists_grows_iff (as : List α) : (∃ t', t.Grows as t') ↔ t.size + as.length ≤ t.capacity := by
  constructor
  · rintro ⟨t', h⟩
    rw [← h.size_eq, ← h.capacity_eq]
    exact t'.fits
  · intro h
    exact ⟨{ t with items := t.items ++ as, fits := by rw [List.length_append]; exact h },
      rfl, rfl, rfl⟩

theorem push_eq_ok_iff : t.push a = .ok t' ↔ t.Grows [a] t' := by
  have hgrows {t' : Table α} (h : t.push a = .ok t') : t.Grows [a] t' := by
    unfold push at h
    split at h
    · cases h; exact ⟨rfl, rfl, rfl⟩
    · cases h
  refine ⟨hgrows, fun h => ?_⟩
  have hroom : t.items.length < t.capacity := (exists_grows_iff _).mp ⟨t', h⟩
  obtain ⟨u, hu, _⟩ := push_of_room a hroom
  rw [hu, h.unique (hgrows hu)]

theorem grows_append_iff : t.Grows (as ++ bs) t' ↔ ∃ u, t.Grows as u ∧ u.Grows bs t' := by
  constructor
  · intro h
    have hle := (exists_grows_iff _).mp ⟨t', h⟩
    rw [List.length_append] at hle
    obtain ⟨u, hu⟩ := (exists_grows_iff (t := t) as).mpr (by omega)
    exact ⟨u, hu, h.name_eq.trans hu.name_eq.symm, h.capacity_eq.trans hu.capacity_eq.symm,
      by rw [h.items_eq, hu.items_eq, List.append_assoc]⟩
  · rintro ⟨u, hu, h⟩
    exact ⟨h.name_eq.trans hu.name_eq, h.capacity_eq.trans hu.capacity_eq,
      by rw [h.items_eq, hu.items_eq, List.append_assoc]⟩

theorem size_of_push (h : t.push a = .ok t') : t'.size = t.size + 1 :=
  (push_eq_ok_iff.mp h).size_eq

theorem modify_concat (as : List α) (f : α → α) :
    (as ++ [a]).modify as.length f = as ++ [f a] := by
  induction as with
  | nil => rfl
  | cons b as ih => exact congrArg (b :: ·) ih

/-- An item that is changed after it was pushed, and before anything else is. -/
theorem push_modify_grows_iff (t t' : Table α) (a : α) (f : α → α) (bs : List α) :
    (∃ u, t.push a = .ok u ∧ (u.modify t.size f).Grows bs t') ↔ t.Grows (f a :: bs) t' := by
  have hitems {u : Table α} (hu : t.Grows [a] u) :
      (u.modify t.size f).items = t.items ++ [f a] := by
    rw [items_modify, hu.items_eq, size, modify_concat]
  constructor
  · rintro ⟨u, hu, h⟩
    have hu := push_eq_ok_iff.mp hu
    refine ⟨h.name_eq.trans hu.name_eq, h.capacity_eq.trans hu.capacity_eq, ?_⟩
    rw [h.items_eq, hitems hu, List.append_assoc]
    rfl
  · intro h
    have hle := (exists_grows_iff _).mp ⟨t', h⟩
    rw [List.length_cons] at hle
    obtain ⟨u, hu⟩ := (exists_grows_iff (t := t) [a]).mpr
      (by rw [List.length_singleton]; omega)
    refine ⟨u, push_eq_ok_iff.mpr hu, h.name_eq.trans hu.name_eq.symm,
      h.capacity_eq.trans hu.capacity_eq.symm, ?_⟩
    rw [h.items_eq, hitems hu, List.append_assoc]
    rfl

/-! ## Look-ups -/

variable {b : α} {k : Nat}

theorem lt_size_of_get? (h : t.get? k = some a) : k < t.size :=
  (List.getElem?_eq_some_iff.mp h).1

theorem exists_get? (h : k < t.size) : ∃ a, t.get? k = some a :=
  ⟨t.items[k], List.getElem?_eq_getElem h⟩

theorem get?_push_iff (h : t.push a = .ok t') :
    t'.get? k = some b ↔ t.get? k = some b ∨ (k = t.size ∧ b = a) := by
  unfold get? size
  rw [(push_eq_ok_iff.mp h).items_eq]
  rcases Nat.lt_trichotomy k t.items.length with hlt | rfl | hgt
  · rw [List.getElem?_append_left hlt]
    constructor
    · exact Or.inl
    · rintro (h | ⟨rfl, _⟩)
      · exact h
      · exact absurd hlt (Nat.lt_irrefl _)
  · rw [List.getElem?_concat_length, List.getElem?_eq_none (Nat.le_refl _)]
    constructor
    · intro h; cases h; exact Or.inr ⟨rfl, rfl⟩
    · rintro (h | ⟨_, rfl⟩)
      · cases h
      · rfl
  · rw [List.getElem?_eq_none (by rw [List.length_append, List.length_singleton]; omega),
      List.getElem?_eq_none (by omega)]
    constructor
    · intro h; cases h
    · rintro (h | ⟨rfl, _⟩)
      · cases h
      · exact absurd hgt (Nat.lt_irrefl _)

theorem mem_push_iff (h : t.push a = .ok t') : b ∈ t'.items ↔ b ∈ t.items ∨ b = a := by
  rw [(push_eq_ok_iff.mp h).items_eq, List.mem_append, List.mem_singleton]

end SensorScript.Table
