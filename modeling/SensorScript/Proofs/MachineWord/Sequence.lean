/-
SensorScript.Proofs.MachineWord.Sequence — the words of operations in order.

Encoding a list either gives one word for each operation or stops at an
operation that has none, and the error tells which that is.
-/
import Mathlib.Data.List.Forall2
import SensorScript.MachineWord.Encode
import SensorScript.Proofs.Except
import SensorScript.Proofs.Forall2

namespace SensorScript

theorem encodeAt_eq_ok_iff {index : Nat} {x : Operation} {w : MachineWord} :
    encodeAt index x = .ok w ↔ x.encode = .ok w := mapError_eq_ok_iff

theorem encodeAt_eq_error_iff {index : Nat} {x : Operation} {e : EncodeError} :
    encodeAt index x = .error e ↔ e.index = index ∧ x.encode = .error e.fault := by
  obtain ⟨index', fault⟩ := e
  unfold encodeAt
  cases x.encode with
  | ok w => exact iff_of_false nofun nofun
  | error fault' => simp [Except.mapError, eq_comm]

theorem encodeFrom_eq_ok_iff {index : Nat} {xs : List Operation} {ws : List MachineWord} :
    encodeFrom index xs = .ok ws ↔ List.Forall₂ (fun x w => x.encode = .ok w) xs ws := by
  induction xs generalizing index ws with
  | nil =>
    rw [List.forall₂_nil_left_iff]
    constructor
    · intro h; cases h; rfl
    · rintro rfl; rfl
  | cons x xs ih =>
    rw [List.forall₂_cons_left_iff]
    constructor
    · intro h
      obtain ⟨w, hw, h⟩ := bind_eq_ok_iff.mp h
      obtain ⟨ws, hws, h⟩ := bind_eq_ok_iff.mp h
      cases h
      exact ⟨w, ws, encodeAt_eq_ok_iff.mp hw, ih.mp hws, rfl⟩
    · rintro ⟨w, ws, hw, hws, rfl⟩
      exact bind_eq_ok_iff.mpr ⟨w, encodeAt_eq_ok_iff.mpr hw, bind_eq_ok_iff.mpr ⟨ws, ih.mpr hws, rfl⟩⟩

/-- An error is that of an operation all before which have words, and tells the
index of it. -/
theorem encodeFrom_eq_error_iff {index : Nat} {xs : List Operation} {e : EncodeError} :
    encodeFrom index xs = .error e ↔
      ∃ i x, xs[i]? = some x ∧ e.index = index + i ∧ x.encode = .error e.fault ∧
        ∀ y ∈ xs.take i, ∃ w, y.encode = .ok w := by
  induction xs generalizing index with
  | nil => exact iff_of_false nofun fun ⟨_, _, hx, _⟩ => by cases hx
  | cons x xs ih =>
    cases hx : x.encode with
    | error fault =>
      have hat : encodeAt index x = .error ⟨index, fault⟩ := by rw [encodeAt, hx]; rfl
      have hfrom : encodeFrom index (x :: xs) = .error ⟨index, fault⟩ := by rw [encodeFrom, hat]; rfl
      rw [hfrom, Except.error.injEq]
      constructor
      · rintro rfl
        exact ⟨0, x, rfl, rfl, hx, nofun⟩
      · rintro ⟨_ | i, y, hy, hi, he, hbefore⟩
        · cases hy
          cases hx.symm.trans he
          obtain ⟨_, _⟩ := e
          cases hi
          rfl
        · obtain ⟨w, hw⟩ := hbefore x (.head _)
          cases hx.symm.trans hw
    | ok w =>
      have hat : encodeAt index x = .ok w := encodeAt_eq_ok_iff.mpr hx
      have hfrom : encodeFrom index (x :: xs) = .error e ↔ encodeFrom (index + 1) xs = .error e := by
        rw [encodeFrom, hat]
        show (encodeFrom (index + 1) xs >>= fun ws => _) = _ ↔ _
        cases encodeFrom (index + 1) xs with
        | error e' => exact Iff.rfl
        | ok ws => exact iff_of_false nofun nofun
      rw [hfrom, ih]
      constructor
      · rintro ⟨i, y, hy, hi, he, hbefore⟩
        exact ⟨i + 1, y, hy, by omega, he, List.forall_mem_cons.mpr ⟨⟨w, hx⟩, hbefore⟩⟩
      · rintro ⟨_ | i, y, hy, hi, he, hbefore⟩
        · cases hy
          cases hx.symm.trans he
        · exact ⟨i, y, hy, by omega, he, (List.forall_mem_cons.mp hbefore).2⟩

/-- An error is that of an operation, and tells the index of it. -/
theorem encodeFrom_eq_error {index : Nat} {xs : List Operation} {e : EncodeError}
    (h : encodeFrom index xs = .error e) :
    ∃ i x, xs[i]? = some x ∧ e.index = index + i ∧ x.encode = .error e.fault := by
  obtain ⟨i, x, hx, hi, he, _⟩ := encodeFrom_eq_error_iff.mp h
  exact ⟨i, x, hx, hi, he⟩

/-- An operation that has no word stops the list, unless one before it does. -/
theorem encodeFrom_of_fault (index : Nat) {i : Nat} {xs : List Operation} {x : Operation}
    {fault : EncodeFault} (hx : xs[i]? = some x) (hfault : x.encode = .error fault) :
    ∃ e, encodeFrom index xs = .error e ∧ (e.index < index + i ∨ e = ⟨index + i, fault⟩) := by
  cases h : encodeFrom index xs with
  | ok ws =>
    obtain ⟨w, _, hw⟩ := exists_getElem?_of_forall₂ (encodeFrom_eq_ok_iff.mp h).flip hx
    cases hfault.symm.trans hw
  | error e =>
    obtain ⟨j, y, hy, hindex, hfault', hbefore⟩ := encodeFrom_eq_error_iff.mp h
    refine ⟨e, rfl, ?_⟩
    rcases Nat.lt_trichotomy j i with hlt | rfl | hlt
    · exact Or.inl (by omega)
    · cases hx.symm.trans hy
      obtain ⟨_, _⟩ := e
      cases hfault.symm.trans hfault'
      cases hindex
      exact Or.inr rfl
    · have hmem : x ∈ xs.take j := List.mem_of_getElem? ((List.getElem?_take_of_lt hlt).trans hx)
      obtain ⟨w, hw⟩ := hbefore x hmem
      cases hfault.symm.trans hw

end SensorScript
