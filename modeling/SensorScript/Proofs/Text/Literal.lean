/-
SensorScript.Proofs.Text.Literal — the number that a literal stands for.

A numeral of a base is one digit or more, and each digit counts as often as the
base to the power of its place (`Denotes`). A literal is a decimal numeral, or a
hexadecimal one behind a mark (`IsLiteral`). Both say nothing of how a literal is
read; `spells_iff_isLiteral` says that what the readers compute is that number.

  §1 digits;
  §2 numerals and literals.
-/
import Mathlib.Data.List.Forall2
import Mathlib.Data.Nat.Digits.Defs
import SensorScript.Proofs.Text.Numeral

namespace SensorScript.Numeral

/-- The character is the digit worth `d`, in lower or in upper case. -/
structure IsDigit (base : Nat) (c : Char) (d : Nat) : Prop where
  lt : d < base
  form : c = d.digitChar ∨ c = d.digitChar.toUpper

/-- The text is a numeral of the base for `n`, the last digit counting least. -/
def Denotes (base : Nat) (t : Text) (n : Nat) : Prop :=
  t ≠ [] ∧ ∃ ds, List.Forall₂ (IsDigit base) t ds ∧ Nat.ofDigits base ds.reverse = n

/-- The text is a literal for `n`, however large that is. -/
inductive IsLiteral (allowHex : Bool) : Text → Nat → Prop
  | decimal {t n} (h : Denotes 10 t n) : IsLiteral allowHex t n
  | hex {x t n} (allowed : allowHex = true) (mark : x = 'x' ∨ x = 'X') (h : Denotes 16 t n) :
      IsLiteral allowHex ('0' :: x :: t) n

variable {base n : Nat} {c : Char} {t : Text} {allowHex : Bool}

/-! ## §1 Digits -/

theorem digitValue_toUpper : ∀ d < 16,
    isHexDigit d.digitChar.toUpper = true ∧ digitValue d.digitChar.toUpper = d := by
  decide

/-- A digit for the readers has one of the two forms. -/
theorem form_digitValue (h : isHexDigit c = true) :
    digitValue c < 16 ∧
      (c = (digitValue c).digitChar ∨ c = (digitValue c).digitChar.toUpper) := by
  refine of_ascii (P := fun c => isHexDigit c = true → digitValue c < 16 ∧
    (c = (digitValue c).digitChar ∨ c = (digitValue c).digitChar.toUpper)) ?_
    (toNat_lt_of_isHexDigit h) h
  decide

theorem isDigit_sixteen_iff {d : Nat} :
    IsDigit 16 c d ↔ isHexDigit c = true ∧ digitValue c = d := by
  constructor
  · rintro ⟨hlt, rfl | rfl⟩
    · exact ⟨isHexDigit_digitChar d hlt, digitValue_digitChar d hlt⟩
    · exact digitValue_toUpper d hlt
  · rintro ⟨hc, rfl⟩
    obtain ⟨hlt, hform⟩ := form_digitValue hc
    exact ⟨hlt, hform⟩

theorem isDigit_ten_iff {d : Nat} : IsDigit 10 c d ↔ c.isDigit = true ∧ digitValue c = d := by
  have hforms : ∀ d < 10, (d.digitChar.isDigit = true ∧ digitValue d.digitChar = d) ∧
      d.digitChar.toUpper = d.digitChar := by
    decide
  constructor
  · rintro ⟨hlt, h⟩
    rw [(hforms d hlt).2, or_self] at h
    exact h ▸ (hforms d hlt).1
  · rintro ⟨hc, rfl⟩
    have hhex : isHexDigit c = true := by simp [isHexDigit, hc]
    have hlt : digitValue c < 10 := by
      have := isDigit_iff.mp hc
      rw [digitValue, if_pos hc]
      show c.toNat - 48 < 10
      omega
    exact ⟨hlt, (form_digitValue hhex).2⟩

/-! ## §2 Numerals and literals -/

/-- The value of digits is the sum over their places. -/
theorem value_eq_ofDigits (base : Nat) (t : Text) :
    value base t = Nat.ofDigits base (t.map digitValue).reverse := by
  rw [Nat.ofDigits_eq_foldr, List.foldr_reverse, List.foldl_map]
  exact List.foldl_ext _ _ _ fun _ _ _ => Nat.add_comm _ _

/-- A numeral, where `p` tells the digits of the base. -/
theorem denotes_iff {p : Char → Bool}
    (hp : ∀ c d, IsDigit base c d ↔ p c = true ∧ digitValue c = d) :
    Denotes base t n ↔ t ≠ [] ∧ (∀ c ∈ t, p c = true) ∧ value base t = n := by
  have hdigits (ds : List Nat) : List.Forall₂ (IsDigit base) t ds ↔
      (∀ c ∈ t, p c = true) ∧ t.map digitValue = ds := by
    induction t generalizing ds with
    | nil => cases ds <;> simp
    | cons c t ih =>
      cases ds with
      | nil => simp
      | cons d ds =>
        rw [List.forall₂_cons, hp, ih, List.forall_mem_cons, List.map_cons, List.cons.injEq]
        exact and_and_and_comm
  simp only [Denotes, hdigits, value_eq_ofDigits, and_assoc, exists_and_left, exists_eq_left']

theorem denotes_ten_iff :
    Denotes 10 t n ↔ t ≠ [] ∧ (∀ c ∈ t, c.isDigit = true) ∧ value 10 t = n :=
  denotes_iff fun _ _ => isDigit_ten_iff

theorem denotes_sixteen_iff :
    Denotes 16 t n ↔ t ≠ [] ∧ (∀ c ∈ t, isHexDigit c = true) ∧ value 16 t = n :=
  denotes_iff fun _ _ => isDigit_sixteen_iff

/-- What the readers take for a literal is one, and for the number that they compute. -/
theorem spells_iff_isLiteral : Spells allowHex n t ↔ IsLiteral allowHex t n := by
  constructor
  · intro h
    cases h with
    | decimal nonempty all => exact .decimal (denotes_ten_iff.mpr ⟨nonempty, all, rfl⟩)
    | hex allowed mark nonempty all =>
      exact .hex allowed mark (denotes_sixteen_iff.mpr ⟨nonempty, all, rfl⟩)
  · intro h
    cases h with
    | decimal h =>
      obtain ⟨nonempty, all, rfl⟩ := denotes_ten_iff.mp h
      exact .decimal nonempty all
    | hex allowed mark h =>
      obtain ⟨nonempty, all, rfl⟩ := denotes_sixteen_iff.mp h
      exact .hex allowed mark nonempty all

/-- Zeros in front of a numeral do not count. -/
theorem Denotes.zeros (h : Denotes base t n) (zeros : Nat) :
    Denotes base (List.replicate zeros '0' ++ t) n := by
  obtain ⟨hne, ds, hds, rfl⟩ := h
  have hzero : IsDigit base '0' 0 := by
    cases hds with
    | nil => exact absurd rfl hne
    | cons hd _ => exact ⟨Nat.zero_lt_of_lt hd.lt, .inl rfl⟩
  refine ⟨by simp [hne], List.replicate zeros 0 ++ ds, ?_, ?_⟩
  · induction zeros with
    | zero => exact hds
    | succ zeros ih => exact .cons hzero ih
  · rw [List.reverse_append, List.reverse_replicate, Nat.ofDigits_append_replicate_zero]

end SensorScript.Numeral
