/-
SensorScript.Proofs.Text.Numeral — the numbers that literals spell.

Leading zeros, the base and the case of hexadecimal digits make different
literals of one number. A reader only ever sees the number.

  §1 digits;
  §2 literals of one number;
  §3 printed numbers: their digits are worth the number again, decimal ones have
     no zero in front and hexadecimal ones fill the width they are given.
-/
import Mathlib.Algebra.Group.Nat.Defs
import Mathlib.Data.List.Basic
import SensorScript.Text.Numeral

namespace SensorScript.Numeral

variable {allowHex : Bool} {n : Nat} {s t : Text} {c : Char}

/-! ## §1 Digits -/

theorem isDigit_iff : c.isDigit = true ↔ 0x30 ≤ c.toNat ∧ c.toNat ≤ 0x39 := by
  simp [Char.isDigit, UInt32.le_iff_toNat_le]

theorem isHexDigit_iff : isHexDigit c = true ↔
    (0x30 ≤ c.toNat ∧ c.toNat ≤ 0x39) ∨ (0x61 ≤ c.toNat ∧ c.toNat ≤ 0x66) ∨
      (0x41 ≤ c.toNat ∧ c.toNat ≤ 0x46) := by
  simp [isHexDigit, isDigit_iff, Char.le_def, UInt32.le_iff_toNat_le, or_assoc]

theorem toNat_lt_of_isHexDigit (h : isHexDigit c = true) : c.toNat < 0x80 := by
  have := isHexDigit_iff.mp h
  omega

/-- What holds of the first 128 characters holds of every digit. -/
theorem of_ascii {P : Char → Prop} (h : ∀ n < 0x80, P (Char.ofNat n)) (hc : c.toNat < 0x80) :
    P c := by
  have hP := h c.toNat hc
  rwa [Char.ofNat_toNat] at hP

theorem isHexDigit_digitChar : ∀ d < 16, isHexDigit d.digitChar = true := by decide

theorem digitValue_digitChar : ∀ d < 16, digitValue d.digitChar = d := by decide

/-- Zeros in front are worth nothing. -/
theorem value_zeros (base zeros : Nat) (ds : Text) :
    value base (List.replicate zeros '0' ++ ds) = value base ds := by
  induction zeros with
  | zero => rfl
  | succ zeros ih =>
    rw [List.replicate_succ, List.cons_append, ← ih]
    rfl

/-! ## §2 Literals -/

/-- The text is a literal of the number, however large that is. -/
inductive Spells (allowHex : Bool) : Nat → Text → Prop
  | decimal {digits} (nonempty : digits ≠ []) (all : ∀ c ∈ digits, c.isDigit = true) :
      Spells allowHex (value 10 digits) digits
  | hex {x digits} (allowed : allowHex = true) (mark : x = 'x' ∨ x = 'X') (nonempty : digits ≠ [])
      (all : ∀ c ∈ digits, isHexDigit c = true) :
      Spells allowHex (value 16 digits) ('0' :: x :: digits)

/-- Literals of one number. -/
def Same (allowHex : Bool) (s t : Text) : Prop := ∃ n, Spells allowHex n s ∧ Spells allowHex n t

theorem Same.symm (h : Same allowHex s t) : Same allowHex t s := by
  obtain ⟨n, hs, ht⟩ := h
  exact ⟨n, ht, hs⟩

theorem Spells.ne_nil (h : Spells allowHex n t) : t ≠ [] := by
  cases h with
  | decimal nonempty _ => exact nonempty
  | hex _ _ _ _ => exact List.cons_ne_nil _ _

theorem Same.ne_nil (h : Same allowHex s t) : s ≠ [] := by
  obtain ⟨n, hs, _⟩ := h
  exact hs.ne_nil

/-- The number of a literal, however large it is. -/
def number? (allowHex : Bool) (t : Text) : Option Nat :=
  (Numeral.split? allowHex t).map fun (radix, digits) => value radix.base digits

theorem hexDigits?_eq_some_iff {digits : Text} :
    hexDigits? t = some digits ↔ ∃ x, t = '0' :: x :: digits ∧ (x = 'x' ∨ x = 'X') ∧ digits ≠ [] ∧
      digits.all isHexDigit = true := by
  constructor
  · intro h
    unfold hexDigits? at h
    split at h
    · split at h
      next hhex => cases h; exact ⟨_, rfl, hhex⟩
      · cases h
    · cases h
  · rintro ⟨x, rfl, hhex⟩
    exact if_pos hhex

/-- A decimal literal is all digits. -/
theorem split?_eq_some_decimal {digits : Text}
    (h : Numeral.split? allowHex t = some (.decimal, digits)) :
    digits = t ∧ t ≠ [] ∧ t.all Char.isDigit = true := by
  unfold Numeral.split? at h
  split at h
  · cases h
  next hne =>
    split at h
    next hall => cases h; exact ⟨rfl, hne, hall⟩
    · split at h
      · obtain ⟨_, _, heq⟩ := Option.map_eq_some_iff.mp h
        cases heq
      · cases h

/-- A hexadecimal literal is digits behind a mark. -/
theorem split?_eq_some_hex {digits : Text} (h : Numeral.split? allowHex t = some (.hex, digits)) :
    allowHex = true ∧ hexDigits? t = some digits := by
  unfold Numeral.split? at h
  split at h
  · cases h
  · split at h
    · cases h
    · split at h
      next hallowed =>
        obtain ⟨_, hdigits, heq⟩ := Option.map_eq_some_iff.mp h
        cases heq
        exact ⟨hallowed, hdigits⟩
      · cases h

/-- The reader splits exactly the literals into a base and digits. -/
theorem spells_iff : Spells allowHex n t ↔ number? allowHex t = some n := by
  constructor
  · intro h
    cases h with
    | @decimal digits hne hall =>
      rw [number?, Numeral.split?, if_neg hne, if_pos (List.all_eq_true.mpr hall)]
      rfl
    | @hex x digits hallowed hmark hne hall =>
      have hnot : ¬ ('0' :: x :: digits).all Char.isDigit = true := by
        intro h
        have hx := List.all_eq_true.mp h x (.tail _ (.head _))
        rcases hmark with rfl | rfl
        · cases hx
        · cases hx
      rw [number?, Numeral.split?, if_neg (List.cons_ne_nil _ _), if_neg hnot, if_pos hallowed,
        hexDigits?_eq_some_iff.mpr ⟨x, rfl, hmark, hne, List.all_eq_true.mpr hall⟩]
      rfl
  · intro h
    obtain ⟨⟨radix, digits⟩, hsplit, rfl⟩ := Option.map_eq_some_iff.mp h
    cases radix with
    | decimal =>
      obtain ⟨rfl, hne, hall⟩ := split?_eq_some_decimal hsplit
      exact .decimal hne (List.all_eq_true.mp hall)
    | hex =>
      obtain ⟨hallowed, hdigits⟩ := split?_eq_some_hex hsplit
      obtain ⟨x, rfl, hmark, hne, hall⟩ := hexDigits?_eq_some_iff.mp hdigits
      exact .hex hallowed hmark hne (List.all_eq_true.mp hall)

/-- A literal is read as its number, if that fits 32 bits. -/
theorem Spells.read? (h : Spells allowHex n t) :
    Numeral.read? allowHex t = if n < UInt32.size then some (UInt32.ofNat n) else none := by
  obtain ⟨⟨radix, digits⟩, hsplit, rfl⟩ := Option.map_eq_some_iff.mp (spells_iff.mp h)
  rw [Numeral.read?, hsplit]

/-- A literal that is read spells its value. -/
theorem spells_of_read? {v : UInt32} (h : Numeral.read? allowHex t = some v) :
    Spells allowHex v.toNat t := by
  unfold Numeral.read? at h
  split at h
  · cases h
  next radix digits hsplit =>
    simp only at h
    split at h
    next hlt =>
      cases h
      rw [spells_iff, number?, hsplit, UInt32.toNat_ofNat_of_lt' hlt]
      rfl
    · cases h

theorem Same.read?_eq (h : Same allowHex s t) :
    Numeral.read? allowHex s = Numeral.read? allowHex t := by
  obtain ⟨n, hs, ht⟩ := h
  rw [hs.read?, ht.read?]

/-! ## §3 Printed numbers -/

/-- Digits of a base up to sixteen are worth the number again. -/
theorem value_toDigits {base : Nat} (hbase : 1 < base) (hle : base ≤ 16) (n : Nat) :
    value base (Nat.toDigits base n) = n := by
  induction n using Nat.strongRecOn with
  | ind n ih =>
    rw [Nat.toDigits_eq_if hbase]
    split
    next hlt =>
      show base * 0 + digitValue n.digitChar = n
      rw [digitValue_digitChar n (by omega), Nat.mul_zero, Nat.zero_add]
    next hge =>
      have hmod : n % base < base := Nat.mod_lt n (by omega)
      rw [value_append_digit, ih _ (Nat.div_lt_self (by omega) hbase),
        digitValue_digitChar _ (by omega), Nat.div_add_mod]

theorem value_decimal (n : Nat) : value 10 (decimal n) = n :=
  value_toDigits (by decide) (by decide) n

theorem isDigit_of_mem_decimal (h : c ∈ decimal n) : c.isDigit = true :=
  Nat.isDigit_of_mem_toDigits (by decide) (by decide) h

theorem decimal_ne_nil (n : Nat) : decimal n ≠ [] := Nat.toDigits_ne_nil

theorem exists_decimal_cons (n : Nat) : ∃ c ds, decimal n = c :: ds ∧ c.isDigit = true := by
  obtain ⟨c, ds, h⟩ := List.exists_cons_of_ne_nil (decimal_ne_nil n)
  have hmem : c ∈ decimal n := h ▸ List.mem_cons_self
  exact ⟨c, ds, h, isDigit_of_mem_decimal hmem⟩

/-- No number but zero is printed with a zero in front. -/
theorem eq_nil_of_decimal {ds : Text} (h : decimal n = '0' :: ds) : ds = [] := by
  have hhead : ∀ n, n ≠ 0 → (decimal n).head? ≠ some '0' := by
    intro n
    induction n using Nat.strongRecOn with
    | ind n ih =>
      intro hn
      rw [decimal, Nat.toDigits_eq_if (by decide)]
      split
      next hlt => simp [hn]
      next hge =>
        rw [List.head?_append_of_ne_nil _ Nat.toDigits_ne_nil]
        exact ih _ (by omega) (by omega)
  by_cases hn : n = 0
  · rw [hn] at h
    exact (List.cons.inj h).2.symm
  · exact absurd (congrArg List.head? h) (hhead n hn)

/-- A number is spelled by its decimal digits. -/
theorem spells_decimal (allowHex : Bool) (n : Nat) : Spells allowHex n (decimal n) := by
  have h : Spells allowHex (value 10 (decimal n)) (decimal n) :=
    .decimal (decimal_ne_nil n) fun _ => isDigit_of_mem_decimal
  rwa [value_decimal] at h

theorem value_hexPadded (width n : Nat) : value 16 (hexPadded width n) = n := by
  rw [hexPadded, value_zeros, value_toDigits (by decide) (by decide)]

theorem eq_of_hexPadded_eq {width m : Nat} (h : hexPadded width n = hexPadded width m) :
    n = m := by
  rw [← value_hexPadded width n, h, value_hexPadded]

theorem isHexDigit_of_mem_hexPadded {width : Nat} (h : c ∈ hexPadded width n) :
    isHexDigit c = true := by
  have hdigits : ∀ n, ∀ c ∈ Nat.toDigits 16 n, isHexDigit c = true := by
    intro n
    induction n using Nat.strongRecOn with
    | ind n ih =>
      rw [Nat.toDigits_eq_if (by decide)]
      split
      next hlt => simpa using isHexDigit_digitChar n hlt
      next hge =>
        have hlast := isHexDigit_digitChar (n % 16) (Nat.mod_lt n (by decide))
        simpa [or_imp, forall_and, hlast] using ih (n / 16) (by omega)
  rcases List.mem_append.mp h with h | h
  · rw [List.eq_of_mem_replicate h]
    rfl
  · exact hdigits n c h

/-- A number that fits the width is printed in that width. -/
theorem length_hexPadded {width : Nat} (hwidth : 0 < width) (h : n < 16 ^ width) :
    (hexPadded width n).length = width := by
  have hle : (Nat.toDigits 16 n).length ≤ width :=
    (Nat.length_toDigits_le_iff (by decide) hwidth).mpr h
  rw [hexPadded, List.length_append, List.length_replicate]
  omega

end SensorScript.Numeral
