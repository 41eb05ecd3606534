/-
SensorScript.Proofs.Operand.Accumulator — 32 bits are enough to read literals.

A digit is taken in exactly when the number with it still fits (`step_of_digit`). As
more digits never make a number smaller, digits are read exactly when their whole
number fits, and then as that number (`run_of_digits`): nothing wraps, and a number
is not lost for being long. What stands in front of the accumulator lets digits
through and nothing else, so the plus sign is never met (`readLiteral_eq`).
-/
import SensorScript.Operand.Accumulator
import SensorScript.Proofs.Operand.Bytewise
import SensorScript.Proofs.Text.Literal

namespace SensorScript.Operand.Accumulator

open Numeral (value digitValue isHexDigit)

variable {base : UInt32} {b : UInt8} {c : Char} {t : Text} {allowHex : Bool}

/-! ## §1 One digit -/

/-- A number, if it fits 32 bits. -/
def fitted (n : Nat) : Except Refusal UInt32 :=
  if n < UInt32.size then .ok (UInt32.ofNat n) else .error .overflow

theorem toOption_fitted (n : Nat) : (fitted n).toOption = Bytewise.fit? n := by
  unfold fitted Bytewise.fit?
  split
  · rfl
  · rfl

/-- A digit is taken in exactly when the number with it still fits. -/
theorem step_of_digit {d : Nat} (h : worth? b = some d) (hd : d < base.toNat) (result : UInt32) :
    step base result b = fitted (base.toNat * result.toNat + d) := by
  have hdigit : (UInt32.ofNat d).toNat = d :=
    UInt32.toNat_ofNat_of_lt' (Nat.lt_trans hd base.toNat_lt)
  unfold step digit?
  rw [h]
  simp only [if_pos hd, checkedMul, Nat.mul_comm result.toNat]
  by_cases hmul : base.toNat * result.toNat < UInt32.size
  · have hproduct : (result * base).toNat = base.toNat * result.toNat := by
      rw [UInt32.toNat_mul, Nat.mul_comm, Nat.mod_eq_of_lt hmul]
    rw [if_pos hmul]
    simp only [Option.bind_some, checkedAdd, hproduct, hdigit, fitted]
    by_cases hadd : base.toNat * result.toNat + d < UInt32.size
    · have hsum : result * base + UInt32.ofNat d =
          UInt32.ofNat (base.toNat * result.toNat + d) := by
        rw [← UInt32.toNat_inj, UInt32.toNat_add, hproduct, hdigit,
          UInt32.toNat_ofNat_of_lt' hadd, Nat.mod_eq_of_lt hadd]
      simp only [if_pos hadd, hsum]
    · simp only [if_neg hadd]
  · -- The product alone is too large already.
    rw [if_neg hmul, fitted, if_neg (by omega)]
    rfl

/-- The byte of a digit is worth what the digit is. -/
theorem worth?_asciiByte (h : isHexDigit c = true) :
    worth? (Utf8.asciiByte c) = some (digitValue c) := by
  refine Numeral.of_ascii
    (P := fun c => isHexDigit c = true → worth? (Utf8.asciiByte c) = some (digitValue c)) ?_
    (Numeral.toNat_lt_of_isHexDigit h) h
  decide

/-! ## §2 All digits -/

/-- The number that digits make behind a number. -/
def valueFrom (base n : Nat) (t : Text) : Nat := t.foldl (fun n c => base * n + digitValue c) n

/-- No number is smaller with digits behind it. -/
theorem le_valueFrom {base : Nat} (hbase : 0 < base) (n : Nat) (t : Text) :
    n ≤ valueFrom base n t := by
  induction t generalizing n with
  | nil => exact Nat.le_refl n
  | cons c t ih =>
    calc n ≤ base * n := Nat.le_mul_of_pos_left n hbase
      _ ≤ base * n + digitValue c := Nat.le_add_right _ _
      _ ≤ valueFrom base n (c :: t) := ih _

/-- The text is digits of the base. -/
def AllDigits (base : UInt32) (t : Text) : Prop :=
  ∀ c ∈ t, isHexDigit c = true ∧ digitValue c < base.toNat

/-- The accumulator reads digits exactly when the number that they make fits, and as
that number. -/
theorem run_of_digits (h : AllDigits base t) (result : UInt32) :
    run base result (Utf8.encode t) = fitted (valueFrom base.toNat result.toNat t) := by
  induction t generalizing result with
  | nil =>
    show Except.ok result = fitted result.toNat
    rw [fitted, if_pos result.toNat_lt, UInt32.ofNat_toNat]
  | cons c t ih =>
    obtain ⟨⟨hc, hlt⟩, ht⟩ := List.forall_mem_cons.mp h
    rw [Utf8.encode_cons, Utf8.encodeChar_ascii (Numeral.toNat_lt_of_isHexDigit hc)]
    show (step base result _ >>= fun result => run base result (Utf8.encode t)) = _
    rw [step_of_digit (worth?_asciiByte hc) hlt]
    by_cases hfits : base.toNat * result.toNat + digitValue c < UInt32.size
    · rw [fitted, if_pos hfits]
      show run base _ (Utf8.encode t) = _
      rw [ih ht, UInt32.toNat_ofNat_of_lt' hfits]
      rfl
    · -- What does not fit now will not fit with more digits.
      have hle : base.toNat * result.toNat + digitValue c ≤
          valueFrom base.toNat result.toNat (c :: t) :=
        le_valueFrom (Nat.zero_lt_of_lt hlt) _ t
      rw [fitted, if_neg hfits, fitted, if_neg (by omega)]
      rfl

/-- Digits have no sign in front. -/
theorem parse_of_digits (hne : t ≠ []) (h : AllDigits base t) :
    parse base (Utf8.encode t) = fitted (value base.toNat t) := by
  obtain ⟨c, t, rfl⟩ := List.exists_cons_of_ne_nil hne
  have hc := (List.forall_mem_cons.mp h).1.1
  have hascii := Numeral.toNat_lt_of_isHexDigit hc
  have hplus : Utf8.asciiByte c ≠ Utf8.asciiByte '+' := by
    intro heq
    have hworth := worth?_asciiByte hc
    rw [heq] at hworth
    cases hworth
  have hrun := run_of_digits h 0
  rw [Utf8.encode_cons, Utf8.encodeChar_ascii hascii] at hrun ⊢
  show (if Utf8.asciiByte c = Utf8.asciiByte '+' ∧ _ then _ else _) = _
  rw [if_neg fun hsign => hplus hsign.1]
  exact hrun

theorem allDigits_ten (h : ∀ c ∈ t, c.isDigit = true) : AllDigits 10 t := by
  intro c hc
  have hdigit := Numeral.isDigit_ten_iff.mpr ⟨h c hc, rfl⟩
  exact ⟨by simp [isHexDigit, h c hc], hdigit.lt⟩

theorem allDigits_sixteen (h : ∀ c ∈ t, isHexDigit c = true) : AllDigits 16 t :=
  fun c hc => ⟨h c hc, (Numeral.form_digitValue (h c hc)).1⟩

/-! ## §3 Literals -/

/-- A literal is read within 32 bits as it is read without a bound. -/
theorem readLiteral_eq (allowHex : Bool) (t : Text) :
    readLiteral allowHex t = .ok (Numeral.read? allowHex t) := by
  unfold readLiteral Numeral.read?
  rw [Bytewise.radix?_eq, Numeral.radix?]
  cases hsplit : Numeral.split? allowHex t with
  | none => rfl
  | some literal =>
    obtain ⟨radix, digits⟩ := literal
    cases radix with
    | decimal =>
      obtain ⟨rfl, hne, hall⟩ := Numeral.split?_eq_some_decimal hsplit
      have hparse := parse_of_digits hne (allDigits_ten (List.all_eq_true.mp hall))
      show Except.ok (parse 10 (Utf8.encode digits)).toOption = _
      rw [hparse, toOption_fitted]
      rfl
    | hex =>
      obtain ⟨x, rfl, hx, hne, hall⟩ :=
        Numeral.hexDigits?_eq_some_iff.mp (Numeral.split?_eq_some_hex hsplit).2
      have hslice := Bytewise.sliceFrom_two (c := '0') (by decide)
        (Bytewise.toNat_lt_of_mark hx) digits
      have hparse := parse_of_digits hne (allDigits_sixteen (List.all_eq_true.mp hall))
      show (Bytewise.sliceFrom _ 2 >>= fun digits => _) = _
      rw [hslice]
      show Except.ok (parse 16 (Utf8.encode digits)).toOption = _
      rw [hparse, toOption_fitted]
      rfl

/-- A text is read exactly when it is a literal for a number that fits 32 bits, and as
that number. -/
theorem read?_eq_some_iff {n : Nat} :
    (Numeral.read? allowHex t).map UInt32.toNat = some n ↔
      Numeral.IsLiteral allowHex t n ∧ n < 2 ^ 32 := by
  rw [← Numeral.spells_iff_isLiteral]
  constructor
  · intro h
    obtain ⟨v, hv, rfl⟩ := Option.map_eq_some_iff.mp h
    exact ⟨Numeral.spells_of_read? hv, v.toNat_lt⟩
  · rintro ⟨h, hlt⟩
    rw [h.read?, if_pos (show n < UInt32.size from hlt), Option.map_some, UInt32.toNat_ofNat_of_lt' hlt]

/-- Only digits and the mark of a base stand in a literal, and never the mark alone. -/
theorem chars_of_spells {n : Nat} (h : Numeral.Spells allowHex n t) :
    t ∉ [[], ['0', 'x'], ['0', 'X']] ∧ ∀ c ∈ t, isHexDigit c = true ∨ c = 'x' ∨ c = 'X' := by
  cases h with
  | decimal nonempty all =>
    refine ⟨?_, fun c hc => .inl (by simp [isHexDigit, all c hc])⟩
    rintro h
    simp only [List.mem_cons, List.not_mem_nil, or_false] at h
    rcases h with rfl | rfl | rfl
    · exact nonempty rfl
    · cases all 'x' (by simp)
    · cases all 'X' (by simp)
  | @hex x digits _ mark nonempty all =>
    refine ⟨by simp [nonempty], ?_⟩
    intro c hc
    rcases List.mem_cons.mp hc with rfl | hc
    · exact .inl rfl
    rcases List.mem_cons.mp hc with rfl | hc
    · exact .inr mark
    · exact .inl (all c hc)

/-- Literals for one number are read alike. -/
theorem read?_eq_of_isLiteral {n : Nat} {s : Text} (hs : Numeral.IsLiteral allowHex s n)
    (ht : Numeral.IsLiteral allowHex t n) :
    Numeral.read? allowHex s = Numeral.read? allowHex t :=
  Numeral.Same.read?_eq
    ⟨n, Numeral.spells_iff_isLiteral.mpr hs, Numeral.spells_iff_isLiteral.mpr ht⟩

/-- Literals of any length are read within 32 bits as they are read without a bound. A
text is read exactly when it is a literal for a number below 2 to the 32nd, and as that
number. Zeros in front of the digits change nothing, and a text that is read has some
digits and nothing else but a mark. -/
theorem reads_exact_numbers (allowHex : Bool) (t : Text) :
    readLiteral allowHex t = .ok (Numeral.read? allowHex t) ∧
      (∀ n, (Numeral.read? allowHex t).map UInt32.toNat = some n ↔
        Numeral.IsLiteral allowHex t n ∧ n < 2 ^ 32) ∧
      (∀ n zeros, Numeral.Denotes 10 t n →
        Numeral.read? allowHex (List.replicate zeros '0' ++ t) = Numeral.read? allowHex t) ∧
      (∀ n zeros x, allowHex = true → (x = 'x' ∨ x = 'X') → Numeral.Denotes 16 t n →
        Numeral.read? allowHex ('0' :: x :: (List.replicate zeros '0' ++ t)) =
          Numeral.read? allowHex ('0' :: x :: t)) ∧
      ∀ v, Numeral.read? allowHex t = some v →
        t ∉ [[], ['0', 'x'], ['0', 'X']] ∧
          ∀ c ∈ t, isHexDigit c = true ∨ c = 'x' ∨ c = 'X' := by
  refine ⟨readLiteral_eq allowHex t, fun _ => read?_eq_some_iff, ?_, ?_, ?_⟩
  · intro n zeros h
    exact read?_eq_of_isLiteral (.decimal (h.zeros zeros)) (.decimal h)
  · intro n zeros x hallowed hmark h
    exact read?_eq_of_isLiteral (.hex hallowed hmark (h.zeros zeros)) (.hex hallowed hmark h)
  · intro v h
    exact chars_of_spells (Numeral.spells_of_read? h)

/-- The largest number of 32 bits, in both cases and behind forty zeros. -/
theorem reads_padded_maximum :
    Numeral.Denotes 16 "ffffFFFF".toList 0xFFFFFFFF ∧
      Numeral.read? true ('0' :: 'X' :: (List.replicate 40 '0' ++ "ffffFFFF".toList)) =
        some 0xFFFFFFFF := by
  have hmaximum : Numeral.Denotes 16 "ffffFFFF".toList 0xFFFFFFFF :=
    Numeral.denotes_sixteen_iff.mpr ⟨by decide, List.all_eq_true.mp rfl, rfl⟩
  have hzeros := (reads_exact_numbers true "ffffFFFF".toList).2.2.2.1 _ 40 'X' rfl (.inr rfl)
    hmaximum
  exact ⟨hmaximum, hzeros.trans (by decide)⟩

end SensorScript.Operand.Accumulator
