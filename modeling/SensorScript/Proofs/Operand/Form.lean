/-
SensorScript.Proofs.Operand.Form — the words that operands are read from.

`Form` lists them, one case for every kind of operand. A word is read as an
operand exactly when it has a form of it (`read_eq_ok_iff`), so a word without a
form is refused, and the forms inside brackets are the only nesting there is.
-/
import SensorScript.Proofs.Draft.Step
import SensorScript.Proofs.Text.Numeral
import SensorScript.Proofs.Text.Utf8

namespace SensorScript

/-! ## §1 Forms -/

/-- Characters that no name holds. -/
def Operand.reserved : List Char := ['@', '$', '[', ']', ':']

/-- The text can name a label or a function. -/
structure IsName (limits : Limits) (name : Text) : Prop where
  nonempty : name ≠ []
  short : name.length ≤ limits.maxNameLen
  allowed : ∀ c ∈ name, c ∉ Operand.reserved

/-- The word is a register of the machine or an immediate. -/
inductive Offset.Form (limits : Limits) : Text → Offset → Prop
  | register {r : UInt8} {digits} (number : Numeral.Spells false r.toNat digits)
      (below : r.toNat < limits.maxRegisters) : Form limits ('R' :: digits) (.register r)
  | immediate {v : UInt32} {literal} (number : Numeral.Spells true v.toNat literal) :
      Form limits ('$' :: literal) (.immediate v)

/-- The digit that a bank is written with. -/
def Bank.digit : Bank → Char
  | .m0 => '0'
  | .m1 => '1'

/-- The operand that says what an offset says. -/
def Offset.operand : Offset → Operand
  | .register r => .register r
  | .immediate v => .immediate v

/-- The word is written as the operand, with any numeral of each number in it. -/
inductive Operand.Form (limits : Limits) : Context → Text → Operand → Prop
  | scalar {context token offset} (h : Offset.Form limits token offset) :
      Form limits context token offset.operand
  | memory {context bank inside offset} (h : Offset.Form limits inside offset) :
      Form limits context ('M' :: bank.digit :: '[' :: (inside ++ [']'])) (.memory ⟨bank, offset⟩)
  | label {name} (h : IsName limits name) : Form limits .plain ('@' :: name) (.label { name })
  | function {name} (h : IsName limits name) : Form limits .call ('@' :: name) (.function { name })

/-! ## §2 Words of a form are read -/

namespace Operand

variable {limits : Limits} {context : Context} {token digits name : Text}

theorem isReserved_iff {c : Char} : isReserved c = true ↔ c ∈ reserved := by
  simp [isReserved, reserved, or_assoc]

theorem readName_eq_ok_iff_isName : readName limits name = .ok name ↔ IsName limits name := by
  have hall : name.any isReserved = false ↔ ∀ c ∈ name, c ∉ reserved := by
    simp [List.any_eq_false, ← isReserved_iff]
  rw [readName_eq_ok_iff, hall]
  exact ⟨fun h => ⟨h.2.1, h.2.2.2, h.2.2.1⟩, fun h => ⟨rfl, h.nonempty, h.allowed, h.short⟩⟩

theorem readRegister_of_spells {r : UInt8} (h : Numeral.Spells false r.toNat digits)
    (hr : r.toNat < limits.maxRegisters) : readRegister limits token digits = .ok r := by
  have hfit : r.toNat < UInt32.size := Nat.lt_trans r.toNat_lt (by decide)
  have hindex : (UInt32.ofNat r.toNat).toNat = r.toNat := UInt32.toNat_ofNat_of_lt' hfit
  rw [readRegister, h.read?, if_pos hfit]
  simp only [hindex, if_neg (Nat.not_le_of_lt hr), UInt8.ofNat_toNat]

theorem readImmediate_of_spells {v : UInt32} (h : Numeral.Spells true v.toNat digits) :
    readImmediate token digits = .ok v := by
  rw [readImmediate, h.read?, if_pos v.toNat_lt]
  simp only [UInt32.ofNat_toNat]

theorem readOffset?_of_form {inside : Text} {offset : Offset}
    (h : Offset.Form limits inside offset) : readOffset? limits inside = some offset := by
  cases h with
  | register number below =>
    simp [readOffset?, readRegister_of_spells number below, Except.toOption]
  | immediate number => simp [readOffset?, readImmediate_of_spells number, Except.toOption]

theorem readBank?_eq_some_iff {c : Char} {bank : Bank} :
    readBank? c = some bank ↔ c = bank.digit := by
  constructor
  · intro h
    unfold readBank? at h
    split at h
    · cases h; rfl
    · cases h; rfl
    · cases h
  · rintro rfl
    cases bank <;> rfl

/-- A word with a known sigil is read by the reader of its kind. -/
theorem read_register_eq (h : digits ≠ []) :
    Operand.read limits context ('R' :: digits) =
      (readRegister limits ('R' :: digits) digits).map .register := by
  rw [Operand.read, if_neg (Utf8.not_size_cons_lt _ h)]

theorem read_immediate_eq (h : digits ≠ []) :
    Operand.read limits context ('$' :: digits) =
      (readImmediate ('$' :: digits) digits).map .immediate := by
  rw [Operand.read, if_neg (Utf8.not_size_cons_lt _ h)]

theorem read_reference_eq (h : name ≠ []) :
    Operand.read limits context ('@' :: name) =
      (readName limits name).map (reference context) := by
  rw [Operand.read, if_neg (Utf8.not_size_cons_lt _ h)]

theorem read_memory_eq {rest : Text} (h : rest ≠ []) :
    Operand.read limits context ('M' :: rest) =
      (readMemory limits ('M' :: rest) rest).map .memory := by
  rw [Operand.read, if_neg (Utf8.not_size_cons_lt _ h)]

/-- A word is read as the operand that it has the form of. -/
theorem Form.read {o : Operand} (h : Form limits context token o) :
    Operand.read limits context token = .ok o := by
  cases h with
  | scalar h =>
    cases h with
    | register number below =>
      rw [read_register_eq number.ne_nil, readRegister_of_spells number below]
      rfl
    | immediate number =>
      rw [read_immediate_eq number.ne_nil, readImmediate_of_spells number]
      rfl
  | memory h =>
    rw [read_memory_eq (List.cons_ne_nil _ _)]
    simp only [readMemory, insideBrackets?_brackets, readBank?_eq_some_iff.mpr rfl,
      readOffset?_of_form h]
    rfl
  | label h =>
    rw [read_reference_eq h.nonempty, readName_eq_ok_iff_isName.mpr h]
    rfl
  | function h =>
    rw [read_reference_eq h.nonempty, readName_eq_ok_iff_isName.mpr h]
    rfl

/-! ## §3 What is read has the form -/

/-- A register number fits its eight bits when the machine has at most 256 registers. -/
theorem form_of_readRegister (hmax : limits.maxRegisters ≤ 256) {r : UInt8}
    (h : readRegister limits token digits = .ok r) :
    Offset.Form limits ('R' :: digits) (.register r) := by
  unfold readRegister at h
  split at h
  · cases h
  next index hread =>
    split at h
    · cases h
    next hlt =>
      cases h
      have hindex : (UInt8.ofNat index.toNat).toNat = index.toNat :=
        UInt8.toNat_ofNat_of_lt' (Nat.lt_of_lt_of_le (Nat.lt_of_not_le hlt) hmax)
      refine .register ?_ ?_
      · rw [hindex]
        exact Numeral.spells_of_read? hread
      · rw [hindex]
        exact Nat.lt_of_not_le hlt

theorem form_of_readImmediate {v : UInt32} (h : readImmediate token digits = .ok v) :
    Offset.Form limits ('$' :: digits) (.immediate v) := by
  unfold readImmediate at h
  split at h
  · cases h
  next hread =>
    cases h
    exact .immediate (Numeral.spells_of_read? hread)

theorem form_of_readOffset? (hmax : limits.maxRegisters ≤ 256) {inside : Text} {offset : Offset}
    (h : readOffset? limits inside = some offset) : Offset.Form limits inside offset := by
  unfold readOffset? at h
  split at h
  · obtain ⟨r, hr, rfl⟩ := Option.map_eq_some_iff.mp h
    exact form_of_readRegister hmax (toOption_eq_some_iff.mp hr)
  · obtain ⟨v, hv, rfl⟩ := Option.map_eq_some_iff.mp h
    exact form_of_readImmediate (toOption_eq_some_iff.mp hv)
  · cases h

theorem form_of_readMemory (hmax : limits.maxRegisters ≤ 256) {rest : Text} {m : Memory}
    (h : readMemory limits token rest = .ok m) : Form limits context ('M' :: rest) (.memory m) := by
  unfold readMemory at h
  split at h
  · cases h
  · split at h
    next hbank hinside =>
      split at h
      next hoffset =>
        cases h
        rw [readBank?_eq_some_iff.mp hbank, insideBrackets?_eq_some_iff.mp hinside]
        exact .memory (form_of_readOffset? hmax hoffset)
      · cases h
    · cases h

theorem form_of_readName {word : Text} (h : readName limits word = .ok name) :
    Form limits context ('@' :: word) (reference context name) := by
  obtain rfl := (readName_eq_ok_iff.mp h).1
  have hname := readName_eq_ok_iff_isName.mp h
  cases context with
  | plain => exact .label hname
  | call => exact .function hname

/-- The words that are read as an operand are those of its form. -/
theorem read_eq_ok_iff (hmax : limits.maxRegisters ≤ 256) {o : Operand} :
    Operand.read limits context token = .ok o ↔ Form limits context token o := by
  refine ⟨fun h => ?_, Form.read⟩
  unfold Operand.read at h
  split at h
  · cases h
  · split at h
    · obtain ⟨r, hr, rfl⟩ := map_eq_ok_iff.mp h
      exact .scalar (form_of_readRegister hmax hr)
    · obtain ⟨v, hv, rfl⟩ := map_eq_ok_iff.mp h
      exact .scalar (form_of_readImmediate hv)
    · obtain ⟨name, hname, rfl⟩ := map_eq_ok_iff.mp h
      exact form_of_readName hname
    · obtain ⟨m, hm, rfl⟩ := map_eq_ok_iff.mp h
      exact form_of_readMemory hmax hm
    · cases h

example : Operand.read {} .plain "M0[M1[R0]]".toList =
    .error (.invalidMemoryOffset "M0[M1[R0]]".toList) := rfl

end Operand

end SensorScript
