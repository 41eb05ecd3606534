/-
SensorScript.Limits — the nine capacity limits of one compile.

Every table, line, word and name of a script is bounded by one of them.
`Limits.check` tells whether the limits fit together; the reader and the
tables use them as they are, checked or not.
-/
import SensorScript.Text

namespace SensorScript

/-- Capacity limits of one compile. -/
structure Limits where
  maxInstructions : Nat := 256
  maxLabels : Nat := 128
  maxFunctions : Nat := 32
  /-- In bytes, carriage returns not counted. -/
  maxLineLen : Nat := 256
  maxWordsPerLine : Nat := 8
  /-- In characters. -/
  maxWordLen : Nat := 64
  /-- Registers are R0 up to one less than this. -/
  maxRegisters : Nat := 16
  /-- In characters. -/
  maxNameLen : Nat := 32
  maxOperands : Nat := 4
  deriving DecidableEq, Inhabited

/-- Limits that cannot be used together. -/
inductive LimitsError where
  | zero (limit : String)
  | tooManyRegisters (registers : Nat)
  | nameLongerThanWord (name word : Nat)
  deriving DecidableEq

def LimitsError.message : LimitsError → String
  | .zero limit => s!"limit '{limit}' must be greater than zero"
  | .tooManyRegisters n => s!"max_registers {n} exceeds the encodable maximum of 64"
  | .nameLongerThanWord name word => s!"max_name_len {name} exceeds max_word_len {word}"

namespace Limits

/-! ## §1 The limits by name -/

/-- One limit, with the name it has in a limits file. -/
structure Entry where
  name : String
  get : Limits → Nat
  set : Nat → Limits → Limits

/-- All limits, in the order of a positional limits file. -/
def entries : List Entry := [
  ⟨"max_instructions", maxInstructions, fun n l => { l with maxInstructions := n }⟩,
  ⟨"max_labels", maxLabels, fun n l => { l with maxLabels := n }⟩,
  ⟨"max_functions", maxFunctions, fun n l => { l with maxFunctions := n }⟩,
  ⟨"max_line_len", maxLineLen, fun n l => { l with maxLineLen := n }⟩,
  ⟨"max_words_per_line", maxWordsPerLine, fun n l => { l with maxWordsPerLine := n }⟩,
  ⟨"max_word_len", maxWordLen, fun n l => { l with maxWordLen := n }⟩,
  ⟨"max_registers", maxRegisters, fun n l => { l with maxRegisters := n }⟩,
  ⟨"max_name_len", maxNameLen, fun n l => { l with maxNameLen := n }⟩,
  ⟨"max_operands", maxOperands, fun n l => { l with maxOperands := n }⟩]

/-! ## §2 Validity -/

/-- Registers that the six-bit register fields of an instruction can name. -/
def encodableRegisters : Nat := 64

/-- The first reason why the limits cannot be used: a limit that is zero, then
more registers than an instruction can name, then a name limit above the word
limit, under which a legal name could be too long a word. -/
def check (l : Limits) : Except LimitsError Unit :=
  match entries.find? (fun e => e.get l = 0) with
  | some e => .error (.zero e.name)
  | none =>
    if encodableRegisters < l.maxRegisters then .error (.tooManyRegisters l.maxRegisters)
    else if l.maxWordLen < l.maxNameLen then
      .error (.nameLongerThanWord l.maxNameLen l.maxWordLen)
    else .ok ()

/-- Limits that fit together. -/
structure Valid (l : Limits) : Prop where
  pos : ∀ e ∈ entries, 0 < e.get l
  registers : l.maxRegisters ≤ encodableRegisters
  names : l.maxNameLen ≤ l.maxWordLen

theorem check_eq_ok_iff {l : Limits} : l.check = .ok () ↔ l.Valid := by
  unfold check
  split
  next e he =>
    constructor
    · intro h; cases h
    · intro h
      have hm := List.mem_of_find?_eq_some he
      have hz := List.find?_some he
      have := h.pos e hm
      simp only [decide_eq_true_eq] at hz
      omega
  next hn =>
    have hpos : ∀ e ∈ entries, 0 < e.get l := by
      intro e he
      have := List.find?_eq_none.mp hn e he
      simp only [decide_eq_true_eq] at this
      omega
    split
    · constructor
      · intro h; cases h
      · intro h; have := h.registers; omega
    · split
      · constructor
        · intro h; cases h
        · intro h; have := h.names; omega
      · exact ⟨fun _ => ⟨hpos, by omega, by omega⟩, fun _ => rfl⟩

end Limits

end SensorScript
