/-
SensorScript.Proofs.Draft.Step — what a statement that is carried out does.

`Step` has one case for every statement that `apply` can carry out, with the
guards it passed and the draft it gave; `apply_eq_ok_iff` says that it has all
of them. What every statement preserves is proved by cases on `Step`, and
what every source preserves by one induction over its lines (`readLines_rec`).
-/
import SensorScript.Draft
import SensorScript.Proofs.Except

namespace SensorScript

/-! ## §1 Names -/

/-- A name is taken as it is written, when it is not empty, holds no reserved
character and is not too long. -/
theorem readName_eq_ok_iff {limits : Limits} {word name : Text} :
    Operand.readName limits word = .ok name ↔
      name = word ∧ word ≠ [] ∧ word.any Operand.isReserved = false ∧
        word.length ≤ limits.maxNameLen := by
  unfold Operand.readName
  split
  next h =>
    constructor
    · intro h'; cases h'
    · rintro ⟨_, hne, hany, _⟩
      rcases h with h | h
      · exact absurd h hne
      · rw [hany] at h; cases h
  next h =>
    obtain ⟨hne, hany⟩ := not_or.mp h
    split
    next hlen =>
      constructor
      · intro h'; cases h'
      · rintro ⟨_, _, _, hle⟩; omega
    next hlen =>
      constructor
      · intro h'; cases h'
        exact ⟨rfl, hne, Bool.eq_false_iff.mpr hany, Nat.le_of_not_lt hlen⟩
      · rintro ⟨rfl, _⟩; rfl

namespace Draft

/-! ## §2 Statements -/

/-- The statement can be carried out on the draft and gives the other one. -/
inductive Step (d : Draft) (line : Nat) : Statement → Draft → Prop
  | empty : Step d line .empty d
  | openFunction {name functions}
      (closed : d.openName? = none)
      (allowed : Operand.readName d.limits name = .ok name)
      (pushed : d.symbols.functions.push ⟨name, d.instructions.size, d.instructions.size⟩ =
        .ok functions) :
      Step d line (.directive .function [name])
        { d with symbols := { d.symbols with functions },
                 current := some d.symbols.functions.size }
  | closeFunction {i} (opened : d.current = some i) :
      Step d line (.directive .endFunction [])
        { d with symbols := d.symbols.setStop i d.instructions.size, current := none }
  | addLabel {owner word labels}
      (opened : d.current = some owner)
      (allowed : Operand.readName d.limits word.dropLast = .ok word.dropLast)
      (pushed : d.symbols.labels.push ⟨word.dropLast, d.instructions.size, owner⟩ = .ok labels) :
      Step d line (.label word []) { d with symbols := { d.symbols with labels } }
  | addInstruction {owner op arguments operation instructions}
      (opened : d.current = some owner)
      (read : readOperation d.limits op arguments = .ok operation)
      (pushed : d.instructions.push ⟨operation, owner, line⟩ = .ok instructions) :
      Step d line (.instruction op arguments) { d with instructions }

variable {d d' : Draft} {line : Nat} {s : Statement}

theorem Step.of_openFunction {word : Text} (h : d.openFunction word = .ok d') :
    Step d line (.directive .function [word]) d' := by
  unfold Draft.openFunction at h
  split at h
  · cases h
  next hclosed =>
    obtain ⟨name, hn, h⟩ := bind_eq_ok_iff.mp h
    obtain ⟨symbols, hs, h⟩ := bind_eq_ok_iff.mp h
    have hn := mapError_eq_ok_iff.mp hn
    obtain ⟨functions, hpush, rfl⟩ := map_eq_ok_iff.mp (mapError_eq_ok_iff.mp hs)
    cases h
    obtain rfl := (readName_eq_ok_iff.mp hn).1
    exact .openFunction hclosed hn hpush

theorem Step.of_closeFunction (h : d.closeFunction = .ok d') :
    Step d line (.directive .endFunction []) d' := by
  unfold Draft.closeFunction at h
  split at h
  · cases h
  next hopen => cases h; exact .closeFunction hopen

theorem Step.of_addLabel {word : Text} (h : d.addLabel word = .ok d') :
    Step d line (.label word []) d' := by
  unfold Draft.addLabel at h
  split at h
  · cases h
  next hopen =>
    obtain ⟨name, hn, h⟩ := bind_eq_ok_iff.mp h
    obtain ⟨symbols, hs, h⟩ := bind_eq_ok_iff.mp h
    have hn := mapError_eq_ok_iff.mp hn
    obtain ⟨labels, hpush, rfl⟩ := map_eq_ok_iff.mp (mapError_eq_ok_iff.mp hs)
    cases h
    obtain rfl := (readName_eq_ok_iff.mp hn).1
    exact .addLabel hopen hn hpush

theorem Step.of_addInstruction {op : Opcode} {arguments : List Text}
    (h : d.addInstruction line op arguments = .ok d') :
    Step d line (.instruction op arguments) d' := by
  unfold Draft.addInstruction at h
  split at h
  · cases h
  next hopen =>
    obtain ⟨operation, hr, h⟩ := bind_eq_ok_iff.mp h
    obtain ⟨instructions, hi, h⟩ := bind_eq_ok_iff.mp h
    cases h
    exact .addInstruction hopen hr (mapError_eq_ok_iff.mp hi)

/-- A statement is carried out exactly as one of the steps. -/
theorem apply_eq_ok_iff : d.apply line s = .ok d' ↔ Step d line s d' := by
  constructor
  · intro h
    unfold apply at h
    split at h
    · cases h; exact .empty
    · exact .of_addInstruction h
    · exact .of_openFunction h
    · exact .of_closeFunction h
    · cases h
    · exact .of_addLabel h
    · cases h
    · cases h
    · cases h
  · intro h
    cases h with
    | empty => rfl
    | openFunction hclosed hn hpush =>
      simp only [apply, openFunction, hclosed]
      exact bind_eq_ok_iff.mpr ⟨_, mapError_eq_ok_iff.mpr hn, bind_eq_ok_iff.mpr
        ⟨_, mapError_eq_ok_iff.mpr (map_eq_ok_iff.mpr ⟨_, hpush, rfl⟩), rfl⟩⟩
    | closeFunction hopen => simp only [apply, closeFunction, hopen]
    | addLabel hopen hn hpush =>
      simp only [apply, addLabel, hopen]
      exact bind_eq_ok_iff.mpr ⟨_, mapError_eq_ok_iff.mpr hn, bind_eq_ok_iff.mpr
        ⟨_, mapError_eq_ok_iff.mpr (map_eq_ok_iff.mpr ⟨_, hpush, rfl⟩), by rw [← hopen]; rfl⟩⟩
    | addInstruction hopen hr hpush =>
      simp only [apply, addInstruction, hopen]
      exact bind_eq_ok_iff.mpr ⟨_, hr, bind_eq_ok_iff.mpr
        ⟨_, mapError_eq_ok_iff.mpr hpush, by rw [← hopen]; rfl⟩⟩

theorem Step.limits_eq (h : Step d line s d') : d'.limits = d.limits := by
  cases h <;> rfl

/-! ## §3 Lines -/

/-- The words of a line, when the reader and the word limits accept it. -/
def lineWords (limits : Limits) (text : Except Source.LineError Text) :
    Except ParseError (List Text) := do
  let text ← text.mapError .line
  (Source.splitWords limits text).mapError .words

theorem readLine_eq_ok_iff {text : Except Source.LineError Text} :
    d.readLine line text = .ok d' ↔
      ∃ words, lineWords d.limits text = .ok words ∧ Step d line (.ofWords words) d' := by
  constructor
  · intro h
    obtain ⟨t, ht, h⟩ := bind_eq_ok_iff.mp h
    obtain ⟨words, hw, h⟩ := bind_eq_ok_iff.mp h
    exact ⟨words, bind_eq_ok_iff.mpr ⟨t, ht, hw⟩, apply_eq_ok_iff.mp h⟩
  · rintro ⟨words, hw, h⟩
    obtain ⟨t, ht, hw⟩ := bind_eq_ok_iff.mp hw
    exact bind_eq_ok_iff.mpr ⟨t, ht, bind_eq_ok_iff.mpr ⟨words, hw, apply_eq_ok_iff.mpr h⟩⟩

/-- What every step preserves, reading preserves, also when it stops early. -/
theorem readLines_rec {P : Draft → Prop}
    (step : ∀ {d d' : Draft} {line : Nat} {s : Statement}, Step d line s d' → P d → P d')
    (texts : List (Except Source.LineError Text)) {d : Draft} (line : Nat) (h : P d) :
    P (d.readLines line texts).1 := by
  induction texts generalizing d line with
  | nil => exact h
  | cons text texts ih =>
    cases ht : d.readLine line text with
    | error e => rw [readLines_cons_error ht]; exact h
    | ok d₁ =>
      rw [readLines_cons_ok ht]
      obtain ⟨words, _, hs⟩ := readLine_eq_ok_iff.mp ht
      exact ih (line + 1) (step hs h)

/-- Reading stops at a line exactly when the lines before it are read and it is
refused, whatever follows it. -/
theorem readLines_eq_error_iff {texts : List (Except Source.LineError Text)} {error : Located} :
    d.readLines line texts = (d', .error error) ↔
      ∃ first text rest, texts = first ++ text :: rest ∧ error.line = line + first.length ∧
        d.readLines line first = (d', .ok ()) ∧ d'.readLine error.line text = .error error.error := by
  constructor
  · intro h
    induction texts generalizing d line with
    | nil => cases h
    | cons text texts ih =>
      cases ht : d.readLine line text with
      | error e =>
        rw [readLines_cons_error ht] at h
        cases h
        exact ⟨[], text, texts, rfl, rfl, rfl, ht⟩
      | ok d₁ =>
        rw [readLines_cons_ok ht] at h
        obtain ⟨first, text', rest, rfl, hline, hfirst, herror⟩ := ih h
        refine ⟨text :: first, text', rest, rfl, ?_, ?_, herror⟩
        · rw [hline, List.length_cons, Nat.add_assoc, Nat.add_comm 1]
        · rw [readLines_cons_ok ht]
          exact hfirst
  · rintro ⟨first, text, rest, rfl, hline, hfirst, herror⟩
    rw [readLines_append first _ hfirst, ← hline, readLines_cons_error herror]

theorem readSource_fst (d : Draft) (source : Bytes) :
    (d.readSource source).1 =
      (d.readLines 1 (Source.lines d.limits.maxLineLen source)).1 := by
  unfold readSource
  simp only
  split
  next heq => rw [heq]
  next heq => rw [heq]; split <;> rfl

end Draft

end SensorScript
