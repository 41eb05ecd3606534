/-
SensorScript.Proofs.Program.Attempt — when assembling panics.

For limits of 2⁵⁹ words or more on a line no list of words can be reserved,
whatever is on the line, so the first line that is split panics. That is the first
line of the source: when it cannot be read the source is refused before any line
is split. In all other cases each call returns what it comes to with the lists
(`assembleProgram_of_not_panics`).

  §1 lines and sources;
  §2 whole scripts.
-/
import SensorScript.Program.Attempt
import SensorScript.Proofs.Draft.Step
import SensorScript.Proofs.Program.Tables
import SensorScript.Proofs.Source.Words

namespace SensorScript

variable {limits : Limits} {source : Bytes}

namespace Attempt

/-! ## §1 Lines and sources -/

variable {d : Draft}

theorem readLine_of_room (h : d.limits.maxWordsPerLine < 2 ^ 59) (line : Nat)
    (text : Except Source.LineError Text) :
    readLine d line text = .ok (d.readLine line text) := by
  cases text with
  | error e => rfl
  | ok text =>
    simp only [readLine, Draft.readLine, Source.split_of_room h, Except.mapError, bind, Except.bind]
    cases Source.splitWords d.limits text with
    | error e => rfl
    | ok words => rfl

/-- The first of some lines is split, and no list can be reserved for it. -/
structure StartsWithPanic (limits : Limits) (lines : List (Except Source.LineError Text)) :
    Prop where
  large : 2 ^ 59 ≤ limits.maxWordsPerLine
  line : ∃ text rest, lines = .ok text :: rest

theorem readLines_of_panic {lines : List (Except Source.LineError Text)}
    (h : StartsWithPanic d.limits lines) (line : Nat) :
    readLines d line lines = .error .capacityOverflow := by
  obtain ⟨hlarge, text, rest, rfl⟩ := h
  rw [readLines, readLine, Source.split_of_no_room hlarge]
  rfl

theorem readLines_of_room (h : d.limits.maxWordsPerLine < 2 ^ 59) (line : Nat)
    (lines : List (Except Source.LineError Text)) :
    readLines d line lines = .ok (d.readLines line lines) := by
  induction lines generalizing d line with
  | nil => rfl
  | cons text rest ih =>
    rw [readLines, readLine_of_room h]
    cases hread : d.readLine line text with
    | error e => rw [Draft.readLines_cons_error hread]; rfl
    | ok d' =>
      obtain ⟨_, _, hstep⟩ := Draft.readLine_eq_ok_iff.mp hread
      rw [Draft.readLines_cons_ok hread]
      exact ih (hstep.limits_eq ▸ h) (line + 1)

theorem readLines_of_not_panic {lines : List (Except Source.LineError Text)}
    (h : ¬ StartsWithPanic d.limits lines) (line : Nat) :
    readLines d line lines = .ok (d.readLines line lines) := by
  by_cases hroom : d.limits.maxWordsPerLine < 2 ^ 59
  · exact readLines_of_room hroom line lines
  cases lines with
  | nil => rfl
  | cons text rest =>
    cases text with
    | ok text => exact absurd ⟨Nat.le_of_not_lt hroom, text, rest, rfl⟩ h
    | error e => rfl

theorem readSource_of_panic
    (h : StartsWithPanic d.limits (Source.lines d.limits.maxLineLen source)) :
    readSource d source = .error .capacityOverflow := by
  simp only [readSource, readLines_of_panic h]
  rfl

theorem readSource_of_not_panic
    (h : ¬ StartsWithPanic d.limits (Source.lines d.limits.maxLineLen source)) :
    readSource d source = .ok (d.readSource source) := by
  simp only [readSource, Draft.readSource, readLines_of_not_panic h]
  rcases d.readLines 1 (Source.lines d.limits.maxLineLen source) with ⟨d', e | _⟩
  · rfl
  · simp only [bind, Except.bind]
    cases d'.openName? with
    | none => rfl
    | some name => rfl

/-! ## §2 Whole scripts -/

/-- The limits hold together, no list of words can be reserved with them, and there is a first
line that is to be split. -/
structure Panics (limits : Limits) (source : Bytes) : Prop where
  valid : limits.Valid
  start : StartsWithPanic limits (Source.lines limits.maxLineLen source)

theorem check_of_panics (h : Panics limits source) :
    check source limits = .error .capacityOverflow := by
  rw [check, Program.new_eq_ok_iff.mpr ⟨h.valid, rfl⟩]
  simp only [parse, if_true, readSource_of_panic (d := .empty limits) h.start]
  rfl

theorem check_of_not_panics (h : ¬ Panics limits source) :
    check source limits = .ok (Program.check source limits) := by
  rw [check, Program.check]
  cases hnew : Program.new limits with
  | error e => rfl
  | ok p =>
    obtain ⟨hvalid, rfl⟩ := Program.new_eq_ok_iff.mp hnew
    have hread := readSource_of_not_panic (d := .empty limits) fun hstart => h ⟨hvalid, hstart⟩
    simp only [parse, Program.parse, Program.inStage, Call.stage, if_true, hread, bind,
      Except.bind]
    rcases (Draft.empty limits).readSource source with ⟨d, e | _⟩
    · rfl
    · simp only [pure, Except.pure]
      rcases Program.link _ with ⟨p, e | _⟩
      · rfl
      · rfl

theorem assembleProgram_of_panics (h : Panics limits source) :
    assembleProgram source limits = .error .capacityOverflow := by
  rw [assembleProgram, check_of_panics h]
  rfl

/-- What does not panic comes to what it comes to with the lists. -/
theorem assembleProgram_of_not_panics (h : ¬ Panics limits source) :
    assembleProgram source limits = .ok (SensorScript.assembleProgram source limits) := by
  rw [assembleProgram, check_of_not_panics h, SensorScript.assembleProgram]
  cases Program.check source limits with
  | error e => rfl
  | ok p =>
    simp only [bind, Except.bind]
    rcases p.encode with ⟨p, e | image⟩
    · rfl
    · rfl

theorem panics_iff :
    Panics limits source ↔ assembleProgram source limits = .error .capacityOverflow := by
  constructor
  · exact assembleProgram_of_panics
  · intro h
    by_contra hnot
    rw [assembleProgram_of_not_panics hnot] at h
    cases h

theorem assembleProgram_of_room (h : limits.maxWordsPerLine < 2 ^ 59) (source : Bytes) :
    assembleProgram source limits = .ok (SensorScript.assembleProgram source limits) :=
  assembleProgram_of_not_panics fun hpanics => Nat.not_lt.mpr hpanics.start.large h

/-- What is returned is what the source comes to with the lists. -/
theorem assembleProgram_of_returns {r : Except AssembleError (Program × Image)}
    (h : assembleProgram source limits = .ok r) :
    SensorScript.assembleProgram source limits = r := by
  have hnot : ¬ Panics limits source := by
    rw [panics_iff, h]
    nofun
  rw [assembleProgram_of_not_panics hnot] at h
  exact Except.ok.inj h

end Attempt

end SensorScript
