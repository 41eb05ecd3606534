/-
SensorScript.Proofs.Program.Monotone — limits only restrict, as far as the lists
of words can be reserved.

A source that is assembled under some limits is assembled under any higher
ones that fit together, to the same image and from the same tables: its script
is still one of the language and still fits, and the stages after that are not
bounded by limits at all. Only a limit on the words of a line that no list can be
reserved for makes every source panic that has a line.
-/
import SensorScript.Proofs.Program.Attempt
import SensorScript.Proofs.Program.Stages
import SensorScript.Proofs.Script.Monotone
import SensorScript.Proofs.Source.Segments

namespace SensorScript

variable {limits limits' : Limits} {source : Bytes}

theorem Compiled.mono (hle : limits.Below limits') {script : Script} {symbols : SymbolTable}
    {is : List Instruction} {ws : List MachineWord}
    (h : Compiled limits source script symbols is ws) :
    Compiled limits' source script symbols is ws := by
  obtain ⟨htables, htext⟩ := Limits.below_iff.mp hle
  exact { h with source := h.source.mono htext, within := h.within.mono htables }

namespace Program

variable {p : Program} {image : Image}

/-- Higher limits change neither the image of a source nor its tables. -/
theorem assembleProgram_mono (hle : limits.Below limits') (hvalid : limits'.check = .ok ())
    (h : assembleProgram source limits = .ok (p, image)) :
    ∃ p', assembleProgram source limits' = .ok (p', image) ∧
      p'.draft.instructions.items = p.draft.instructions.items ∧
      p'.draft.symbols.labels.items = p.draft.symbols.labels.items ∧
      p'.draft.symbols.functions.items = p.draft.symbols.functions.items := by
  obtain ⟨_, script, hcompiled, hfunctions⟩ := compiled_of_assembleProgram h
  obtain ⟨p', hp', hi, hl, hf⟩ :=
    assembleProgram_of_compiled (Limits.check_eq_ok_iff.mp hvalid) (hcompiled.mono hle)
  have himage : Image.ofWords image.words (Script.functions 0 script) = image := by
    rw [Image.ofWords, ← hfunctions]
  rw [himage] at hp'
  exact ⟨p', hp', hi, hl.trans hcompiled.labels.symm, hf.trans hcompiled.functions.symm⟩

end Program

namespace Attempt

variable {p : Program} {image : Image}

/-- Every line of a source that is assembled is split, the first of them as well, and no list can be
reserved for it under limits that are too high. -/
theorem panics_of_assembled (hle : limits.Below limits') (hvalid : limits'.check = .ok ())
    (hlarge : 2 ^ 59 ≤ limits'.maxWordsPerLine) (hne : source ≠ [])
    (h : SensorScript.assembleProgram source limits = .ok (p, image)) : Panics limits' source := by
  obtain ⟨_, script, hcompiled, _⟩ := Program.compiled_of_assembleProgram h
  obtain ⟨rows, hrows, _⟩ := (hcompiled.mono hle).source
  refine ⟨Limits.check_eq_ok_iff.mp hvalid, hlarge, ?_⟩
  cases hlines : Source.lines limits'.maxLineLen source with
  | nil => exact absurd (Source.lines_eq_nil_iff.mp hlines) hne
  | cons line lines =>
    rw [hlines] at hrows
    cases hrows with
    | cons hread _ =>
      obtain ⟨text, rfl, _⟩ := hread
      exact ⟨text, lines, rfl⟩

/-- Higher limits that hold together change neither the image of a source nor its tables. Only when
they allow 2⁵⁹ words or more on a line, assembling panics for every source but the empty one. -/
theorem assembled_under_higher_limits (hle : limits.Below limits') (hvalid : limits'.check = .ok ())
    (h : assembleProgram source limits = .ok (.ok (p, image))) :
    (limits'.maxWordsPerLine < 2 ^ 59 ∨ source = [] →
      ∃ p', assembleProgram source limits' = .ok (.ok (p', image)) ∧
        p'.draft.instructions.items = p.draft.instructions.items ∧
        p'.draft.symbols.labels.items = p.draft.symbols.labels.items ∧
        p'.draft.symbols.functions.items = p.draft.symbols.functions.items) ∧
    (2 ^ 59 ≤ limits'.maxWordsPerLine → source ≠ [] →
      assembleProgram source limits' = .error .capacityOverflow) := by
  have hassembled := assembleProgram_of_returns h
  constructor
  · intro hroom
    obtain ⟨p', hp', htables⟩ := Program.assembleProgram_mono hle hvalid hassembled
    have hreturns : ¬ Panics limits' source := by
      rintro ⟨_, hlarge, text, rest, hlines⟩
      rcases hroom with hroom | rfl
      · exact Nat.not_lt.mpr hlarge hroom
      · cases hlines
    exact ⟨p', by rw [assembleProgram_of_not_panics hreturns, hp'], htables⟩
  · intro hlarge hne
    exact assembleProgram_of_panics (panics_of_assembled hle hvalid hlarge hne hassembled)

/-- Limits under which nothing but the source fits, and all of them doubled. -/
theorem assembled_under_doubled_limits :
    let source := Utf8.encode ".function f\nL:\nJNZ R1 @L\n.endfunction".toList
    let tight : Limits :=
      { maxInstructions := 1, maxLabels := 1, maxFunctions := 1, maxLineLen := 12,
        maxWordsPerLine := 3, maxWordLen := 12, maxRegisters := 2, maxNameLen := 1, maxOperands := 2 }
    let doubled : Limits :=
      { maxInstructions := 2, maxLabels := 2, maxFunctions := 2, maxLineLen := 24,
        maxWordsPerLine := 6, maxWordLen := 24, maxRegisters := 4, maxNameLen := 2, maxOperands := 4 }
    ∃ p p' image, assembleProgram source tight = .ok (.ok (p, image)) ∧
      assembleProgram source doubled = .ok (.ok (p', image)) ∧
      p'.draft.instructions.items = p.draft.instructions.items := by
  intro source tight doubled
  have hassembled : (SensorScript.assembleProgram source tight).toOption.isSome = true := by
    decide +kernel
  obtain ⟨⟨p, image⟩, himage⟩ := Option.isSome_iff_exists.mp hassembled
  have h : assembleProgram source tight = .ok (.ok (p, image)) := by
    rw [assembleProgram_of_room (by decide), toOption_eq_some_iff.mp himage]
  have hbelow : tight.Below doubled := by decide
  obtain ⟨p', hp', hi, _⟩ := (assembled_under_higher_limits hbelow (by decide) h).1 (.inl (by decide))
  exact ⟨p, p', image, h, hp', hi⟩

/-- The highest limit on the words of a line, for which a source panics that the default limits
assemble. -/
theorem panics_under_highest_limit :
    let source := Utf8.encode ".function f\nSHL R0 $1\n.endfunction\n".toList
    let highest : Limits := { maxWordsPerLine := 0xFFFFFFFFFFFFFFFF }
    Limits.check {} = .ok () ∧ highest.check = .ok () ∧ Limits.Below {} highest ∧
      (∃ p image, assembleProgram source {} = .ok (.ok (p, image))) ∧
      assembleProgram source highest = .error .capacityOverflow := by
  intro source highest
  have hassembled : (SensorScript.assembleProgram source {}).toOption.isSome = true := by
    decide +kernel
  obtain ⟨⟨p, image⟩, himage⟩ := Option.isSome_iff_exists.mp hassembled
  have hbelow : Limits.Below {} highest := by decide
  have hvalid : highest.check = .ok () := by decide
  have h := toOption_eq_some_iff.mp himage
  refine ⟨by decide, hvalid, hbelow, ⟨p, image, ?_⟩, ?_⟩
  · rw [assembleProgram_of_room (by decide), h]
  · exact assembleProgram_of_panics (panics_of_assembled hbelow hvalid (by decide) (by decide) h)

end Attempt

end SensorScript
