/-
SensorScript.Proofs.Program.Spelling — only the meaning of the words counts.

Two sources whose lines of words say the same in different spellings are both
assembled or both refused, and then to one image: their scripts are alike, so
they have the same tables, and their instructions are linked and encoded in
the same way. The numbers of the lines they were read from are all that tells
the programs apart. Comments and separators are not in the words at all
(`Source.words_comment`, `Source.words_gap`).
-/
import SensorScript.Proofs.Program.Stages
import SensorScript.Proofs.Script.Spelling

namespace SensorScript

variable {limits : Limits} {source source' : Bytes}

/-- Instructions alike are linked to instructions alike. -/
theorem Instruction.Alike.links {symbols : SymbolTable} {x x' y : Instruction} (h : x.Alike x')
    (hlinks : Link.Links symbols x y) : ∃ y', Link.Links symbols x' y' ∧ y.Alike y' := by
  obtain ⟨operation, owner, line⟩ := x
  obtain ⟨_, _, line'⟩ := x'
  obtain ⟨rfl, rfl⟩ := h
  exact ⟨{ y with line := line' }, ⟨hlinks.owner_eq, rfl, hlinks.opcode_eq, hlinks.operands⟩,
    rfl, rfl⟩

/-- A source of a script alike has the same symbols and the same words. -/
theorem Compiled.alike {script script' : Script} {symbols : SymbolTable} {is : List Instruction}
    {ws : List MachineWord} (h : Compiled limits source script symbols is ws)
    (hsource : script'.OfSource limits source') (halike : script.Alike script') :
    ∃ js, Compiled limits source' script' symbols js ws ∧
      List.Forall₂ Instruction.Alike is js := by
  have hlinked : List.Forall₂
      (fun x' y => ∃ y', Link.Links symbols x' y' ∧ y.Alike y')
      (Script.instructions 0 script') is := by
    refine (forall₂_comp (Script.instructions_alike halike).flip h.links).imp ?_
    rintro x' y ⟨x, hx, hlinks⟩
    exact hx.links hlinks
  obtain ⟨js, hlinks, hsame⟩ := exists_forall₂ hlinked
  refine ⟨js, ?_, hsame⟩
  refine ⟨hsource, h.within.alike halike, ?_, ?_, hlinks, ?_⟩
  · rw [Script.labels_alike halike]
    exact h.labels
  · rw [Script.functions_alike halike]
    exact h.functions
  · refine (forall₂_comp hsame.flip h.words).imp ?_
    rintro y' w ⟨y, hy, hw⟩
    rw [hy.operation_eq]
    exact hw

namespace Program

/-- Programs that differ at most in the lines of their instructions. -/
structure Alike (p q : Program) : Prop where
  instructions : List.Forall₂ Instruction.Alike p.draft.instructions.items q.draft.instructions.items
  labels : q.draft.symbols.labels.items = p.draft.symbols.labels.items
  functions : q.draft.symbols.functions.items = p.draft.symbols.functions.items

theorem exists_alike_of_assembleProgram {lines lines' : List (List Text)}
    (hlines : Source.WordsOf limits source lines) (hlines' : Source.WordsOf limits source' lines')
    (hsame : List.Forall₂ SameWords (lines.filter (· ≠ [])) (lines'.filter (· ≠ [])))
    {p : Program} {image : Image} (h : assembleProgram source limits = .ok (p, image)) :
    ∃ q, assembleProgram source' limits = .ok (q, image) ∧ p.Alike q := by
  obtain ⟨hv, script, hcompiled, hfunctions⟩ := compiled_of_assembleProgram h
  obtain ⟨script', hscript', halike⟩ := hcompiled.source.same hlines hlines' hsame
  obtain ⟨js, hjs, hinstructions⟩ := hcompiled.alike hscript' halike
  obtain ⟨q, hq, hi, hl, hf⟩ := assembleProgram_of_compiled hv hjs
  have himage : Image.ofWords image.words (Script.functions 0 script') = image := by
    rw [Script.functions_alike halike, Image.ofWords, ← hfunctions]
  rw [himage] at hq
  refine ⟨q, hq, hi ▸ hinstructions, ?_, ?_⟩
  · rw [hl, hcompiled.labels, Script.labels_alike halike]
  · rw [hf, hcompiled.functions, Script.functions_alike halike]

/-- Of two sources whose lines of words say the same, each is assembled if the
other is, to the same image and from the same tables. -/
theorem assembleProgram_of_sameWords {lines lines' : List (List Text)}
    (hlines : Source.WordsOf limits source lines) (hlines' : Source.WordsOf limits source' lines')
    (hsame : List.Forall₂ SameWords (lines.filter (· ≠ [])) (lines'.filter (· ≠ []))) :
    (∀ p image, assembleProgram source limits = .ok (p, image) →
      ∃ q, assembleProgram source' limits = .ok (q, image) ∧ p.Alike q) ∧
    ∀ q image, assembleProgram source' limits = .ok (q, image) →
      ∃ p, assembleProgram source limits = .ok (p, image) ∧ q.Alike p := by
  have hsymm := hsame.flip.imp fun _ _ h => SameWords.symm h
  exact ⟨fun _ _ h => exists_alike_of_assembleProgram hlines hlines' hsame h,
    fun _ _ h => exists_alike_of_assembleProgram hlines' hlines hsymm h⟩

/-- One function with and without comments, blank lines and other spellings. -/
theorem assembled_in_other_words :
    let plain := Utf8.encode ".function f\nL:\nMOVDW M1[R2] $10\nJNZ R1 @L\n.endfunction".toList
    let other := Utf8.encode
      "; f\r\n\t.function\tf;opened\n\nL:\nMOV M1[R02],$0x0A\r\nJNZ  R01, @L\n .endfunction\n".toList
    ∃ p q image, assembleProgram plain {} = .ok (p, image) ∧
      assembleProgram other {} = .ok (q, image) ∧ p.Alike q := by
  intro plain other
  have hassembled : (assembleProgram plain {}).toOption.isSome = true := by decide +kernel
  obtain ⟨⟨p, image⟩, h⟩ := Option.isSome_iff_exists.mp hassembled
  have h := toOption_eq_some_iff.mp h
  have hlines : Source.WordsOf {} plain
      ([".function f", "L:", "MOVDW M1[R2] $10", "JNZ R1 @L", ".endfunction"].map
        (Source.words ·.toList)) := by decide +kernel
  have hlines' : Source.WordsOf {} other
      (["", ".function f", "", "L:", "MOV M1[R02] $0x0A", "JNZ R01 @L", ".endfunction"].map
        (Source.words ·.toList)) := by decide +kernel
  have hregister : Numeral.Same false ['2'] ['0', '2'] :=
    ⟨2, Numeral.spells_iff.mpr rfl, Numeral.spells_iff.mpr rfl⟩
  have himmediate : Numeral.Same true ['1', '0'] ['0', 'x', '0', 'A'] :=
    ⟨10, Numeral.spells_iff.mpr rfl, Numeral.spells_iff.mpr rfl⟩
  have hcounter : Numeral.Same false ['1'] ['0', '1'] :=
    ⟨1, Numeral.spells_iff.mpr rfl, Numeral.spells_iff.mpr rfl⟩
  obtain ⟨hto, _⟩ := assembleProgram_of_sameWords hlines hlines' <|
    .cons (.same _) <| .cons (.same _) <|
    .cons (.instruction (by decide) .short <|
      .cons (.memory (.register hregister)) <| .cons (.scalar (.immediate himmediate)) .nil) <|
    .cons (.instruction (by decide) (.same _) <|
      .cons (.scalar (.register hcounter)) <| .cons (.same _) .nil) <|
    .cons (.same _) .nil
  obtain ⟨q, hq, halike⟩ := hto p image h
  exact ⟨p, q, image, h, hq, halike⟩

end Program

end SensorScript
