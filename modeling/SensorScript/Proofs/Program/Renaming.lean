/-
SensorScript.Proofs.Program.Renaming — names do not matter.

A source that is assembled is assembled under other names as well, if these are
told apart where the old ones were and can be read and written as names. The
image has the same words and the same functions with their new names.
-/
import SensorScript.Proofs.Program.Stages
import SensorScript.Proofs.Script.Renaming

namespace SensorScript

variable {limits : Limits} {source source' : Bytes} {ρ : Renaming}

/-- The new names of all functions and labels of a symbol table are legal. -/
structure Renaming.LegalOn (ρ : Renaming) (limits : Limits) (t : SymbolTable) : Prop where
  functions : ∀ f ∈ t.functions.items, LegalName limits (ρ.function f.name)
  labels : ∀ l ∈ t.labels.items, LegalName limits (ρ.label l.owner l.name)

instance (ρ : Renaming) (limits : Limits) (t : SymbolTable) : Decidable (ρ.LegalOn limits t) :=
  decidable_of_iff ((∀ f ∈ t.functions.items, LegalName limits (ρ.function f.name)) ∧
      ∀ l ∈ t.labels.items, LegalName limits (ρ.label l.owner l.name))
    ⟨fun h => ⟨h.1, h.2⟩, fun h => ⟨h.functions, h.labels⟩⟩

/-- What a reference is linked to has a legal new name, so the reference does. -/
theorem Renaming.LegalOn.operand {t : SymbolTable} (h : ρ.LegalOn limits t) {owner : Nat}
    {o o' : Operand} (ho : Link.Resolves t owner o o') : (ρ.operand owner o).Legal limits := by
  cases ho with
  | @label s l found =>
    obtain ⟨hmem, rfl, hname⟩ := SymbolTable.of_findLabel? found
    rintro _ ⟨⟩
    show LegalName limits (ρ.label l.owner s.name)
    rw [← hname]
    exact h.labels l hmem
  | @function s i found =>
    obtain ⟨hlt, hname, _⟩ := List.findIdx?_eq_some_iff_getElem.mp found
    rintro _ ⟨⟩
    show LegalName limits (ρ.function s.name)
    rw [← of_decide_eq_true hname]
    exact h.functions _ (List.getElem_mem hlt)
  | value hvalue =>
    intro s hs
    rw [Renaming.operand_of_value hvalue, hvalue] at hs
    cases hs

namespace Compiled

variable {script : Script} {symbols : SymbolTable} {is : List Instruction} {ws : List MachineWord}

theorem legal_script (h : Compiled limits source script symbols is ws)
    (hlegal : ρ.LegalOn limits symbols) : (ρ.script 0 script).Legal limits := by
  refine @Script.legal_of_tables limits 0 0 _ ?_ ?_ ?_
  · rw [Renaming.instructions_script]
    refine List.forall_mem_map.mpr fun x hx => List.forall_mem_map.mpr fun o ho => ?_
    obtain ⟨y, _, hlinks⟩ := exists_mem_of_forall₂ h.links.flip hx
    obtain ⟨o', _, hresolves⟩ := exists_mem_of_forall₂ hlinks.operands.flip ho
    exact hlegal.operand hresolves
  · rw [Renaming.labels_script, ← h.labels]
    exact List.forall_mem_map.mpr hlegal.labels
  · rw [Renaming.functions_script, ← h.functions]
    exact List.forall_mem_map.mpr hlegal.functions

/-- The stages of a renamed source: its tables and instructions are renamed, and
its words are the same. -/
theorem renamed (h : Compiled limits source script symbols is ws)
    (hinjective : ρ.InjectiveOn symbols) (hsource : (ρ.script 0 script).OfSource limits source') :
    Compiled limits source' (ρ.script 0 script) (ρ.symbols symbols) (is.map ρ.instruction) ws where
  source := hsource
  within := ρ.within_script h.within
  labels := by
    rw [Renaming.labels_script, ← h.labels]
    rfl
  functions := by
    rw [Renaming.functions_script, ← h.functions]
    rfl
  links := by
    rw [Renaming.instructions_script, List.forall₂_map_left_iff, List.forall₂_map_right_iff]
    exact h.links.imp fun _ _ hlinks => hinjective.links hlinks
  words := by
    rw [List.forall₂_map_left_iff]
    exact h.words.imp fun _ _ hencode => Renaming.encode_operation hencode

end Compiled

namespace Program

variable {p : Program} {image : Image} {texts : List Text}

/-- Renaming the functions of a source, and the labels of each of them, changes
the names in its image and nothing else. -/
theorem assembleProgram_renamed (h : assembleProgram source limits = .ok (p, image))
    (htexts : Source.TextsOf source texts) (hinjective : ρ.InjectiveOn p.draft.symbols)
    (hlegal : ρ.LegalOn limits p.draft.symbols)
    (hreadable : ∀ text ∈ ρ.texts 0 texts, Source.Readable limits text) :
    (∃ source', Source.TextsOf source' (ρ.texts 0 texts)) ∧
      ∀ source', Source.TextsOf source' (ρ.texts 0 texts) →
        ∃ q, assembleProgram source' limits = .ok (q, ρ.image image) := by
  obtain ⟨hv, script, hcompiled, hfunctions⟩ := compiled_of_assembleProgram h
  obtain ⟨lines, hlines, hwritten⟩ := hcompiled.source
  obtain ⟨texts', htexts', _, rfl⟩ := Source.wordsOf_iff.mp hlines
  obtain rfl := htexts.unique htexts'
  have hchars := Source.isLineChar_of_textsOf htexts
  have hwords : ∀ r ∈ rowsFrom 1 (texts.map Source.words), r.OfWords := by
    intro r hr w hw
    obtain ⟨text, htext, heq⟩ := List.mem_map.mp (words_mem_of_mem_rowsFrom hr)
    exact Source.isWord_of_mem_words (hchars text htext) w (heq ▸ hw)
  obtain ⟨hrenamed, hkeep⟩ := Renaming.written_script hwritten (hcompiled.legal_script hlegal)
  obtain ⟨hrows, hkeepChars⟩ := Renaming.rowsFrom_texts (hkeep hwords)
  refine ⟨⟨_, Source.textsOf_write (hkeepChars hchars)⟩, fun source' hsource' => ?_⟩
  have hsource : (ρ.script 0 script).OfSource limits source' :=
    ⟨_, Source.wordsOf_iff.mpr ⟨_, hsource', hreadable, rfl⟩, hrows ▸ hrenamed⟩
  obtain ⟨q, hq, _⟩ := assembleProgram_of_compiled hv (hcompiled.renamed hinjective hsource)
  refine ⟨q, ?_⟩
  rw [hq, Renaming.functions_script, Image.ofWords, Renaming.image, hfunctions, List.map_map,
    List.map_map]
  rfl

/-- Two functions with labels of one name, under names that look like other words. -/
theorem assembled_under_other_names :
    let source := Utf8.encode
      ".function f\nL:\nJNZ R1,@L ;L\n.endfunction\n.function g\nL:\nCALL @f\n.endfunction".toList
    let other := Utf8.encode
      ".function R1\nMOV:\nJNZ R1,@MOV ;L\n.endfunction\n.function f\nf:\nCALL @R1\n.endfunction\r\n".toList
    let ρ : Renaming :=
      { function := fun name => if name = ['f'] then ['R', '1'] else ['f']
        label := fun owner _ => if owner = 0 then ['M', 'O', 'V'] else ['f'] }
    ∃ p q image, assembleProgram source {} = .ok (p, image) ∧
      assembleProgram other {} = .ok (q, ρ.image image) := by
  intro source other ρ
  have hchecked : ((assembleProgram source {}).toOption.map fun (p, _) =>
      decide (ρ.InjectiveOn p.draft.symbols ∧ ρ.LegalOn {} p.draft.symbols)) = some true := by
    decide +kernel
  obtain ⟨⟨p, image⟩, h, hdecide⟩ := Option.map_eq_some_iff.mp hchecked
  have h := toOption_eq_some_iff.mp h
  obtain ⟨hinjective, hlegal⟩ := of_decide_eq_true hdecide
  let texts : List Text := [".function f", "L:", "JNZ R1,@L ;L", ".endfunction",
    ".function g", "L:", "CALL @f", ".endfunction"].map String.toList
  have htexts : Source.TextsOf source texts := by decide +kernel
  have hother : Source.TextsOf other (ρ.texts 0 texts) := by decide +kernel
  have hreadable : ∀ text ∈ ρ.texts 0 texts, Source.Readable {} text := by decide +kernel
  obtain ⟨q, hq⟩ := (assembleProgram_renamed h htexts hinjective hlegal hreadable).2 other hother
  exact ⟨p, q, image, h, hq⟩

end Program

end SensorScript
