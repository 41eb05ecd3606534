/-
SensorScript.Proofs.Program.Stages — what a source is assembled to, told by
its script.

`Compiled` names what each stage leaves: the script of the source, its tables,
its instructions linked in them, and their words. A source is assembled
exactly when there is all of this, so what changes a source or its limits can
be followed stage by stage, without the drafts and programs in between.
-/
import SensorScript.Proofs.Program.Assemble
import SensorScript.Proofs.Relocation

namespace SensorScript

/-- The stages of a source: its script fits the tables, and its instructions
are linked in its symbols and then encoded. -/
structure Compiled (limits : Limits) (source : Bytes) (script : Script) (symbols : SymbolTable)
    (instructions : List Instruction) (words : List MachineWord) : Prop where
  source : script.OfSource limits source
  within : script.Within limits
  labels : symbols.labels.items = Script.labels 0 0 script
  functions : symbols.functions.items = Script.functions 0 script
  links : List.Forall₂ (Link.Links symbols) (Script.instructions 0 script) instructions
  words : List.Forall₂ (fun x w => x.operation.encode = .ok w) instructions words

namespace Compiled

variable {limits : Limits} {source : Bytes} {script : Script} {symbols : SymbolTable}
  {is : List Instruction} {ws : List MachineWord}

theorem length_instructions (h : Compiled limits source script symbols is ws) :
    is.length = script.count := by
  rw [← h.links.length_eq, Script.length_instructions]

theorem size_functions (h : Compiled limits source script symbols is ws) :
    symbols.functions.size = script.length := by
  rw [Table.size, h.functions, Script.length_functions]

end Compiled

namespace Program

variable {limits : Limits} {source : Bytes} {p : Program} {image : Image}

theorem compiled_of_assembleProgram (h : assembleProgram source limits = .ok (p, image)) :
    limits.Valid ∧ ∃ script,
      Compiled limits source script p.draft.symbols p.draft.instructions.items image.words ∧
      image.functions = (Script.functions 0 script).map Image.entryOf := by
  obtain ⟨p₀, words, hcheck, hall, hp, rfl⟩ := assembleProgram_eq_ok h
  obtain ⟨hv, d, d', n, hread, hlink, rfl⟩ := check_eq_ok_iff.mp hcheck
  obtain ⟨script, hscript, hextends⟩ := Script.readSource_empty_iff.mp hread
  have hfills := Script.fills_of_extends hextends
  obtain ⟨hsymbols, hlinks⟩ :=
    ((Draft.Sound.empty limits).readSource hread).links hfills.current_eq hlink
  rw [hfills.instructions] at hlinks
  rw [hp, hsymbols]
  refine ⟨hv, script, ?_, congrArg _ hfills.functions⟩
  exact ⟨hscript, Script.exists_extends_iff.mp ⟨d, hextends⟩, hfills.labels, hfills.functions,
    hlinks, List.forall₂_map_left_iff.mp (encodeFrom_eq_ok_iff.mp hall)⟩

theorem assembleProgram_of_compiled (hv : limits.Valid) {script : Script} {symbols : SymbolTable}
    {instructions : List Instruction} {words : List MachineWord}
    (h : Compiled limits source script symbols instructions words) :
    ∃ p, assembleProgram source limits = .ok (p, .ofWords words (Script.functions 0 script)) ∧
      p.draft.instructions.items = instructions ∧
      p.draft.symbols.labels.items = Script.labels 0 0 script ∧
      p.draft.symbols.functions.items = Script.functions 0 script := by
  obtain ⟨d, hextends⟩ := Script.exists_extends_iff.mpr h.within
  have hfills := Script.fills_of_extends hextends
  have hread := Script.readSource_empty_iff.mpr ⟨script, h.source, hextends⟩
  have hsame := SymbolTable.embeds_of_items_eq (hfills.labels.trans h.labels.symm)
    (hfills.functions.trans h.functions.symm)
  have hlinks : List.Forall₂ (Link.Links d.symbols) d.instructions.items instructions := by
    rw [hfills.instructions]
    exact h.links.imp fun x y hxy => hxy.of_embeds hsame
  obtain ⟨d', n, hlink, hsymbols, rfl⟩ :=
    ((Draft.Sound.empty limits).readSource hread).link_of_links hfills.current_eq hlinks
  have hcheck := check_eq_ok_iff.mpr ⟨hv, d, d', n, hread, hlink, rfl⟩
  have hall : encodeAll d'.instructions.items = .ok words :=
    encodeFrom_eq_ok_iff.mpr (List.forall₂_map_left_iff.mpr h.words)
  refine ⟨{ draft := d', stage := .encoded }, bind_eq_ok_iff.mpr ⟨_, hcheck, ?_⟩, rfl, ?_, ?_⟩
  · simp only [encode, inStage, Call.stage, if_true, hall]
    rw [hsymbols, hfills.functions]
  · rw [hsymbols]
    exact hfills.labels
  · rw [hsymbols]
    exact hfills.functions

end Program

end SensorScript
