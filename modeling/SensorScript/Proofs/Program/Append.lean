/-
SensorScript.Proofs.Program.Append — a source assembled behind another one.

Both scripts keep their words. Those of the second have its jumps and calls
raised by the instructions and functions of the first, whatever labels and
functions of one name there are in both: a label is looked up in its own
function, and the functions of the first script are found first, so only a
call of one of these would be changed.
-/
import SensorScript.Proofs.MachineWord.Relocation
import SensorScript.Proofs.Program.Stages
import SensorScript.Proofs.Script.Append

namespace SensorScript

/-! ## §1 Functions -/

/-- The second entry is the first one, `n` words further on. -/
structure ImageFunction.Moved (n : Nat) (f g : ImageFunction) : Prop where
  name_eq : g.name = f.name
  start_eq : g.start.toNat = f.start.toNat + n
  stop_eq : g.stop.toNat = f.stop.toNat + n

theorem Image.moved_entryOf_span (s : Shift) {f : FunctionSpan} (horder : f.start ≤ f.stop)
    (hstop : f.stop + s.instructions < UInt32.size) :
    (entryOf f).Moved s.instructions (entryOf (s.span f)) where
  name_eq := rfl
  start_eq := by
    show (UInt32.ofNat (f.start + s.instructions)).toNat = (UInt32.ofNat f.start).toNat + _
    rw [UInt32.toNat_ofNat_of_lt' (by omega), UInt32.toNat_ofNat_of_lt' (by omega)]
  stop_eq := by
    show (UInt32.ofNat (f.stop + s.instructions)).toNat = (UInt32.ofNat f.stop).toNat + _
    rw [UInt32.toNat_ofNat_of_lt' hstop, UInt32.toNat_ofNat_of_lt' (by omega)]

namespace Script

/-- Every function covers instructions of the script. -/
theorem stop_le_of_mem_functions {index : Nat} {script : Script} :
    ∀ f ∈ functions index script, f.start ≤ f.stop ∧ f.stop ≤ index + count script := by
  induction script generalizing index with
  | nil => exact nofun
  | cons b script ih =>
    rw [count_cons, ← Nat.add_assoc]
    exact List.forall_mem_cons.mpr ⟨⟨Nat.le_add_right _ _, Nat.le_add_right _ _⟩,
      fun f hf => ⟨(ih f hf).1, (ih f hf).2⟩⟩

/-- The entries of functions that are moved are moved entries. -/
theorem moved_functions (s : Shift) {script : Script}
    (hsize : count script + s.instructions < UInt32.size) :
    List.Forall₂ (ImageFunction.Moved s.instructions)
      ((functions 0 script).map Image.entryOf)
      (((functions 0 script).map s.span).map Image.entryOf) := by
  rw [List.forall₂_map_left_iff, List.map_map, List.forall₂_map_right_iff, List.forall₂_same]
  intro f hf
  obtain ⟨horder, hstop⟩ := stop_le_of_mem_functions f hf
  exact Image.moved_entryOf_span s horder (by omega)

end Script

/-! ## §2 Two sources -/

namespace Compiled

variable {limits : Limits} {a b : Bytes} {sa sb : Script} {ta tb : SymbolTable}
  {is js : List Instruction} {ws vs : List MachineWord}

/-- The stages of two sources one after the other. Calls in the second source
have to be of its own functions, and its references to stay in reach. -/
theorem append (ha : Compiled limits a sa ta is ws) (hb : Compiled limits b sb tb js vs)
    (hend : Source.Ended a) (hwithin : Script.Within limits (sa ++ sb.behind a))
    (hcalls : ∀ f ∈ ta.functions.items, ∀ y ∈ js, ∀ o ∈ y.operation.operands, ¬ o.Calls f.name)
    (hreach : ∀ y ∈ js, ∀ o ∈ y.operation.operands, o.InReach sa.count sa.length) :
    ∃ t us, Compiled limits (a ++ b) (sa ++ sb.behind a) t
        (is ++ js.map (sa.shift a).instruction) (ws ++ us) ∧
      List.Forall₂ (MachineWord.Relocated sa.count sa.length) vs us := by
  obtain ⟨d, hd⟩ := Script.exists_extends_iff.mpr hwithin
  have hfills := Script.fills_of_extends hd
  have hjoins := Script.joins sa sb a ha.labels ha.functions hb.labels hb.functions hfills.labels
    hfills.functions
  have hfirst : List.Forall₂ (Link.Links d.symbols) (Script.instructions 0 sa) is :=
    ha.links.imp fun x y hxy => hxy.of_embeds hjoins.embeds_left
  have hsecond : List.Forall₂ (Link.Links d.symbols)
      ((Script.instructions 0 sb).map (sa.shift a).place) (js.map (sa.shift a).instruction) := by
    rw [List.forall₂_map_left_iff, List.forall₂_map_right_iff]
    refine forall₂_imp_mem hb.links fun x _ y hy hxy => hxy.shift hjoins.embeds_right ?_
    rintro o ho name hname f hf rfl
    exact hcalls f hf y hy o ho hname
  obtain ⟨us, hus, hmoved⟩ : ∃ us,
      List.Forall₂ (fun y u => ((sa.shift a).operation y.operation).encode = .ok u) js us ∧
        List.Forall₂ (MachineWord.Relocated sa.count sa.length) vs us := by
    refine exists_forall₂ (forall₂_imp_mem hb.words ?_)
    intro y hy v _ hv
    exact encode_of_shift (sa.shift a) hv (hreach y hy)
  refine ⟨d.symbols, us, ⟨ha.source.append hb.source hend, hwithin, hfills.labels,
    hfills.functions, ?_, List.rel_append ha.words (List.forall₂_map_left_iff.mpr hus)⟩, hmoved⟩
  rw [Script.instructions_behind]
  exact List.rel_append hfirst hsecond

end Compiled

namespace Program

variable {limits : Limits} {a b : Bytes} {p q : Program} {imageA imageB : Image}

/-- Two sources that are assembled are assembled one after the other, too, if
the first ends its last line, the tables have room for both, the second calls
no name of a function of the first, and its targets stay in reach behind it.
The words and functions of the first source come first, and then those of the
second: its jump targets are raised by the number of instructions of the
first, its call targets by the number of functions, and its functions start
and stop by the number of instructions later. -/
theorem assembleProgram_append (ha : assembleProgram a limits = .ok (p, imageA))
    (hb : assembleProgram b limits = .ok (q, imageB)) (hend : Source.Ended a)
    (hsize : (a ++ b).length < UInt32.size)
    (hinstructions : p.draft.instructions.size + q.draft.instructions.size ≤ limits.maxInstructions)
    (hlabels : p.draft.symbols.labels.size + q.draft.symbols.labels.size ≤ limits.maxLabels)
    (hfunctions : p.draft.symbols.functions.size + q.draft.symbols.functions.size ≤
      limits.maxFunctions)
    (hcalls : ∀ f ∈ p.draft.symbols.functions.items, ∀ x ∈ q.draft.instructions.items,
      ∀ o ∈ x.operation.operands, ¬ o.Calls f.name)
    (hreach : ∀ x ∈ q.draft.instructions.items, ∀ o ∈ x.operation.operands,
      o.InReach p.draft.instructions.size p.draft.symbols.functions.size) :
    ∃ r words functions,
      assembleProgram (a ++ b) limits =
        .ok (r, ⟨imageA.words ++ words, imageA.functions ++ functions⟩) ∧
      List.Forall₂
        (MachineWord.Relocated p.draft.instructions.size p.draft.symbols.functions.size)
        imageB.words words ∧
      List.Forall₂ (ImageFunction.Moved p.draft.instructions.size) imageB.functions functions := by
  obtain ⟨hv, sa, hsa, hfa⟩ := compiled_of_assembleProgram ha
  obtain ⟨_, sb, hsb, hfb⟩ := compiled_of_assembleProgram hb
  have hpi : p.draft.instructions.size = sa.count := hsa.length_instructions
  have hqi : q.draft.instructions.size = sb.count := hsb.length_instructions
  rw [Table.size, Table.size, hsa.labels, hsb.labels] at hlabels
  rw [hsa.size_functions, hsb.size_functions] at hfunctions
  rw [hpi, hqi] at hinstructions
  rw [hpi, hsa.size_functions] at hreach ⊢
  have hwithin := Script.within_behind sa sb a hinstructions hlabels hfunctions
  obtain ⟨t, us, hcompiled, hmoved⟩ := hsa.append hsb hend hwithin hcalls hreach
  obtain ⟨r, hr, _⟩ := assembleProgram_of_compiled hv hcompiled
  refine ⟨r, us, ((Script.functions 0 sb).map (sa.shift a).span).map Image.entryOf, ?_, hmoved, ?_⟩
  · rw [hr, Image.ofWords, Script.functions_behind, List.map_append, hfa]
  · rw [hfb]
    refine Script.moved_functions (sa.shift a) ?_
    have ha := (Script.size_le_of_source hsa.source).1
    have hb := (Script.size_le_of_source hsb.source).1
    rw [List.length_append] at hsize
    show sb.count + sa.count < _
    omega

/-- Two functions of one instruction and of two, each with a label of the same name. -/
theorem append_of_two_functions :
    let a := Utf8.encode ".function f\nL:\nJNZ R0 @L\n.endfunction\n".toList
    let b := Utf8.encode ".function g\nL:\nCALL @g\nJNZ R1 @L\n.endfunction".toList
    ∃ p q imageA imageB, assembleProgram a {} = .ok (p, imageA) ∧
      assembleProgram b {} = .ok (q, imageB) ∧
      ∃ r words functions,
        assembleProgram (a ++ b) {} =
          .ok (r, ⟨imageA.words ++ words, imageA.functions ++ functions⟩) ∧
        List.Forall₂ (MachineWord.Relocated 1 1) imageB.words words ∧
        List.Forall₂ (ImageFunction.Moved 1) imageB.functions functions := by
  intro a b
  have hchecked : ((assembleProgram a {}).toOption.bind fun (p, _) =>
      (assembleProgram b {}).toOption.map fun (q, _) => decide
        ((p.draft.instructions.size = 1 ∧ p.draft.symbols.functions.size = 1) ∧
          (p.draft.instructions.size + q.draft.instructions.size ≤ 256 ∧
            p.draft.symbols.labels.size + q.draft.symbols.labels.size ≤ 128 ∧
            p.draft.symbols.functions.size + q.draft.symbols.functions.size ≤ 32) ∧
          (∀ f ∈ p.draft.symbols.functions.items, ∀ x ∈ q.draft.instructions.items,
            ∀ o ∈ x.operation.operands, ¬ o.Calls f.name) ∧
          ∀ x ∈ q.draft.instructions.items, ∀ o ∈ x.operation.operands,
            o.InReach p.draft.instructions.size p.draft.symbols.functions.size)) =
      some true := by
    decide +kernel
  obtain ⟨⟨p, imageA⟩, ha, h⟩ := Option.bind_eq_some_iff.mp hchecked
  obtain ⟨⟨q, imageB⟩, hb, h⟩ := Option.map_eq_some_iff.mp h
  obtain ⟨⟨hi, hf⟩, ⟨hinstructions, hlabels, hfunctions⟩, hcalls, hreach⟩ := of_decide_eq_true h
  have ha := toOption_eq_some_iff.mp ha
  have hb := toOption_eq_some_iff.mp hb
  have happend := assembleProgram_append ha hb (by decide +kernel) (by decide +kernel)
    hinstructions hlabels hfunctions hcalls hreach
  rw [hi, hf] at happend
  exact ⟨p, q, imageA, imageB, ha, hb, happend⟩

end Program

end SensorScript
