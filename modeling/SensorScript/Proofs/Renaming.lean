/-
SensorScript.Proofs.Renaming — other names for functions and labels.

A renaming gives every function another name, and the labels of every function
names of their own. As long as it keeps the names of a symbol table apart, the
renamed references are found where they were before, and no machine word tells
the difference.

  §1 what is renamed;
  §2 names found in the renamed table;
  §3 renamed operations encoded.
-/
import Mathlib.Data.List.Find
import SensorScript.Image
import SensorScript.Proofs.Instruction.Shape
import SensorScript.Proofs.Link
import SensorScript.Proofs.MachineWord.Relocation

namespace SensorScript

theorem SymbolTable.of_findLabel? {t : SymbolTable} {owner : Nat} {name : Text} {l : Label}
    (h : t.findLabel? owner name = some l) :
    l ∈ t.labels.items ∧ l.owner = owner ∧ l.name = name := by
  unfold findLabel? at h
  exact ⟨List.mem_of_find?_eq_some h, by simpa using List.find?_some h⟩

/-! ## §1 What is renamed -/

/-- New names of functions, and of the labels in the function of each index. -/
structure Renaming where
  function : Text → Text
  label : Nat → Text → Text

namespace Renaming

variable (ρ : Renaming)

/-- The operand of an instruction in the function `owner`, with its name changed. -/
def operand (owner : Nat) : Operand → Operand
  | .label s => .label { s with name := ρ.label owner s.name }
  | .function s => .function { s with name := ρ.function s.name }
  | o => o

def operation (owner : Nat) (x : Operation) : Operation :=
  { x with operands := x.operands.map (ρ.operand owner) }

def instruction (x : Instruction) : Instruction :=
  { x with operation := ρ.operation x.owner x.operation }

def labelEntry (l : Label) : Label := { l with name := ρ.label l.owner l.name }

def span (f : FunctionSpan) : FunctionSpan := { f with name := ρ.function f.name }

def entry (f : ImageFunction) : ImageFunction := { f with name := ρ.function f.name }

/-- The symbol table with all its names changed. -/
def symbols (t : SymbolTable) : SymbolTable where
  labels := t.labels.withItems (t.labels.items.map ρ.labelEntry) (List.length_map _)
  functions := t.functions.withItems (t.functions.items.map ρ.span) (List.length_map _)

/-- The image with the names of its functions changed, and nothing else. -/
def image (i : Image) : Image := { i with functions := i.functions.map ρ.entry }

variable {ρ}

/-- A value has no name to change. -/
theorem operand_of_value {owner : Nat} {o : Operand} (h : o.symbol? = none) :
    ρ.operand owner o = o := by
  cases o with
  | label s => cases h
  | function s => cases h
  | _ => rfl

/-! ## §2 Names found -/

/-- Functions of different names keep different names, and so do labels of
different names in one function. -/
structure InjectiveOn (ρ : Renaming) (t : SymbolTable) : Prop where
  functions : ∀ f ∈ t.functions.items, ∀ g ∈ t.functions.items,
    ρ.function f.name = ρ.function g.name → f.name = g.name
  labels : ∀ l ∈ t.labels.items, ∀ m ∈ t.labels.items, l.owner = m.owner →
    ρ.label l.owner l.name = ρ.label m.owner m.name → l.name = m.name

instance (ρ : Renaming) (t : SymbolTable) : Decidable (ρ.InjectiveOn t) :=
  decidable_of_iff ((∀ f ∈ t.functions.items, ∀ g ∈ t.functions.items,
      ρ.function f.name = ρ.function g.name → f.name = g.name) ∧
      ∀ l ∈ t.labels.items, ∀ m ∈ t.labels.items, l.owner = m.owner →
        ρ.label l.owner l.name = ρ.label m.owner m.name → l.name = m.name)
    ⟨fun h => ⟨h.1, h.2⟩, fun h => ⟨h.functions, h.labels⟩⟩

variable {t : SymbolTable} {owner : Nat}

/-- The first label of a name stays the first one of its new name. -/
theorem InjectiveOn.findLabel? (h : ρ.InjectiveOn t) {name : Text} {l : Label}
    (hl : t.findLabel? owner name = some l) :
    (ρ.symbols t).findLabel? owner (ρ.label owner name) = some (ρ.labelEntry l) := by
  obtain ⟨hmem, rfl, rfl⟩ := SymbolTable.of_findLabel? hl
  have hsame : ∀ m ∈ t.labels.items,
      ((fun m : Label => decide (m.owner = l.owner ∧ m.name = ρ.label l.owner l.name)) ∘
          ρ.labelEntry) m =
        decide (m.owner = l.owner ∧ m.name = l.name) := by
    intro m hm
    refine decide_eq_decide.mpr (and_congr_right fun howner => ?_)
    constructor
    · intro hname
      exact h.labels m hm l hmem howner hname
    · intro hname
      have howner : m.owner = l.owner := howner
      show ρ.label m.owner m.name = _
      rw [howner, hname]
  show ((t.labels.items.map ρ.labelEntry).find? _) = _
  rw [List.find?_map, List.find?_congr hsame]
  exact congrArg (Option.map ρ.labelEntry) hl

/-- The first function of a name stays the first one of its new name. -/
theorem InjectiveOn.findFunction? (h : ρ.InjectiveOn t) {name : Text} {i : Nat}
    (hi : t.findFunction? name = some i) :
    (ρ.symbols t).findFunction? (ρ.function name) = some i := by
  obtain ⟨hlt, hname, hfirst⟩ := List.findIdx?_eq_some_iff_getElem.mp hi
  have hname : t.functions.items[i].name = name := of_decide_eq_true hname
  refine List.findIdx?_eq_some_iff_getElem.mpr ⟨by simpa [symbols] using hlt, ?_, ?_⟩
  · simp [symbols, span, hname]
  · intro j hj heq
    refine hfirst j hj (decide_eq_true ?_)
    rw [← hname]
    refine h.functions _ (List.getElem_mem _) _ (List.getElem_mem hlt) ?_
    simpa [symbols, span, hname] using heq

theorem InjectiveOn.resolves (h : ρ.InjectiveOn t) {o o' : Operand}
    (ho : Link.Resolves t owner o o') :
    Link.Resolves (ρ.symbols t) owner (ρ.operand owner o) (ρ.operand owner o') := by
  cases ho with
  | @label s l found => exact @Link.Resolves.label _ _ _ (ρ.labelEntry l) (h.findLabel? found)
  | function found => exact .function (h.findFunction? found)
  | value hvalue =>
    rw [operand_of_value hvalue]
    exact .value hvalue

/-- A linked instruction is linked, renamed, in the renamed table. -/
theorem InjectiveOn.links (h : ρ.InjectiveOn t) {x y : Instruction} (hxy : Link.Links t x y) :
    Link.Links (ρ.symbols t) (ρ.instruction x) (ρ.instruction y) where
  owner_eq := hxy.owner_eq
  line_eq := hxy.line_eq
  opcode_eq := hxy.opcode_eq
  operands := by
    show List.Forall₂ _ (x.operation.operands.map _) (y.operation.operands.map _)
    rw [hxy.owner_eq, List.forall₂_map_left_iff, List.forall₂_map_right_iff]
    exact hxy.operands.imp fun _ _ ho => h.resolves ho

/-! ## §3 Encoding -/

theorem sameButName_operand (o : Operand) : Operand.SameButName o (ρ.operand owner o) := by
  cases o with
  | label s => exact .label
  | function s => exact .function
  | _ => exact .refl _

theorem sameButName_operands (os : List Operand) :
    List.Forall₂ Operand.SameButName os (os.map (ρ.operand owner)) := by
  rw [List.forall₂_map_right_iff]
  exact List.forall₂_same.mpr fun o _ => sameButName_operand o

theorem fits_operands {s : Shape} {os : List Operand} (h : Fits s os) :
    Fits s (os.map (ρ.operand owner)) := h.of_sameButName (sameButName_operands os)

/-- An operation is encoded as the same word under any names. -/
theorem encode_operation {x : Operation} {w : MachineWord} (h : x.encode = .ok w) :
    (ρ.operation owner x).encode = .ok w :=
  encode_of_sameButName h (sameButName_operands x.operands)

end Renaming

end SensorScript
