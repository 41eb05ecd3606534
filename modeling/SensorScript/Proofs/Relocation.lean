/-
SensorScript.Proofs.Relocation — a script that stands behind another one.

Its lines, instructions and functions have those of the first script before
them. `Shift` counts these, and says what they do to everything that holds the
number of a line or the index of an instruction or a function.

  §1 what is moved;
  §2 a symbol table in which the names of another one are found, moved
     (`SymbolTable.Embeds`): what is linked in the one is linked, moved, in the
     other (`Link.Links.shift`);
  §3 two symbol tables joined: both are embedded in what they give.
-/
import SensorScript.Proofs.Link

namespace SensorScript

/-! ## §1 What is moved -/

/-- How many lines, instructions and functions stand before a script. -/
structure Shift where
  lines : Nat
  instructions : Nat
  functions : Nat

namespace Shift

/-- Nothing stands before the script. -/
def none : Shift := ⟨0, 0, 0⟩

variable (s : Shift)

def label (l : Label) : Label :=
  { l with index := l.index + s.instructions, owner := l.owner + s.functions }

def span (f : FunctionSpan) : FunctionSpan :=
  { f with start := f.start + s.instructions, stop := f.stop + s.instructions }

/-- The operand with the index that a reference was resolved to moved. -/
def operand : Operand → Operand
  | .label l => .label { l with index := l.index.map (· + UInt32.ofNat s.instructions) }
  | .function f => .function { f with index := f.index.map (· + UInt32.ofNat s.functions) }
  | o => o

def operation (x : Operation) : Operation := { x with operands := x.operands.map s.operand }

/-- The instruction in its new place, its references as they were. -/
def place (x : Instruction) : Instruction :=
  { x with owner := x.owner + s.functions, line := x.line + s.lines }

/-- The instruction in its new place with its references moved. -/
def instruction (x : Instruction) : Instruction :=
  { s.place x with operation := s.operation x.operation }

theorem operand_none (o : Operand) : none.operand o = o := by
  have hmap (i : Option UInt32) : i.map (· + UInt32.ofNat 0) = i := by
    cases i with
    | none => rfl
    | some i => exact congrArg some (UInt32.add_zero i)
  cases o with
  | label l => simp only [operand, none, hmap]
  | function f => simp only [operand, none, hmap]
  | _ => rfl

theorem instruction_none (x : Instruction) : none.instruction x = x := by
  have hos : x.operation.operands.map none.operand = x.operation.operands := by
    rw [funext operand_none]
    exact List.map_id' _
  rw [instruction, operation, hos]
  rfl

/-- An operand that is no reference is not moved. -/
theorem operand_of_value {o : Operand} (h : o.symbol? = .none) : s.operand o = o := by
  cases o with
  | label l => cases h
  | function f => cases h
  | _ => rfl

end Shift

/-- The operand refers to a function of that name. -/
def Operand.Calls (name : Text) : Operand → Prop
  | .function s => s.name = name
  | _ => False

instance (name : Text) (o : Operand) : Decidable (o.Calls name) :=
  match o with
  | .function s => inferInstanceAs (Decidable (s.name = name))
  | .register _ | .immediate _ | .memory _ | .label _ => inferInstanceAs (Decidable False)

/-! ## §2 Names found in another table -/

/-- What a name stands for in the one table it stands for, moved, in the other:
every label, and the functions of which the name is called. -/
structure SymbolTable.Embeds (s : Shift) (called : Text → Prop) (t t' : SymbolTable) : Prop where
  label : ∀ owner name l, t.findLabel? owner name = some l →
    t'.findLabel? (owner + s.functions) name = some (s.label l)
  function : ∀ name i, called name → t.findFunction? name = some i →
    t'.findFunction? name = some (i + s.functions)

namespace Link

variable {s : Shift} {called : Text → Prop} {t t' : SymbolTable}

theorem Resolves.shift (he : t.Embeds s called t') {owner : Nat} {o o' : Operand}
    (h : Resolves t owner o o') (hcalled : ∀ name, o'.Calls name → called name) :
    Resolves t' (owner + s.functions) o (s.operand o') := by
  cases h with
  | @label l found hfound =>
    have hindex : (some (UInt32.ofNat found.index)).map (· + UInt32.ofNat s.instructions) =
        some (UInt32.ofNat (s.label found).index) :=
      congrArg some (UInt32.ofNat_add ..).symm
    rw [Shift.operand, hindex]
    exact .label (he.label _ _ _ hfound)
  | @function f i hfound =>
    have hindex : (some (UInt32.ofNat i)).map (· + UInt32.ofNat s.functions) =
        some (UInt32.ofNat (i + s.functions)) :=
      congrArg some (UInt32.ofNat_add ..).symm
    rw [Shift.operand, hindex]
    exact .function (he.function _ _ (hcalled _ rfl) hfound)
  | value h =>
    rw [s.operand_of_value h]
    exact .value h

/-- An instruction that is linked in the one table is linked, moved, in the other. -/
theorem Links.shift (he : t.Embeds s called t') {x y : Instruction} (h : Links t x y)
    (hcalled : ∀ o ∈ y.operation.operands, ∀ name, o.Calls name → called name) :
    Links t' (s.place x) (s.instruction y) where
  owner_eq := congrArg (· + s.functions) h.owner_eq
  line_eq := congrArg (· + s.lines) h.line_eq
  opcode_eq := h.opcode_eq
  operands := by
    refine List.forall₂_map_right_iff.mpr (forall₂_imp_mem h.operands ?_)
    intro o _ o' ho' ho
    exact Resolves.shift he ho (hcalled o' ho')

/-- An instruction stays linked in a table that has all the names and more. -/
theorem Links.of_embeds (he : t.Embeds .none (fun _ => True) t') {x y : Instruction}
    (h : Links t x y) : Links t' x y := by
  have hshift := h.shift he fun _ _ _ _ => trivial
  rw [Shift.instruction_none] at hshift
  exact hshift

end Link

/-! ## §3 Tables joined -/

namespace SymbolTable

/-- A table with the items of the first table and then those of the second, moved. -/
structure Joins (s : Shift) (t u v : SymbolTable) : Prop where
  labels : v.labels.items = t.labels.items ++ u.labels.items.map s.label
  functions : v.functions.items = t.functions.items ++ u.functions.items.map s.span
  /-- The functions of the second table come behind those of the first. -/
  behind : s.functions = t.functions.items.length
  /-- The labels of the first table belong to functions of it. -/
  owned : ∀ l ∈ t.labels.items, l.owner < t.functions.items.length

variable {s : Shift} {t u v : SymbolTable}

/-- Tables with the same items have the same names. -/
theorem embeds_of_items_eq (hl : v.labels.items = t.labels.items)
    (hf : v.functions.items = t.functions.items) : t.Embeds .none (fun _ => True) v where
  label owner name l h := by
    unfold findLabel? at h ⊢
    rw [hl]
    exact h
  function name i _ h := by
    unfold findFunction? at h ⊢
    rw [hf]
    exact h

theorem Joins.embeds_left (h : Joins s t u v) : t.Embeds .none (fun _ => True) v where
  label owner name l hl := by
    unfold findLabel? at hl ⊢
    rw [h.labels, List.find?_append, show owner + Shift.none.functions = owner from rfl, hl]
    rfl
  function name i _ hi := by
    unfold findFunction? at hi ⊢
    rw [h.functions, List.findIdx?_append, hi]
    rfl

/-- A name of the second table is found behind the first, unless the first has a
function of that name, which would be found instead. -/
theorem Joins.embeds_right (h : Joins s t u v) :
    u.Embeds s (fun name => ∀ f ∈ t.functions.items, f.name ≠ name) v where
  label owner name l hl := by
    have hfirst : t.labels.items.find?
        (fun l => l.owner = owner + s.functions ∧ l.name = name) = none := by
      refine List.find?_eq_none.mpr fun l hmem => ?_
      have howned := h.owned l hmem
      have hbehind := h.behind
      simp only [decide_eq_true_eq, not_and]
      omega
    have hsame : (fun l : Label => decide (l.owner = owner + s.functions ∧ l.name = name)) ∘ s.label =
        fun l => decide (l.owner = owner ∧ l.name = name) := by
      funext l
      simp only [Function.comp, Shift.label, Nat.add_right_cancel_iff]
    unfold findLabel? at hl ⊢
    rw [h.labels, List.find?_append, hfirst, List.find?_map, hsame, hl]
    rfl
  function name i hnot hi := by
    have hfirst : t.functions.items.findIdx? (fun f => f.name = name) = none := by
      refine List.findIdx?_eq_none_iff.mpr fun f hmem => ?_
      exact decide_eq_false (hnot f hmem)
    unfold findFunction? at hi ⊢
    rw [h.functions, List.findIdx?_append, hfirst, List.findIdx?_map, h.behind]
    have hsame : (fun f : FunctionSpan => decide (f.name = name)) ∘ s.span =
        fun f => decide (f.name = name) := rfl
    rw [hsame, hi]
    rfl

end SymbolTable

end SensorScript
