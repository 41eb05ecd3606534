/-
SensorScript.Proofs.Script.Lookup — what names stand for in a script.

A label stands for the number of instructions before it: those of the blocks
before its own and those before it in its block. A function stands for the
number of blocks before it. Of several of one name the first counts, and that
is the one a look-up in the tables of the script finds.
-/
import SensorScript.Proofs.Script.Grammar

namespace SensorScript.Script

variable {script : Script} {name : Text} {owner index : Nat}

/-- The first label of that name in the block `owner` has `index` instructions
of the script before it. -/
def LabelAt (script : Script) (owner : Nat) (name : Text) (index : Nat) : Prop :=
  ∃ before block after items rest, script = before ++ block :: after ∧ before.length = owner ∧
    block.items = items ++ .label name :: rest ∧ .label name ∉ items ∧
    index = count before + Item.count items

/-- The first block of that name has `index` blocks before it. -/
def FunctionAt (script : Script) (name : Text) (index : Nat) : Prop :=
  ∃ before block after, script = before ++ block :: after ∧ before.length = index ∧
    block.name = name ∧ ∀ b ∈ before, b.name ≠ name

/-! ## §1 Labels -/

theorem count_append (before after : Script) :
    count (before ++ after) = count before + count after := by
  induction before with
  | nil => exact (Nat.zero_add _).symm
  | cons b before ih => rw [List.cons_append, count_cons, ih, count_cons, Nat.add_assoc]

theorem LabelAt.le_count (h : LabelAt script owner name index) : index ≤ count script := by
  obtain ⟨before, block, after, items, rest, rfl, _, hitems, _, rfl⟩ := h
  have hblock : Item.count items ≤ block.count := by
    rw [Block.count, hitems, Item.count, Item.count, List.countP_append]
    exact Nat.le_add_right _ _
  rw [count_append, count_cons]
  omega

/-- A label that is found among those of one block. -/
theorem of_find?_itemLabels {k n : Nat} {items : List Item} {label : Label}
    (h : (Item.labels k n items).find? (fun l => l.owner = owner ∧ l.name = name) = some label) :
    k = owner ∧ ∃ before rest, items = before ++ .label name :: rest ∧ .label name ∉ before ∧
      label.index = n + Item.count before := by
  induction items generalizing n with
  | nil => cases h
  | cons item items ih =>
    cases item with
    | instruction line operation =>
      obtain ⟨hk, before, rest, rfl, hnot, hindex⟩ := ih h
      refine ⟨hk, .instruction line operation :: before, rest, rfl, ?_, ?_⟩
      · intro hmem
        rcases List.mem_cons.mp hmem with heq | hmem
        · cases heq
        · exact hnot hmem
      · rw [hindex, Item.count_instruction]
        omega
    | label name' =>
      rw [Item.labels, List.find?_cons] at h
      split at h
      next hfirst =>
        cases h
        obtain ⟨hk, hname⟩ := of_decide_eq_true hfirst
        subst hname
        exact ⟨hk, [], items, rfl, nofun, rfl⟩
      next hfirst =>
        obtain ⟨hk, before, rest, rfl, hnot, hindex⟩ := ih h
        have hname : name' ≠ name := fun hname => of_decide_eq_false hfirst ⟨hk, hname⟩
        refine ⟨hk, .label name' :: before, rest, rfl, ?_, ?_⟩
        · intro hmem
          rcases List.mem_cons.mp hmem with heq | hmem
          · cases heq; exact hname rfl
          · exact hnot hmem
        · rw [hindex, Item.count_label]

theorem LabelAt.cons (h : LabelAt script owner name index) (b : Block) :
    LabelAt (b :: script) (owner + 1) name (b.count + index) := by
  obtain ⟨before, block, after, items, rest, rfl, rfl, hitems, hnot, rfl⟩ := h
  exact ⟨b :: before, block, after, items, rest, rfl, rfl, hitems, hnot,
    (Nat.add_assoc ..).symm⟩

theorem of_find?_labels {k n : Nat} {label : Label}
    (h : (labels k n script).find? (fun l => l.owner = owner ∧ l.name = name) = some label) :
    ∃ j index, k + j = owner ∧ LabelAt script j name index ∧ label.index = n + index := by
  induction script generalizing k n with
  | nil => cases h
  | cons b script ih =>
    rw [labels, List.find?_append, Option.or_eq_some_iff] at h
    rcases h with h | ⟨_, h⟩
    · obtain ⟨hk, before, rest, hitems, hnot, hindex⟩ := of_find?_itemLabels h
      exact ⟨0, Item.count before, hk,
        ⟨[], b, script, before, rest, rfl, rfl, hitems, hnot, (Nat.zero_add _).symm⟩, hindex⟩
    · obtain ⟨j, index, hj, hat, hindex⟩ := ih h
      exact ⟨j + 1, b.count + index, by omega, hat.cons b, by omega⟩

/-- The label that is found for an instruction is the first of its function. -/
theorem labelAt_of_find? {label : Label}
    (h : (labels 0 0 script).find? (fun l => l.owner = owner ∧ l.name = name) = some label) :
    LabelAt script owner name label.index := by
  obtain ⟨j, index, hj, hat, hindex⟩ := of_find?_labels h
  rw [Nat.zero_add] at hj hindex
  rw [hindex, ← hj]
  exact hat

/-! ## §2 Functions -/

theorem map_name_functions (n : Nat) (script : Script) :
    (functions n script).map (fun f => f.name) = script.map Block.name := by
  induction script generalizing n with
  | nil => rfl
  | cons b script ih => exact congrArg (b.name :: ·) (ih _)

/-- A look-up by name finds the first block of that name. -/
theorem findIdx?_eq_some_iff_functionAt :
    script.findIdx? (fun b => b.name = name) = some index ↔ FunctionAt script name index := by
  induction script generalizing index with
  | nil =>
    refine iff_of_false nofun ?_
    rintro ⟨before, block, after, h, _⟩
    exact List.append_ne_nil_of_right_ne_nil before (List.cons_ne_nil block after) h.symm
  | cons b script ih =>
    rw [List.findIdx?_cons]
    split
    next hname =>
      have hname := of_decide_eq_true hname
      constructor
      · intro h
        cases h
        exact ⟨[], b, script, rfl, rfl, hname, nofun⟩
      · rintro ⟨before, block, after, h, rfl, _, hnot⟩
        cases before with
        | nil => rfl
        | cons b' before =>
          cases h
          exact absurd hname (hnot b List.mem_cons_self)
    next hname =>
      have hname : b.name ≠ name := fun h => hname (decide_eq_true h)
      constructor
      · intro h
        obtain ⟨i, hi, rfl⟩ := Option.map_eq_some_iff.mp h
        obtain ⟨before, block, after, rfl, rfl, hblock, hnot⟩ := ih.mp hi
        exact ⟨b :: before, block, after, rfl, rfl, hblock, List.forall_mem_cons.mpr ⟨hname, hnot⟩⟩
      · rintro ⟨before, block, after, h, rfl, hblock, hnot⟩
        cases before with
        | nil => cases h; exact absurd hblock hname
        | cons b' before =>
          cases h
          rw [ih.mpr ⟨before, block, after, rfl, rfl, hblock, (List.forall_mem_cons.mp hnot).2⟩]
          rfl

theorem findIdx?_functions_iff {n : Nat} :
    (functions n script).findIdx? (fun f => f.name = name) = some index ↔
      FunctionAt script name index := by
  have h := congrArg (List.findIdx? fun t : Text => decide (t = name)) (map_name_functions n script)
  rw [List.findIdx?_map, List.findIdx?_map] at h
  rw [← findIdx?_eq_some_iff_functionAt]
  exact Eq.congr h rfl

theorem FunctionAt.lt_length (h : FunctionAt script name index) : index < script.length := by
  obtain ⟨before, block, after, rfl, rfl, _⟩ := h
  rw [List.length_append, List.length_cons]
  omega

end SensorScript.Script
