/-
SensorScript.Proofs.MachineWord.Names — a machine word holds no names.

A reference is laid out by the index that it was resolved to. Operations that
differ in the names of their references alone are encoded as the same word.
-/
import SensorScript.Proofs.MachineWord.RoundTrip

namespace SensorScript

/-- The same operand, a reference perhaps under another name. -/
inductive Operand.SameButName : Operand → Operand → Prop
  | refl (o) : SameButName o o
  | label {name name' index} : SameButName (.label ⟨name, index⟩) (.label ⟨name', index⟩)
  | function {name name' index} : SameButName (.function ⟨name, index⟩) (.function ⟨name', index⟩)

namespace Operand.SameButName

variable {o o' : Operand}

theorem kind_eq (h : SameButName o o') : o'.kind = o.kind := by
  cases h <;> rfl

/-- A value has no name to differ in. -/
theorem eq_of_value (h : SameButName o o') (ho : o.symbol? = none) : o' = o := by
  cases h with
  | refl => rfl
  | label => cases ho
  | function => cases ho

/-- The target of a resolved reference is its index. -/
theorem target_eq_ok (h : SameButName o o') {i : UInt32} (ho : o.target = .ok i) :
    o'.target = .ok i := by
  cases h with
  | refl => exact ho
  | @label _ _ index =>
    cases index with
    | none => cases ho
    | some j => exact ho
  | @function _ _ index =>
    cases index with
    | none => cases ho
    | some j => exact ho

end Operand.SameButName

/-- Only jumps and calls have references among their operands. -/
theorem Fits.symbol?_eq_none {s : Shape} {os : List Operand} (h : Fits s os) (hj : s ≠ .jump)
    (hc : s ≠ .call) : ∀ o ∈ os, o.symbol? = none := by
  refine h.forall_mem (fun o ho => ?_) (fun h => absurd h hj) (fun h => absurd h hc)
  cases o <;> first | rfl | cases ho

variable {os os' : List Operand}

theorem Fits.of_sameButName {s : Shape} (h : Fits s os)
    (hsame : List.Forall₂ Operand.SameButName os os') : Fits s os' :=
  h.of_kinds (hsame.imp fun _ _ ho => ho.kind_eq)

/-- What is laid out of a reference is its index, not its name. -/
theorem Layout.ofOperands_of_sameButName {s : Shape} {layout : Layout} (h : Fits s os)
    (hsame : List.Forall₂ Operand.SameButName os os') (hl : ofOperands s os = .ok layout) :
    ofOperands s os' = .ok layout := by
  by_cases hj : s = .jump
  · subst hj
    cases h with
    | @jump c l hc =>
      obtain ⟨target, ht, hl⟩ := bind_eq_ok_iff.mp hl
      obtain _ | ⟨hcondition, _ | ⟨hlabel, ⟨⟩⟩⟩ := hsame
      have hvalue : c.symbol? = none := by
        cases c <;> first | rfl | cases hc
      rw [hcondition.eq_of_value hvalue]
      exact bind_eq_ok_iff.mpr ⟨target, hlabel.target_eq_ok ht, hl⟩
  by_cases hc : s = .call
  · subst hc
    cases h with
    | call =>
      obtain ⟨target, ht, hl⟩ := bind_eq_ok_iff.mp hl
      obtain _ | ⟨hfunction, ⟨⟩⟩ := hsame
      exact bind_eq_ok_iff.mpr ⟨target, hfunction.target_eq_ok ht, hl⟩
  · have heq : List.Forall₂ Eq os os' := forall₂_imp_mem hsame fun o ho _ _ hoo' =>
      (hoo'.eq_of_value (h.symbol?_eq_none hj hc o ho)).symm
    rw [List.forall₂_eq_eq_eq] at heq
    rw [← heq]
    exact hl

/-- An operation is encoded as the same word under any names. -/
theorem encode_of_sameButName {op : Opcode} {w : MachineWord}
    (h : (⟨op, os⟩ : Operation).encode = .ok w)
    (hsame : List.Forall₂ Operand.SameButName os os') :
    (⟨op, os'⟩ : Operation).encode = .ok w := by
  obtain ⟨hfits, layout, part1, hl, hp, rfl⟩ := encode_eq_ok_iff.mp h
  exact encode_eq_ok_iff.mpr ⟨hfits.of_sameButName hsame, layout, part1,
    Layout.ofOperands_of_sameButName hfits hsame hl, hp, rfl⟩

end SensorScript
