/-
SensorScript.Proofs.MachineWord.TypeCodes — which type codes a decoder takes.

A type code of two bits has values to which its position gives no meaning.
Three of the four positions refuse them (`operands_or_undefined`). The fourth,
the source of a move, does not: there the code 3 stands for memory, as 2 does,
so a word with an undefined code is decoded (`undefined_source_decoded`). The
type codes of bus instructions have one bit, and both its values are defined.
-/
import Mathlib.Algebra.Group.Nat.Defs
import SensorScript.MachineWord.Decode
import SensorScript.Proofs.Except

namespace SensorScript

/-! ## §1 Positions -/

/-- Where a type code of two bits stands. -/
inductive TypePosition where
  | aluArgument
  | jumpCondition
  | movDestination
  | movSource
  deriving DecidableEq

namespace TypePosition

/-- Number of bits below the code. -/
def offset : TypePosition → Nat
  | .aluArgument => 12
  | .jumpCondition => 24
  | .movDestination => 24
  | .movSource => 10

/-- Codes with a meaning: 0 is a register, 1 an immediate and 2 memory. -/
def defined : TypePosition → List Nat
  | .aluArgument => [0, 1]
  | .jumpCondition => [0, 1]
  | .movDestination => [0, 2]
  | .movSource => [0, 1, 2]

end TypePosition

def Shape.typePositions : Shape → List TypePosition
  | .alu3 => [.aluArgument]
  | .alu2 => [.aluArgument]
  | .mov => [.movDestination, .movSource]
  | .jump => [.jumpCondition]
  | .call => []
  | .wi2c => []
  | .ri2c => []

namespace MachineWord

/-- The two bits at a position. -/
def typeCode (w : MachineWord) (p : TypePosition) : Nat := w.part1.toNat / 2 ^ p.offset % 4

/-- The code at the position has a meaning there. -/
def Defined (w : MachineWord) (p : TypePosition) : Prop := w.typeCode p ∈ p.defined

instance (w : MachineWord) (p : TypePosition) : Decidable (w.Defined p) :=
  inferInstanceAs (Decidable (_ ∈ _))

/-! ## §2 Operands -/

theorem get_eq_typeCode (w : MachineWord) (p : TypePosition) (name : String) :
    (Field.mk name p.offset 2).get w.part1 = w.typeCode p := by
  rw [Field.get, Nat.shiftRight_eq_div_pow]
  rfl

/-- What is read at a position is an operand when the code is defined there, and
otherwise the code is the error. -/
inductive Judged (w : MachineWord) (op : Opcode) (p : TypePosition) :
    Except DecodeError Operand → Prop
  | operand {o} (h : w.Defined p) : Judged w op p (.ok o)
  | undefined (h : ¬ w.Defined p) : Judged w op p (.error (.invalidOperandType op (w.typeCode p)))

/-- A register or an immediate, at a position that has only these. -/
theorem judged_ofCode (w : MachineWord) (op : Opcode) {p : TypePosition} (hp : p.defined = [0, 1])
    (value : Nat) : w.Judged op p (Operand.ofCode op (w.typeCode p) value) := by
  have hdefined : w.Defined p ↔ w.typeCode p = registerCode ∨ w.typeCode p = immediateCode := by
    simp [Defined, hp, registerCode, immediateCode]
  unfold Operand.ofCode
  split
  next h => exact .operand (hdefined.mpr (Or.inl h))
  next h =>
    split
    next h' => exact .operand (hdefined.mpr (Or.inr h'))
    next h' => exact .undefined fun hd => (hdefined.mp hd).elim h h'

theorem judged_movDestination (w : MachineWord) (op : Opcode) :
    w.Judged op .movDestination (w.movDestination op) := by
  have hdefined : w.Defined .movDestination ↔
      w.typeCode .movDestination = registerCode ∨ w.typeCode .movDestination = memoryCode := by
    simp [Defined, TypePosition.defined, registerCode, memoryCode]
  have hcode : Field.movDestinationType.get w.part1 = w.typeCode .movDestination :=
    w.get_eq_typeCode .movDestination _
  simp only [movDestination, hcode]
  split
  next h => exact .operand (hdefined.mpr (Or.inl h))
  next h =>
    split
    next h' => exact .operand (hdefined.mpr (Or.inr h'))
    next h' => exact .undefined fun hd => (hdefined.mp hd).elim h h'

/-- Both codes of one bit have a meaning. -/
theorem ofCode_of_bit (op : Opcode) {f : Field} (hf : f.width = 1) (part1 : UInt32) (value : Nat) :
    ∃ o, Operand.ofCode op (f.get part1) value = .ok o := by
  have hbit := f.holds_get part1
  rw [Field.Holds, hf] at hbit
  have hbit : f.get part1 = registerCode ∨ f.get part1 = immediateCode := by
    simp only [registerCode, immediateCode]
    omega
  rcases hbit with h | h
  · exact ⟨_, by rw [h]; rfl⟩
  · exact ⟨_, by rw [h]; rfl⟩

/-- Where one position is judged and no other, what is read there decides. -/
theorem Judged.decides {w : MachineWord} {op : Opcode} {p : TypePosition}
    {r : Except DecodeError Operand} (h : w.Judged op p r) {ps : List TypePosition} (hp : p ∈ ps)
    (hne : p ≠ .movSource) (honly : ∀ q ∈ ps, q ≠ .movSource → q = p)
    (k : Operand → List Operand) :
    (∀ q ∈ ps, q ≠ .movSource → w.Defined q) ∧ (∃ os, (r >>= fun o => pure (k o)) = .ok os) ∨
      ∃ q ∈ ps, q ≠ .movSource ∧ ¬ w.Defined q ∧
        (r >>= fun o => pure (k o)) = .error (.invalidOperandType op (w.typeCode q)) := by
  cases h with
  | operand h => exact Or.inl ⟨fun q hq hqs => honly q hq hqs ▸ h, _, rfl⟩
  | undefined h => exact Or.inr ⟨p, hp, hne, h, rfl⟩

/-- The operands of a word are read unless a code is undefined at a position
other than the source of a move. -/
theorem operands_or_undefined (w : MachineWord) (op : Opcode) :
    (∀ p ∈ op.shape.typePositions, p ≠ .movSource → w.Defined p) ∧
        (∃ os, w.operands op = .ok os) ∨
      ∃ p ∈ op.shape.typePositions, p ≠ .movSource ∧ ¬ w.Defined p ∧
        w.operands op = .error (.invalidOperandType op (w.typeCode p)) := by
  have halu := w.judged_ofCode op (p := .aluArgument) rfl w.part2.toNat
  have hjump := w.judged_ofCode op (p := .jumpCondition) rfl w.part2.toNat
  rw [← w.get_eq_typeCode _ "argument type"] at halu
  rw [← w.get_eq_typeCode _ "condition type"] at hjump
  have haddress := ofCode_of_bit op (f := .busAddressType) rfl w.part1
  have hlength := ofCode_of_bit op (f := .busLengthType) rfl w.part1
  have hvalue := ofCode_of_bit op (f := .busValueType) rfl w.part1
  unfold operands
  generalize op.shape = shape
  cases shape with
  | alu3 => exact halu.decides (.head _) (by decide) (by decide) _
  | alu2 => exact halu.decides (.head _) (by decide) (by decide) _
  | mov => exact (w.judged_movDestination op).decides (.head _) (by decide) (by decide) _
  | jump => exact hjump.decides (.head _) (by decide) (by decide) _
  | call => exact Or.inl ⟨nofun, _, rfl⟩
  | wi2c =>
    obtain ⟨a, ha⟩ := haddress (Field.busAddress.get w.part1)
    obtain ⟨l, hl⟩ := hlength (Field.busLength.get w.part1)
    obtain ⟨v, hv⟩ := hvalue w.part2.toNat
    exact Or.inl ⟨nofun, _, by rw [ha, hl, hv]; rfl⟩
  | ri2c =>
    obtain ⟨a, ha⟩ := haddress (Field.busAddress.get w.part1)
    obtain ⟨l, hl⟩ := hlength (Field.busLength.get w.part1)
    exact Or.inl ⟨nofun, _, by rw [ha, hl]; rfl⟩

/-- The source of a move with an undefined code is a place in memory. -/
theorem movSource_of_undefined {w : MachineWord} (h : ¬ w.Defined .movSource) :
    ∃ m, w.movSource = .memory m := by
  have hcode : Field.movSourceType.get w.part1 = w.typeCode .movSource :=
    w.get_eq_typeCode .movSource _
  simp only [Defined, TypePosition.defined, List.mem_cons, List.not_mem_nil, or_false,
    not_or] at h
  simp only [movSource, hcode, registerCode, immediateCode, if_neg h.1, if_neg h.2.1]
  exact ⟨_, rfl⟩

/-! ## §3 Words -/

theorem decode_of_known {w : MachineWord} {op : Opcode}
    (hop : Opcode.ofByte? w.opcodeBits = some op) : w.decode = (w.operands op).map (⟨op, ·⟩) := by
  rw [decode, hop]
  rfl

/-- A word with a known opcode is decoded exactly when its type codes are defined,
that of the source of a move left aside; an undefined one is the error. The
source of a move with an undefined code is decoded as a place in memory. -/
theorem decode_judges_type_codes {w : MachineWord} {op : Opcode}
    (hop : Opcode.ofByte? w.opcodeBits = some op) :
    ((∃ x, w.decode = .ok x) ↔
      ∀ p ∈ op.shape.typePositions, p ≠ .movSource → w.Defined p) ∧
    (∀ e, w.decode = .error e → ∃ p ∈ op.shape.typePositions,
      p ≠ .movSource ∧ ¬ w.Defined p ∧ e = .invalidOperandType op (w.typeCode p)) ∧
    ∀ x, w.decode = .ok x → op.shape = .mov → ¬ w.Defined .movSource →
      ∃ destination m, x.operands = [destination, .memory m] := by
  rw [decode_of_known hop]
  refine ⟨?_, ?_, ?_⟩
  · rcases w.operands_or_undefined op with ⟨hdefined, os, hos⟩ | ⟨p, hp, hps, hnot, he⟩
    · rw [hos]
      exact iff_of_true ⟨_, rfl⟩ hdefined
    · rw [he]
      exact iff_of_false nofun fun h => hnot (h p hp hps)
  · intro e h
    rw [map_eq_error_iff] at h
    rcases w.operands_or_undefined op with ⟨_, os, hos⟩ | ⟨p, hp, hps, hnot, he⟩
    · rw [hos] at h
      cases h
    · rw [he] at h
      cases h
      exact ⟨p, hp, hps, hnot, rfl⟩
  · intro x h hshape hnot
    obtain ⟨os, hos, rfl⟩ := map_eq_ok_iff.mp h
    obtain ⟨m, hm⟩ := movSource_of_undefined hnot
    simp only [operands, hshape, hm] at hos
    obtain ⟨destination, _, hos⟩ := bind_eq_ok_iff.mp hos
    cases hos
    exact ⟨destination, m, rfl⟩

/-- The code 1 is undefined for the destination of a move, and refused. -/
theorem undefined_destination_refused :
    let w : MachineWord := ⟨0x41000000, 0⟩
    Opcode.ofByte? w.opcodeBits = some .movB ∧ ¬ w.Defined .movDestination ∧
      w.decode = .error (.invalidOperandType .movB 1) := by
  intro w
  have hop : Opcode.ofByte? w.opcodeBits = some .movB := by decide
  have hnot : ¬ w.Defined .movDestination := by decide
  obtain ⟨hok, herror, _⟩ := decode_judges_type_codes hop
  cases h : w.decode with
  | ok x => exact absurd (hok.mp ⟨x, h⟩ .movDestination (by decide) (by decide)) hnot
  | error e =>
    obtain ⟨p, hp, hps, _, rfl⟩ := herror e h
    have hp : p = .movDestination := by
      rcases List.mem_cons.mp hp with rfl | hp
      · rfl
      · exact absurd (List.mem_singleton.mp hp) hps
    have hcode : w.typeCode .movDestination = 1 := by decide
    rw [hp, hcode]
    exact ⟨hop, hnot, rfl⟩

/-- Not every word with an undefined code is refused: `MOVB` with the code 3 for its
source is decoded. -/
theorem undefined_source_decoded :
    ¬ ∀ (w : MachineWord) (op : Opcode), Opcode.ofByte? w.opcodeBits = some op →
      ((∃ x, w.decode = .ok x) ↔ ∀ p ∈ op.shape.typePositions, w.Defined p) := by
  intro h
  have hdecode : (MachineWord.mk 0x40000C00 0).decode =
      .ok ⟨.movB, [.register 0, .memory ⟨.m0, .register 0⟩]⟩ := rfl
  have hdefined := (h ⟨0x40000C00, 0⟩ .movB (by decide)).mp ⟨_, hdecode⟩
  exact absurd (hdefined .movSource (by decide)) (by decide)

end MachineWord

end SensorScript
