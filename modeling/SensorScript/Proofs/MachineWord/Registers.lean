/-
SensorScript.Proofs.MachineWord.Registers — which register a decoder shows.

A register has eight bits, and the places that a word keeps registers in have
from six to thirty-two. The decoder takes the low eight bits of the place and
asks nothing about the others (`registers_of_decode`). So what it shows is what
the word holds in the three kinds of place that have eight bits or fewer, and in
a wider one as long as the number there is below 256; the destination 300 of a
move is shown as register 44 (`wide_destination_decoded`).

  §1 places of registers, written down apart from the fields;
  §2 the register of a decoded operand, and the place it comes from;
  §3 words.
-/
import Mathlib.Data.List.Forall2
import SensorScript.Proofs.Forall2
import SensorScript.Proofs.MachineWord.Canonical
import SensorScript.Proofs.MachineWord.TypeCodes

namespace SensorScript

/-! ## §1 Places -/

/-- Where a word keeps a number: some bits of its first part, or all of its second. -/
inductive NumberPlace where
  | bits (low width : Nat)
  | part2
  deriving DecidableEq

def NumberPlace.width : NumberPlace → Nat
  | .bits _ width => width
  | .part2 => 32

/-- All of the number that stands at a place. -/
def MachineWord.number (w : MachineWord) : NumberPlace → Nat
  | .bits low width => w.part1.toNat / 2 ^ low % 2 ^ width
  | .part2 => w.part2.toNat

/-- The place of the register that each operand of a shape is or holds; a
reference has none. -/
def Shape.registerPlaces : Shape → List (Option NumberPlace)
  | .alu3 => [some (.bits 20 6), some (.bits 14 6), some .part2]
  | .alu2 => [some (.bits 20 6), some .part2]
  | .mov => [some (.bits 12 10), some (.bits 0 8)]
  | .jump => [some .part2, none]
  | .call => [none]
  | .wi2c => [some (.bits 0 16), some .part2, some (.bits 16 7)]
  | .ri2c => [some .part2, some (.bits 0 16), some (.bits 16 7)]

/-- The register that an operand is, or that tells where in a bank it is. -/
def Operand.register? : Operand → Option UInt8
  | .register r => some r
  | .memory ⟨_, .register r⟩ => some r
  | _ => none

/-! ## §2 Operands -/

/-- The register of the operand, if it has one, is the low eight bits of a number. -/
def Operand.CutFrom (o : Operand) (n : Nat) : Prop :=
  ∀ r, o.register? = some r → r.toNat = n % 256

theorem Operand.cutFrom_register (n : Nat) : (register (UInt8.ofNat n)).CutFrom n := by
  intro r h
  cases h
  exact UInt8.toNat_ofNat'

theorem Operand.cutFrom_of_ofCode {op : Opcode} {code value : Nat} {o : Operand}
    (h : ofCode op code value = .ok o) : o.CutFrom value := by
  unfold ofCode at h
  split at h
  next =>
    cases h
    exact cutFrom_register value
  next =>
    split at h
    next =>
      cases h
      exact nofun
    next => cases h

/-- A place in memory has a register only if its offset is not an immediate. -/
theorem Operand.cutFrom_ofBank {bank offsetCode value n : Nat}
    (h : offsetCode ≠ immediateCode → value = n) : (ofBank bank offsetCode value).CutFrom n := by
  intro r hr
  unfold ofBank at hr
  split at hr
  next => cases hr
  next hcode =>
    cases hr
    rw [← h hcode]
    exact UInt8.toNat_ofNat'

namespace MachineWord

variable {w : MachineWord} {op : Opcode} {x : Operation}

/-- A field is a place of its bits. -/
theorem get_eq_number (w : MachineWord) (f : Field) :
    f.get w.part1 = w.number (.bits f.offset f.width) := f.bits_eq w.part1.toNat

theorem cutFrom_field (w : MachineWord) (f : Field) :
    (Operand.register (UInt8.ofNat (f.get w.part1))).CutFrom
      (w.number (.bits f.offset f.width)) := by
  rw [← get_eq_number]
  exact Operand.cutFrom_register _

theorem cutFrom_movDestination {d : Operand} (h : w.movDestination op = .ok d) :
    d.CutFrom (w.number (.bits 12 10)) := by
  have hvalue : Field.movDestinationOffset.get w.part1 = w.number (.bits 12 10) :=
    w.get_eq_number .movDestinationOffset
  simp only [movDestination, hvalue] at h
  split at h
  next =>
    cases h
    exact Operand.cutFrom_register _
  next =>
    split at h
    next =>
      cases h
      exact Operand.cutFrom_ofBank fun _ => rfl
    next => cases h

theorem cutFrom_movSource (w : MachineWord) : w.movSource.CutFrom (w.number (.bits 0 8)) := by
  have hregister : Field.movSourceRegister.get w.part1 = w.number (.bits 0 8) :=
    w.get_eq_number .movSourceRegister
  simp only [movSource, hregister]
  split
  next => exact Operand.cutFrom_register _
  next =>
    split
    next =>
      intro r hr
      cases hr
    next => exact Operand.cutFrom_ofBank fun hcode => if_neg hcode

/-- The register of an operand comes from the place that its shape has for it. -/
def Reads (w : MachineWord) (place : Option NumberPlace) (o : Operand) : Prop :=
  match place with
  | some p => o.CutFrom (w.number p)
  | none => o.register? = none

theorem reads_of_operands {os : List Operand} (h : w.operands op = .ok os) :
    List.Forall₂ w.Reads op.shape.registerPlaces os := by
  unfold operands at h
  generalize op.shape = shape at h ⊢
  cases shape with
  | alu3 =>
    obtain ⟨argument, hargument, h⟩ := bind_eq_ok_iff.mp h
    cases h
    exact .cons (w.cutFrom_field .aluDestination) (.cons (w.cutFrom_field .aluSource)
      (.cons (Operand.cutFrom_of_ofCode hargument) .nil))
  | alu2 =>
    obtain ⟨argument, hargument, h⟩ := bind_eq_ok_iff.mp h
    cases h
    exact .cons (w.cutFrom_field .aluDestination)
      (.cons (Operand.cutFrom_of_ofCode hargument) .nil)
  | mov =>
    obtain ⟨destination, hdestination, h⟩ := bind_eq_ok_iff.mp h
    cases h
    exact .cons (cutFrom_movDestination hdestination) (.cons w.cutFrom_movSource .nil)
  | jump =>
    obtain ⟨condition, hcondition, h⟩ := bind_eq_ok_iff.mp h
    cases h
    exact .cons (Operand.cutFrom_of_ofCode hcondition) (.cons rfl .nil)
  | call =>
    cases h
    exact .cons rfl .nil
  | wi2c =>
    obtain ⟨address, haddress, h⟩ := bind_eq_ok_iff.mp h
    obtain ⟨length, hlength, h⟩ := bind_eq_ok_iff.mp h
    obtain ⟨value, hvalue, h⟩ := bind_eq_ok_iff.mp h
    cases h
    rw [w.get_eq_number .busAddress] at haddress
    rw [w.get_eq_number .busLength] at hlength
    exact .cons (Operand.cutFrom_of_ofCode haddress) (.cons (Operand.cutFrom_of_ofCode hvalue)
      (.cons (Operand.cutFrom_of_ofCode hlength) .nil))
  | ri2c =>
    obtain ⟨address, haddress, h⟩ := bind_eq_ok_iff.mp h
    obtain ⟨length, hlength, h⟩ := bind_eq_ok_iff.mp h
    cases h
    rw [w.get_eq_number .busAddress] at haddress
    rw [w.get_eq_number .busLength] at hlength
    exact .cons (Operand.cutFrom_register _) (.cons (Operand.cutFrom_of_ofCode haddress)
      (.cons (Operand.cutFrom_of_ofCode hlength) .nil))

/-! ## §3 Words -/

theorem number_lt (w : MachineWord) (p : NumberPlace) : w.number p < 2 ^ p.width := by
  cases p with
  | bits low width => exact Nat.mod_lt _ (Nat.two_pow_pos width)
  | part2 => exact w.part2.toNat_lt

theorem known_of_decode (h : w.decode = .ok x) : Opcode.ofByte? w.opcodeBits = some x.opcode := by
  unfold decode at h
  split at h
  next => cases h
  next op hop =>
    obtain ⟨operands, _, h⟩ := bind_eq_ok_iff.mp h
    cases h
    exact hop

/-- Whether a word is decoded does not depend on the numbers in it. -/
theorem decode_of_same_codes (h : w.decode = .ok x) {v : MachineWord}
    (hopcode : v.opcodeBits = w.opcodeBits)
    (hcodes : ∀ p ∈ x.opcode.shape.typePositions, v.typeCode p = w.typeCode p) :
    ∃ y, v.decode = .ok y ∧ y.opcode = x.opcode := by
  have hknown := known_of_decode h
  have hoperands := operands_of_decode h
  rw [decode_of_known (hopcode ▸ hknown)]
  rcases v.operands_or_undefined x.opcode with ⟨_, os, hos⟩ | ⟨p, hp, hsource, hundefined, _⟩
  · rw [hos]
    exact ⟨⟨x.opcode, os⟩, rfl, rfl⟩
  · rcases w.operands_or_undefined x.opcode with ⟨hdefined, _⟩ | ⟨_, _, _, _, herror⟩
    · have hp' : w.typeCode p ∈ p.defined := hdefined p hp hsource
      rw [← hcodes p hp] at hp'
      exact absurd hp' hundefined
    · cases hoperands.symm.trans herror

/-- Every register in a decoded operation, that of an offset included, is the low
eight bits of the number at its place. It is the whole number exactly when that is
below 256, and so in every place of eight bits or fewer. No word is refused for a
number: with the same opcode and type codes it is decoded, whatever its places hold. -/
theorem registers_of_decode (h : w.decode = .ok x) :
    (∀ (i : Nat) (o : Operand) (r : UInt8), x.operands[i]? = some o → o.register? = some r →
      ∃ p, x.opcode.shape.registerPlaces[i]? = some (some p) ∧
        r.toNat = w.number p % 256 ∧
        (r.toNat = w.number p ↔ w.number p < 256) ∧
        (p.width ≤ 8 → r.toNat = w.number p)) ∧
    ∀ v : MachineWord, v.opcodeBits = w.opcodeBits →
      (∀ p ∈ x.opcode.shape.typePositions, v.typeCode p = w.typeCode p) →
      ∃ y, v.decode = .ok y ∧ y.opcode = x.opcode := by
  refine ⟨fun i o r ho hr => ?_, fun v => decode_of_same_codes h⟩
  obtain ⟨place, hplace, hreads⟩ :=
    exists_getElem?_of_forall₂ (reads_of_operands (operands_of_decode h)) ho
  cases place with
  | none => cases hr.symm.trans hreads
  | some p =>
    have hcut : r.toNat = w.number p % 256 := hreads r hr
    have hwhole : r.toNat = w.number p ↔ w.number p < 256 := by
      constructor
      · intro heq
        rw [← heq]
        exact r.toNat_lt
      · intro hlt
        rw [hcut, Nat.mod_eq_of_lt hlt]
    refine ⟨p, hplace, hcut, hwhole, fun hwidth => hwhole.mpr ?_⟩
    exact Nat.lt_of_lt_of_le (w.number_lt p) (Nat.pow_le_pow_right Nat.zero_lt_two hwidth)

/-- An address of sixteen bits, cut to its low eight, beside a length of seven bits
and a value that are whole. -/
theorem registers_of_wide_address :
    let w : MachineWord := ⟨0xE07F1234, 200⟩
    let x : Operation := ⟨.wi2c, [.register 0x34, .register 200, .register 127]⟩
    w.decode = .ok x ∧ w.number (.bits 0 16) = 0x1234 ∧
      ∃ p, x.opcode.shape.registerPlaces[0]? = some (some p) ∧
        (0x34 : UInt8).toNat = w.number p % 256 := by
  intro w x
  have hw : w.decode = .ok x := by decide
  obtain ⟨hregisters, _⟩ := registers_of_decode hw
  obtain ⟨p, hp, hcut, _⟩ := hregisters 0 (.register 0x34) 0x34 rfl rfl
  exact ⟨hw, by decide, p, hp, hcut⟩

/-- Not every register is all of the number at its place: `MOVB` with the
destination 300 is decoded, and its destination shown as register 44. -/
theorem wide_destination_decoded :
    ¬ ∀ (w : MachineWord) (x : Operation), w.decode = .ok x →
      ∀ (i : Nat) (o : Operand) (r : UInt8), x.operands[i]? = some o → o.register? = some r →
        ∃ p, x.opcode.shape.registerPlaces[i]? = some (some p) ∧ r.toNat = w.number p := by
  intro h
  have hdecode : (MachineWord.mk 0x4012C000 0).decode =
      .ok ⟨.movB, [.register 44, .register 0]⟩ := by decide
  obtain ⟨p, hp, hr⟩ := h _ _ hdecode 0 (.register 44) 44 rfl rfl
  have hplace : p = .bits 12 10 := (Option.some.inj (Option.some.inj hp)).symm
  subst hplace
  revert hr
  decide

end MachineWord

end SensorScript
