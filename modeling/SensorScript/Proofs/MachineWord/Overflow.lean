/-
SensorScript.Proofs.MachineWord.Overflow — what a checked operation can still
fail to be encoded for.

Once the operands fit the opcode, the registers are below the encodable
maximum and the references are resolved, only numbers that the source is free
to choose are left: `Overflows` has a case for each, and `encode_of_fits` says
that an operation is encoded exactly when none of them applies.
-/
import SensorScript.Limits
import SensorScript.Proofs.MachineWord.Faults

namespace SensorScript

/-- Every register of the operand is below the bound. -/
def Operand.RegistersBelow (bound : Nat) : Operand → Prop
  | .register r => r.toNat < bound
  | .memory ⟨_, .register r⟩ => r.toNat < bound
  | _ => True

theorem Operand.RegistersBelow.mono {a b : Nat} {o : Operand} (h : o.RegistersBelow a)
    (hab : a ≤ b) : o.RegistersBelow b := by
  rcases o with r | v | ⟨_, r | v⟩ | l | f
  case register => exact Nat.lt_of_lt_of_le h hab
  case memory.register => exact Nat.lt_of_lt_of_le h hab
  all_goals trivial

/-- The operation has a number that is too large for its field. -/
inductive Operation.Overflows : Operation → Field → Nat → Prop
  | destinationOffset {op bank v source} (shape : op.shape = .mov) (large : 1023 < v.toNat) :
      Overflows ⟨op, [.memory ⟨bank, .immediate v⟩, source]⟩ .movDestinationOffset v.toNat
  | jumpTarget {op condition name i} (shape : op.shape = .jump) (large : 0x1000000 ≤ i.toNat) :
      Overflows ⟨op, [condition, .label ⟨name, some i⟩]⟩ .jumpTarget i.toNat
  | callTarget {op name i} (shape : op.shape = .call) (large : 0x1000000 ≤ i.toNat) :
      Overflows ⟨op, [.function ⟨name, some i⟩]⟩ .callTarget i.toNat
  | writeAddress {op v value length} (shape : op.shape = .wi2c) (large : 65535 < v.toNat) :
      Overflows ⟨op, [.immediate v, value, length]⟩ .busAddress v.toNat
  | writeLength {op address value v} (shape : op.shape = .wi2c) (large : 127 < v.toNat) :
      Overflows ⟨op, [address, value, .immediate v]⟩ .busLength v.toNat
  | readAddress {op destination v length} (shape : op.shape = .ri2c) (large : 65535 < v.toNat) :
      Overflows ⟨op, [destination, .immediate v, length]⟩ .busAddress v.toNat
  | readLength {op destination address v} (shape : op.shape = .ri2c) (large : 127 < v.toNat) :
      Overflows ⟨op, [destination, address, .immediate v]⟩ .busLength v.toNat

theorem Operation.Overflows.stores {x : Operation} {f : Field} {n : Nat} (h : x.Overflows f n) :
    x.Stores f n ∧ 2 ^ f.width ≤ n := by
  cases h with
  | destinationOffset shape large => exact ⟨.movOffset shape, large⟩
  | jumpTarget shape large => exact ⟨.jumpTarget shape, large⟩
  | callTarget shape large => exact ⟨.callTarget shape, large⟩
  | writeAddress shape large => exact ⟨.writeAddress shape, large⟩
  | writeLength shape large => exact ⟨.writeLength shape, large⟩
  | readAddress shape large => exact ⟨.readAddress shape, large⟩
  | readLength shape large => exact ⟨.readLength shape, large⟩

/-- A register that can be encoded is too small to overflow a field of six bits and more. -/
theorem not_large_of_register {r : UInt8} {width : Nat} (hw : 6 ≤ width)
    (hr : (Operand.register r).RegistersBelow Limits.encodableRegisters) : ¬ 2 ^ width ≤ r.toNat := by
  have hpow : 2 ^ 6 ≤ 2 ^ width := Nat.pow_le_pow_right Nat.zero_lt_two hw
  have hr : r.toNat < 64 := hr
  omega

/-- Only an immediate is too large for a field that takes a register or an immediate. -/
theorem exists_immediate_of_large {o : Operand} {width : Nat} (hw : 6 ≤ width)
    (ho : o.isRegOrImm = true) (hr : o.RegistersBelow Limits.encodableRegisters)
    (hlarge : 2 ^ width ≤ o.number.toNat) : ∃ v, o = .immediate v := by
  cases o with
  | register r =>
    rw [toNat_number_register] at hlarge
    exact absurd hlarge (not_large_of_register hw hr)
  | immediate v => exact ⟨v, rfl⟩
  | _ => cases ho

/-- What is too large for its field in a checked operation is one of the numbers
that `Overflows` lists. -/
theorem Operation.Stores.overflows {x : Operation} {f : Field} {n : Nat} (h : x.Stores f n)
    (hlarge : 2 ^ f.width ≤ n) (hfits : Fits x.opcode.shape x.operands)
    (hr : ∀ o ∈ x.operands, o.RegistersBelow Limits.encodableRegisters) : x.Overflows f n := by
  cases h
  all_goals
    rename_i shape
    rw [shape] at hfits
    simp only [List.forall_mem_cons] at hr
  case aluDestination => exact absurd hlarge (not_large_of_register (by decide) hr.1)
  case aluSource => exact absurd hlarge (not_large_of_register (by decide) hr.2.1)
  case shiftDestination => exact absurd hlarge (not_large_of_register (by decide) hr.1)
  case shiftSource => exact absurd hlarge (not_large_of_register (by decide) hr.1)
  case movDestination => exact absurd hlarge (not_large_of_register (by decide) hr.1)
  case movOffsetRegister => exact absurd hlarge (not_large_of_register (by decide) hr.1)
  case movOffset => exact .destinationOffset shape hlarge
  case jumpTarget => exact .jumpTarget shape hlarge
  case callTarget => exact .callTarget shape hlarge
  case writeAddress =>
    cases hfits with
    | wi2c ha _ _ =>
      obtain ⟨v, rfl⟩ := exists_immediate_of_large (by decide) ha hr.1 hlarge
      exact .writeAddress shape hlarge
  case writeLength =>
    cases hfits with
    | wi2c _ _ hl =>
      obtain ⟨v, rfl⟩ := exists_immediate_of_large (by decide) hl hr.2.2.1 hlarge
      exact .writeLength shape hlarge
  case readAddress =>
    cases hfits with
    | ri2c ha _ =>
      obtain ⟨v, rfl⟩ := exists_immediate_of_large (by decide) ha hr.2.1 hlarge
      exact .readAddress shape hlarge
  case readLength =>
    cases hfits with
    | ri2c _ hl =>
      obtain ⟨v, rfl⟩ := exists_immediate_of_large (by decide) hl hr.2.2.1 hlarge
      exact .readLength shape hlarge

/-- A checked operation is encoded when no number of it overflows, and
otherwise one that does is its fault. -/
theorem encode_of_fits {x : Operation} (hfits : Fits x.opcode.shape x.operands)
    (hr : ∀ o ∈ x.operands, o.RegistersBelow Limits.encodableRegisters)
    (hres : ∀ o ∈ x.operands, o.IsResolved) :
    ((∃ w, x.encode = .ok w) ∧ ∀ f n, ¬ x.Overflows f n) ∨
      ∃ f n, x.encode = .error (.fieldOverflow f n) ∧ x.Overflows f n := by
  have hcheck : x.check = .ok () := checkShape_eq_ok_iff.mpr hfits
  by_cases hsmall : ∀ f n, x.Stores f n → n < 2 ^ f.width
  · refine Or.inl ⟨Operation.exists_encode_iff.mpr ⟨hcheck, hres, hsmall⟩, fun f n h => ?_⟩
    exact Nat.not_lt.mpr h.stores.2 (hsmall f n h.stores.1)
  · simp only [not_forall, Nat.not_lt] at hsmall
    obtain ⟨f, n, hstores, hlarge⟩ := hsmall
    obtain ⟨f, n, herror⟩ := Operation.exists_overflow_iff.mpr ⟨hcheck, hres, f, n, hstores, hlarge⟩
    obtain ⟨_, _, hstores, hlarge⟩ := Operation.stores_of_encode herror
    exact Or.inr ⟨f, n, herror, hstores.overflows hlarge hfits hr⟩

end SensorScript
