/-
SensorScript.Proofs.MachineWord.RoundTrip — a machine word is decoded to the
operation it encodes.

  §1 what an encoded word carries: the opcode, every field of its layout and
     the second part (`encode_eq_ok`);
  §2 operands read back from the fields they were laid out in;
  §3 `decode_of_encode`, over the seven shapes;
  §4 what comes back of every operand of an instruction (`Operand.Recovered`).

A word holds no names. References therefore come back as `Operand.decoded`
says: the same index, under its decimal text.
-/
import SensorScript.MachineWord.Decode
import SensorScript.Proofs.Except
import SensorScript.Proofs.Instruction.Shape
import SensorScript.Proofs.MachineWord.Fields
import SensorScript.Proofs.MachineWord.Sequence

namespace SensorScript

/-! ## §1 What an encoded word carries -/

/-- The word has every value in its field. -/
def MachineWord.Carries (w : MachineWord) (fields : List (Field × Nat)) : Prop :=
  ∀ p ∈ fields, p.1.get w.part1 = p.2

/-- Fields that share no bit with one another and lie within a first part. -/
def Field.Separate (fields : List Field) : Prop :=
  fields.Pairwise Field.Disjoint ∧ ∀ f ∈ fields, f.offset + f.width ≤ 32

instance (fields : List Field) : Decidable (Field.Separate fields) :=
  inferInstanceAs (Decidable (_ ∧ _))

/-- The fields that the destination of a move is laid out in. -/
def movDestinationForms : List (List Field) := [
  [.movDestinationType, .movDestinationRegister],
  [.movDestinationType, .movDestinationBank, .movDestinationOffsetType, .movDestinationOffset]]

/-- The fields that the source of a move is laid out in. -/
def movSourceForms : List (List Field) := [
  [.movSourceType],
  [.movSourceType, .movSourceRegister],
  [.movSourceType, .movSourceBank, .movSourceOffsetType],
  [.movSourceType, .movSourceBank, .movSourceOffsetType, .movSourceOffset]]

theorem movDestination_mem_forms {d : Operand} (h : d.isRegOrMem = true) :
    (Layout.movDestination d).map (·.1) ∈ movDestinationForms := by
  rcases d with r | v | ⟨b, r | v⟩ | l | f
  · exact .head _
  · cases h
  · exact .tail _ (.head _)
  · exact .tail _ (.head _)
  · cases h
  · cases h

theorem movSource_mem_forms {s : Operand} (h : s.isValue = true) :
    (Layout.movSource s).fields.map (·.1) ∈ movSourceForms := by
  rcases s with r | v | ⟨b, r | v⟩ | l | f
  · exact .tail _ (.head _)
  · exact .head _
  · exact .tail _ (.tail _ (.tail _ (.head _)))
  · exact .tail _ (.tail _ (.head _))
  · cases h
  · cases h

/-- Every layout keeps its fields apart, and apart from the opcode. -/
theorem Layout.separate {s : Shape} {os : List Operand} {layout : Layout} (h : Fits s os)
    (hl : ofOperands s os = .ok layout) :
    Field.Separate (.opcode :: layout.fields.map (·.1)) := by
  have halu : Field.Separate [.opcode, .aluDestination, .aluSource, .aluArgumentType] := by decide
  cases h with
  | alu3 _ => cases hl; exact halu
  | alu2 _ => cases hl; exact halu
  | mov hd hs =>
    cases hl
    rw [List.map_append]
    have hall : ∀ l₁ ∈ movDestinationForms, ∀ l₂ ∈ movSourceForms,
        Field.Separate (.opcode :: (l₁ ++ l₂)) := by decide
    exact hall _ (movDestination_mem_forms hd) _ (movSource_mem_forms hs)
  | jump _ =>
    obtain ⟨target, _, hl⟩ := bind_eq_ok_iff.mp hl
    cases hl
    show Field.Separate [.opcode, .jumpConditionType, .jumpTarget]
    decide
  | call =>
    obtain ⟨target, _, hl⟩ := bind_eq_ok_iff.mp hl
    cases hl
    show Field.Separate [.opcode, .callTarget]
    decide
  | wi2c _ _ _ =>
    cases hl
    show Field.Separate [.opcode, .busAddressType, .busLengthType, .busLength, .busAddress,
      .busValueType]
    decide
  | ri2c _ _ =>
    cases hl
    show Field.Separate [.opcode, .busAddressType, .busLengthType, .busLength, .busAddress]
    decide

/-- The steps that an encoding takes: it succeeds when they do. -/
theorem encode_eq_ok_iff {x : Operation} {w : MachineWord} :
    x.encode = .ok w ↔ Fits x.opcode.shape x.operands ∧
      ∃ layout part1, Layout.ofOperands x.opcode.shape x.operands = .ok layout ∧
        pack ((.opcode, x.opcode.byte) :: layout.fields) = .ok part1 ∧
        w = ⟨UInt32.ofNat part1, layout.part2⟩ := by
  constructor
  · intro h
    obtain ⟨⟨⟩, hcheck, h⟩ := bind_eq_ok_iff.mp h
    obtain ⟨layout, hl, h⟩ := bind_eq_ok_iff.mp h
    obtain ⟨part1, hp, h⟩ := bind_eq_ok_iff.mp h
    cases h
    exact ⟨checkShape_eq_ok_iff.mp (mapError_eq_ok_iff.mp hcheck), layout, part1, hl, hp, rfl⟩
  · rintro ⟨hfits, layout, part1, hl, hp, rfl⟩
    exact bind_eq_ok_iff.mpr ⟨(), mapError_eq_ok_iff.mpr (checkShape_eq_ok_iff.mpr hfits),
      bind_eq_ok_iff.mpr ⟨layout, hl, bind_eq_ok_iff.mpr ⟨part1, hp, rfl⟩⟩⟩

/-- What a successful encoding leaves in the word. -/
theorem encode_eq_ok {x : Operation} {w : MachineWord} (h : x.encode = .ok w) :
    Fits x.opcode.shape x.operands ∧
      ∃ layout, Layout.ofOperands x.opcode.shape x.operands = .ok layout ∧
        w.opcodeBits = x.opcode.byte ∧ w.Carries layout.fields ∧ w.part2 = layout.part2 := by
  obtain ⟨hfits, layout, part1, hl, hp, rfl⟩ := encode_eq_ok_iff.mp h
  obtain ⟨hd, hin⟩ := Layout.separate hfits hl
  have hd' : ((Field.opcode, x.opcode.byte) :: layout.fields).Pairwise
      fun p q => p.1.Disjoint q.1 := List.pairwise_map.mp hd
  have hget : ∀ p ∈ (Field.opcode, x.opcode.byte) :: layout.fields,
      p.1.get (UInt32.ofNat part1) = p.2 := by
    intro p hm
    rw [Field.get_ofNat (hin p.1 (List.mem_map_of_mem hm))]
    exact bits_pack hp hd' hm
  obtain ⟨hop, hfields⟩ := List.forall_mem_cons.mp hget
  exact ⟨hfits, layout, hl, hop, hfields, rfl⟩

/-! ## §2 Operands -/

/-- The operand as a decoder gives it: a reference is its index. -/
def Operand.decoded : Operand → Operand
  | .label ⟨_, some i⟩ => .label (.ofIndex i.toNat)
  | .function ⟨_, some i⟩ => .function (.ofIndex i.toNat)
  | o => o

theorem decoded_of_isValue {o : Operand} (h : o.isValue = true) : o.decoded = o := by
  cases o <;> first | rfl | cases h

theorem decoded_label_of_target {s : Symbol} {target : UInt32}
    (h : (Operand.label s).target = .ok target) :
    (Operand.label s).decoded = .label (.ofIndex target.toNat) := by
  obtain ⟨name, _ | i⟩ := s
  · cases h
  · cases h; rfl

theorem decoded_function_of_target {s : Symbol} {target : UInt32}
    (h : (Operand.function s).target = .ok target) :
    (Operand.function s).decoded = .function (.ofIndex target.toNat) := by
  obtain ⟨name, _ | i⟩ := s
  · cases h
  · cases h; rfl

theorem ofNat_number_register (r : UInt8) :
    UInt8.ofNat (Operand.register r).number.toNat = r := by
  rw [Operand.number, UInt8.toNat_toUInt32, UInt8.ofNat_toNat]

theorem ofCode_typeCode (op : Opcode) {o : Operand} (h : o.isRegOrImm = true) :
    Operand.ofCode op o.typeCode o.number.toNat = .ok o := by
  cases o with
  | register r =>
    show Except.ok (Operand.register (UInt8.ofNat (Operand.register r).number.toNat)) = _
    rw [ofNat_number_register]
  | immediate v =>
    show Except.ok (Operand.immediate (UInt32.ofNat v.toNat)) = _
    rw [UInt32.ofNat_toNat]
  | _ => cases h

theorem movDestination_of_carries (op : Opcode) {w : MachineWord} {d : Operand}
    (h : d.isRegOrMem = true) (hw : w.Carries (Layout.movDestination d)) :
    w.movDestination op = .ok d := by
  rcases d with r | v | ⟨b, r | v⟩ | l | f
  case immediate => cases h
  case label => cases h
  case function => cases h
  all_goals
    simp only [MachineWord.Carries, Layout.movDestination, List.forall_mem_cons] at hw
  case register =>
    obtain ⟨hk, hv, _⟩ := hw
    have hv : Field.movDestinationOffset.get w.part1 = r.toNat := hv
    simp only [MachineWord.movDestination, hk, hv, if_true, UInt8.ofNat_toNat]
  case memory.register =>
    obtain ⟨hk, hb, ht, hv, _⟩ := hw
    simp only [MachineWord.movDestination, hk, hb, ht, hv, Operand.ofBank, Bank.ofIndex_index,
      UInt8.ofNat_toNat]
    rfl
  case memory.immediate =>
    obtain ⟨hk, hb, ht, hv, _⟩ := hw
    simp only [MachineWord.movDestination, hk, hb, ht, hv, Operand.ofBank, Bank.ofIndex_index,
      UInt32.ofNat_toNat]
    rfl

theorem movSource_of_carries {w : MachineWord} {s : Operand} (h : s.isValue = true)
    (hw : w.Carries (Layout.movSource s).fields) (hp : w.part2 = (Layout.movSource s).part2) :
    w.movSource = s := by
  rcases s with r | v | ⟨b, r | v⟩ | l | f
  case label => cases h
  case function => cases h
  all_goals
    simp only [MachineWord.Carries, Layout.movSource, List.forall_mem_cons] at hw hp
  case register =>
    obtain ⟨hk, hv, _⟩ := hw
    simp only [MachineWord.movSource, hk, hv, if_true, UInt8.ofNat_toNat]
  case immediate =>
    obtain ⟨hk, _⟩ := hw
    simp only [MachineWord.movSource, hk, hp]
    rfl
  case memory.register =>
    obtain ⟨hk, hb, ht, hv, _⟩ := hw
    have hv : Field.movSourceRegister.get w.part1 = r.toNat := hv
    simp only [MachineWord.movSource, hk, hb, ht, hv, Operand.ofBank, Bank.ofIndex_index]
    show Operand.memory ⟨b, .register (UInt8.ofNat r.toNat)⟩ = _
    rw [UInt8.ofNat_toNat]
  case memory.immediate =>
    obtain ⟨hk, hb, ht, _⟩ := hw
    simp only [MachineWord.movSource, hk, hb, ht, hp, Operand.ofBank, Bank.ofIndex_index]
    show Operand.memory ⟨b, .immediate (UInt32.ofNat v.toNat)⟩ = _
    rw [UInt32.ofNat_toNat]

/-! ## §3 Words -/

/-- A word is decoded to the operation it encodes, references by index. -/
theorem decode_of_encode {x : Operation} {w : MachineWord} (h : x.encode = .ok w) :
    w.decode = .ok ⟨x.opcode, x.operands.map Operand.decoded⟩ := by
  obtain ⟨hfits, layout, hl, hop, hw, hp⟩ := encode_eq_ok h
  suffices hos : w.operands x.opcode = .ok (x.operands.map Operand.decoded) by
    rw [MachineWord.decode, hop, Opcode.ofByte?_byte]
    exact bind_eq_ok_iff.mpr ⟨_, hos, rfl⟩
  obtain ⟨op, os⟩ := x
  simp only at hfits hl ⊢
  generalize hshape : op.shape = shape at hfits hl
  unfold MachineWord.operands
  rw [hshape]
  cases hfits with
  | @alu3 d s a ha =>
    cases hl
    simp only [MachineWord.Carries, List.forall_mem_cons] at hw
    obtain ⟨hd, hs, ht, _⟩ := hw
    simp only [hd, hs, ht, hp, ofCode_typeCode op ha, ofNat_number_register,
      List.map, decoded_of_isValue (isValue_of_isRegOrImm ha)]
    rfl
  | @alu2 d a ha =>
    cases hl
    simp only [MachineWord.Carries, List.forall_mem_cons] at hw
    obtain ⟨hd, _, ht, _⟩ := hw
    simp only [hd, ht, hp, ofCode_typeCode op ha, ofNat_number_register,
      List.map, decoded_of_isValue (isValue_of_isRegOrImm ha)]
    rfl
  | @mov d s hd hs =>
    cases hl
    obtain ⟨hwd, hws⟩ := List.forall_mem_append.mp hw
    simp only [movDestination_of_carries op hd hwd, movSource_of_carries hs hws hp, List.map,
      decoded_of_isValue (isValue_of_isRegOrMem hd), decoded_of_isValue hs]
    rfl
  | @jump c l hc =>
    obtain ⟨target, ht, hl⟩ := bind_eq_ok_iff.mp hl
    cases hl
    simp only [MachineWord.Carries, List.forall_mem_cons] at hw
    obtain ⟨hk, hv, _⟩ := hw
    simp only [hk, hv, hp, ofCode_typeCode op hc, List.map,
      decoded_of_isValue (isValue_of_isRegOrImm hc), decoded_label_of_target ht]
    rfl
  | @call f =>
    obtain ⟨target, ht, hl⟩ := bind_eq_ok_iff.mp hl
    cases hl
    simp only [MachineWord.Carries, List.forall_mem_cons] at hw
    simp only [hw.1, List.map, decoded_function_of_target ht]
  | @wi2c a v l ha hv hln =>
    cases hl
    simp only [MachineWord.Carries, Layout.busAccess, List.cons_append, List.nil_append,
      List.forall_mem_cons] at hw
    obtain ⟨hka, hkl, hvl, hva, hkv, _⟩ := hw
    simp only [hka, hkl, hvl, hva, hkv, hp, ofCode_typeCode op ha, ofCode_typeCode op hln,
      ofCode_typeCode op hv, List.map, decoded_of_isValue (isValue_of_isRegOrImm ha),
      decoded_of_isValue (isValue_of_isRegOrImm hv), decoded_of_isValue (isValue_of_isRegOrImm hln)]
    rfl
  | @ri2c d a l ha hln =>
    cases hl
    simp only [MachineWord.Carries, Layout.busAccess, List.forall_mem_cons] at hw
    obtain ⟨hka, hkl, hvl, hva, _⟩ := hw
    simp only [hka, hkl, hvl, hva, hp, ofCode_typeCode op ha, ofCode_typeCode op hln,
      ofNat_number_register, List.map,
      decoded_of_isValue (isValue_of_isRegOrImm ha), decoded_of_isValue (isValue_of_isRegOrImm hln)]
    rfl

/-! ## §4 Instructions -/

theorem Symbol.ofIndex_toNat (i : UInt32) :
    ofIndex i.toNat = ⟨Numeral.decimal i.toNat, some i⟩ := by
  rw [ofIndex, UInt32.ofNat_toNat]

namespace Operand

/-- What an operand comes back as: a value as it was, and a reference as one of
the same kind to the same index, under the decimal text of the index. There is
no case for a reference without an index. -/
inductive Recovered : Operand → Operand → Prop
  | value {o} (h : o.symbol? = none) : Recovered o o
  | label {name i} : Recovered (.label ⟨name, some i⟩) (.label ⟨Numeral.decimal i.toNat, some i⟩)
  | function {name i} :
      Recovered (.function ⟨name, some i⟩) (.function ⟨Numeral.decimal i.toNat, some i⟩)

theorem Recovered.of_isValue {o : Operand} (h : o.isValue = true) : Recovered o o.decoded := by
  rw [decoded_of_isValue h]
  refine .value ?_
  cases o <;> first | rfl | cases h

theorem Recovered.of_isRegOrImm {o : Operand} (h : o.isRegOrImm = true) : Recovered o o.decoded :=
  .of_isValue (isValue_of_isRegOrImm h)

theorem Recovered.label_of_target {s : Symbol} {target : UInt32}
    (h : (Operand.label s).target = .ok target) :
    Recovered (.label s) (Operand.label s).decoded := by
  obtain ⟨name, _ | i⟩ := s
  · cases h
  · rw [decoded, Symbol.ofIndex_toNat]
    exact .label

theorem Recovered.function_of_target {s : Symbol} {target : UInt32}
    (h : (Operand.function s).target = .ok target) :
    Recovered (.function s) (Operand.function s).decoded := by
  obtain ⟨name, _ | i⟩ := s
  · cases h
  · rw [decoded, Symbol.ofIndex_toNat]
    exact .function

end Operand

/-- Operands that are laid out are recovered: a reference is laid out by its index. -/
theorem Fits.recovered {s : Shape} {os : List Operand} {layout : Layout} (h : Fits s os)
    (hl : Layout.ofOperands s os = .ok layout) :
    List.Forall₂ Operand.Recovered os (os.map Operand.decoded) := by
  cases h with
  | alu3 ha => exact .cons (.value rfl) (.cons (.value rfl) (.cons (.of_isRegOrImm ha) .nil))
  | alu2 ha => exact .cons (.value rfl) (.cons (.of_isRegOrImm ha) .nil)
  | mov hd hs => exact .cons (.of_isValue (isValue_of_isRegOrMem hd)) (.cons (.of_isValue hs) .nil)
  | jump hc =>
    obtain ⟨target, ht, _⟩ := bind_eq_ok_iff.mp hl
    exact .cons (.of_isRegOrImm hc) (.cons (.label_of_target ht) .nil)
  | call =>
    obtain ⟨target, ht, _⟩ := bind_eq_ok_iff.mp hl
    exact .cons (.function_of_target ht) .nil
  | wi2c ha hv hln =>
    exact .cons (.of_isRegOrImm ha) (.cons (.of_isRegOrImm hv) (.cons (.of_isRegOrImm hln) .nil))
  | ri2c ha hln =>
    exact .cons (.value rfl) (.cons (.of_isRegOrImm ha) (.cons (.of_isRegOrImm hln) .nil))

/-- Whatever instruction is encoded, at whatever index, its word is decoded to
the same opcode and the same operands in the same order, each recovered. -/
theorem decode_of_encodeAt {index : Nat} {x : Instruction} {w : MachineWord}
    (h : encodeAt index x.operation = .ok w) :
    ∃ operands, w.decode = .ok ⟨x.operation.opcode, operands⟩ ∧
      List.Forall₂ Operand.Recovered x.operation.operands operands := by
  have h := encodeAt_eq_ok_iff.mp h
  obtain ⟨hfits, layout, hl, _⟩ := encode_eq_ok h
  exact ⟨_, decode_of_encode h, hfits.recovered hl⟩

/-- A jump on the register 200 to the index 300, which the name `L` stood for. -/
theorem decode_of_encoded_jump :
    let x : Instruction := ⟨⟨.jnz, [.register 200, .label ⟨['L'], some 300⟩]⟩, 0, 1⟩
    ∃ w, encodeAt 7 x.operation = .ok w ∧
      w.decode = .ok ⟨.jnz, [.register 200, .label ⟨['3', '0', '0'], some 300⟩]⟩ := by
  intro x
  have hx : encodeAt 7 x.operation = .ok ⟨0x8000012C, 200⟩ := by decide
  obtain ⟨operands, hw, hos⟩ := decode_of_encodeAt hx
  refine ⟨_, hx, ?_⟩
  obtain _ | ⟨hc, _ | ⟨hl, ⟨⟩⟩⟩ := hos
  cases hc
  cases hl with
  | value hnone => cases hnone
  | label => exact hw

end SensorScript
