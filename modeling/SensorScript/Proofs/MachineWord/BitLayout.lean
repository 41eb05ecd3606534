/-
SensorScript.Proofs.MachineWord.BitLayout — every bit of an encoded instruction.

The encoder and the decoder share their fields, so a field in a wrong place
would go unnoticed between the two. Here the bits of the seven shapes are
written down once more, with plain positions and codes and none of the fields
(`BitLayout.ofOperation`), and what is encoded is shown to follow them.

  §1 the bits of every shape;
  §2 words that follow a layout: there is only one;
  §3 fields and the bits they stand for;
  §4 encoded instructions.
-/
import SensorScript.Proofs.Forall2
import SensorScript.Proofs.MachineWord.RoundTrip

namespace SensorScript

/-! ## §1 Bits -/

/-- Bits `high` down to `low` of a first part, and the number they hold. -/
structure BitRange where
  high : Nat
  low : Nat
  value : Nat

/-- What stands in the first part, range by range, and the second part. -/
structure BitLayout where
  ranges : List BitRange
  part2 : Nat

namespace BitLayout

/-- Type code and number of a register or an immediate. -/
def scalar : Operand → Option (Nat × Nat)
  | .register r => some (0, r.toNat)
  | .immediate v => some (1, v.toNat)
  | _ => none

def bankBit : Bank → Nat
  | .m0 => 0
  | .m1 => 1

/-- Destination of a move: type 25-24, bank 23, offset type 22, value 21-12. -/
def movDestination : Operand → Option (List BitRange)
  | .register r => some [⟨25, 24, 0⟩, ⟨21, 12, r.toNat⟩]
  | .memory ⟨b, .register r⟩ =>
    some [⟨25, 24, 2⟩, ⟨23, 23, bankBit b⟩, ⟨22, 22, 0⟩, ⟨21, 12, r.toNat⟩]
  | .memory ⟨b, .immediate v⟩ =>
    some [⟨25, 24, 2⟩, ⟨23, 23, bankBit b⟩, ⟨22, 22, 1⟩, ⟨21, 12, v.toNat⟩]
  | _ => none

/-- Source of a move: type 11-10, bank 9, offset type 8, register 7-0; an
immediate is the second part. -/
def movSource : Operand → Option BitLayout
  | .register r => some ⟨[⟨11, 10, 0⟩, ⟨7, 0, r.toNat⟩], 0⟩
  | .immediate v => some ⟨[⟨11, 10, 1⟩], v.toNat⟩
  | .memory ⟨b, .register r⟩ =>
    some ⟨[⟨11, 10, 2⟩, ⟨9, 9, bankBit b⟩, ⟨8, 8, 0⟩, ⟨7, 0, r.toNat⟩], 0⟩
  | .memory ⟨b, .immediate v⟩ => some ⟨[⟨11, 10, 2⟩, ⟨9, 9, bankBit b⟩, ⟨8, 8, 1⟩], v.toNat⟩
  | _ => none

/-- Everything below the opcode. -/
def ofOperands : Shape → List Operand → Option BitLayout
  | .alu3, [.register d, .register s, argument] => do
    let (code, value) ← scalar argument
    return ⟨[⟨25, 20, d.toNat⟩, ⟨19, 14, s.toNat⟩, ⟨13, 12, code⟩], value⟩
  | .alu2, [.register d, argument] => do
    let (code, value) ← scalar argument
    return ⟨[⟨25, 20, d.toNat⟩, ⟨19, 14, d.toNat⟩, ⟨13, 12, code⟩], value⟩
  | .mov, [d, s] => do
    let destination ← movDestination d
    let source ← movSource s
    return ⟨destination ++ source.ranges, source.part2⟩
  | .jump, [condition, .label ⟨_, some i⟩] => do
    let (code, value) ← scalar condition
    return ⟨[⟨25, 24, code⟩, ⟨23, 0, i.toNat⟩], value⟩
  | .call, [.function ⟨_, some i⟩] => some ⟨[⟨23, 0, i.toNat⟩], 0⟩
  | .wi2c, [a, v, l] => do
    let (addressCode, address) ← scalar a
    let (valueCode, value) ← scalar v
    let (lengthCode, length) ← scalar l
    return ⟨[⟨25, 25, addressCode⟩, ⟨24, 24, valueCode⟩, ⟨23, 23, lengthCode⟩, ⟨22, 16, length⟩,
      ⟨15, 0, address⟩], value⟩
  | .ri2c, [.register d, a, l] => do
    let (addressCode, address) ← scalar a
    let (lengthCode, length) ← scalar l
    return ⟨[⟨25, 25, addressCode⟩, ⟨23, 23, lengthCode⟩, ⟨22, 16, length⟩, ⟨15, 0, address⟩],
      d.toNat⟩
  | _, _ => none

/-- The bits of an operation whose operands fit and whose references are
resolved; its opcode stands in the top six. -/
def ofOperation (x : Operation) : Option BitLayout :=
  (ofOperands x.opcode.shape x.operands).map fun l =>
    ⟨⟨31, 26, x.opcode.byte⟩ :: l.ranges, l.part2⟩

end BitLayout

/-! ## §2 Words -/

/-- The ranges of the layout do not overlap, each holds all of its value, no bit
outside of them is set, and the second part is that of the layout. -/
structure MachineWord.Follows (w : MachineWord) (l : BitLayout) : Prop where
  apart : l.ranges.Pairwise fun r s => s.high < r.low ∨ r.high < s.low
  value : ∀ r ∈ l.ranges, w.part1.toNat / 2 ^ r.low % 2 ^ (r.high + 1 - r.low) = r.value
  unassigned : ∀ i, (∀ r ∈ l.ranges, i < r.low ∨ r.high < i) → w.part1.toNat.testBit i = false
  part2 : w.part2.toNat = l.part2

/-- A bit inside a range is a bit of its value. -/
theorem MachineWord.Follows.testBit {w : MachineWord} {l : BitLayout} (h : w.Follows l)
    {r : BitRange} (hr : r ∈ l.ranges) {i : Nat} (hlow : r.low ≤ i) (hhigh : i ≤ r.high) :
    w.part1.toNat.testBit i = r.value.testBit (i - r.low) := by
  have hin : i - r.low < r.high + 1 - r.low := by omega
  rw [← h.value r hr, Nat.testBit_mod_two_pow, Nat.testBit_div_two_pow, Nat.sub_add_cancel hlow,
    decide_eq_true hin, Bool.true_and]

/-- A layout leaves no bit of a word open. -/
theorem MachineWord.Follows.unique {w v : MachineWord} {l : BitLayout} (hw : w.Follows l)
    (hv : v.Follows l) : v = w := by
  have hpart1 : v.part1.toNat = w.part1.toNat := by
    refine Nat.eq_of_testBit_eq fun i => ?_
    by_cases hi : ∀ r ∈ l.ranges, i < r.low ∨ r.high < i
    · rw [hw.unassigned i hi, hv.unassigned i hi]
    · obtain ⟨r, hi⟩ := not_forall.mp hi
      obtain ⟨hr, hi⟩ := not_forall.mp hi
      have hlow : r.low ≤ i := by omega
      have hhigh : i ≤ r.high := by omega
      rw [hw.testBit hr hlow hhigh, hv.testBit hr hlow hhigh]
  have hpart2 : v.part2.toNat = w.part2.toNat := hv.part2.trans hw.part2.symm
  obtain ⟨part1, part2⟩ := v
  cases UInt32.toNat_inj.mp hpart1
  cases UInt32.toNat_inj.mp hpart2
  rfl

/-! ## §3 Fields -/

/-- The range has the bits of the field, and its value. -/
structure BitRange.OfField (p : Field × Nat) (r : BitRange) : Prop where
  low_eq : r.low = p.1.offset
  high_eq : r.high + 1 = p.1.offset + p.1.width
  value_eq : r.value = p.2

/-- A bit of a number as a field of its own. -/
theorem Field.testBit_of_bits (name : String) {i n : Nat}
    (h : (Field.mk name i 1).bits n = 0) : n.testBit i = false := by
  rw [bits_eq] at h
  have hbit : n / 2 ^ i % 2 = 0 := h
  rw [Nat.testBit_eq_decide_div_mod_eq, hbit]
  rfl

theorem Field.bits_toNat {f : Field} {n : Nat} (hin : f.offset + f.width ≤ 32) :
    f.bits (UInt32.ofNat n).toNat = f.bits n := get_ofNat hin n

/-- Packed fields give a word that follows their ranges, in whatever order these
are listed. -/
theorem MachineWord.follows_of_pack {fields : List (Field × Nat)} {ranges : List BitRange}
    {n : Nat} {part2 : UInt32} (hp : pack fields = .ok n)
    (hs : Field.Separate (fields.map (·.1))) {listed : List (Field × Nat)}
    (hperm : listed.Perm fields) (hr : List.Forall₂ BitRange.OfField listed ranges) :
    (MachineWord.mk (UInt32.ofNat n) part2).Follows ⟨ranges, part2.toNat⟩ := by
  obtain ⟨hd, hin⟩ := hs
  have hd := List.pairwise_map.mp hd
  have hin : ∀ p ∈ fields, p.1.offset + p.1.width ≤ 32 :=
    fun p hm => hin p.1 (List.mem_map_of_mem hm)
  have hfield : ∀ r ∈ ranges, ∃ p ∈ fields, BitRange.OfField p r := by
    intro r hm
    obtain ⟨p, hp, hr⟩ := exists_mem_of_forall₂ hr hm
    exact ⟨p, hperm.subset hp, hr⟩
  have hrange : ∀ p ∈ fields, ∃ r ∈ ranges, BitRange.OfField p r := by
    intro p hm
    exact exists_mem_of_forall₂ hr.flip (hperm.symm.subset hm)
  refine ⟨?_, ?_, ?_, rfl⟩
  · refine pairwise_of_forall₂ hr ((hperm.pairwise_iff fun h => h.symm).mpr hd) ?_
    intro p r q s hp hq h
    have := hp.low_eq
    have := hp.high_eq
    have := hq.low_eq
    have := hq.high_eq
    rcases h with h | h
    · exact Or.inr (by omega)
    · exact Or.inl (by omega)
  · intro r hm
    obtain ⟨p, hmem, hlow, hhigh, hvalue⟩ := hfield r hm
    show (UInt32.ofNat n).toNat / 2 ^ r.low % 2 ^ (r.high + 1 - r.low) = r.value
    rw [hhigh, hlow, Nat.add_sub_cancel_left, ← Field.bits_eq, Field.bits_toNat (hin p hmem),
      hvalue]
    exact bits_pack hp hd hmem
  · intro i hi
    show (UInt32.ofNat n).toNat.testBit i = false
    by_cases hlt : i < 32
    · have hbit : (Field.mk "" i 1).offset + (Field.mk "" i 1).width ≤ 32 := hlt
      refine Field.testBit_of_bits "" ?_
      rw [Field.bits_toNat hbit]
      refine bits_pack_of_disjoint hp hd fun p hm => ?_
      obtain ⟨r, hr, hlow, hhigh, _⟩ := hrange p hm
      have := hi r hr
      show i + 1 ≤ p.1.offset ∨ p.1.offset + p.1.width ≤ i
      omega
    · exact Nat.testBit_lt_two_pow (Nat.lt_of_lt_of_le (UInt32.toNat_lt _)
        (Nat.pow_le_pow_right (Nat.zero_lt_two) (Nat.le_of_not_lt hlt)))

/-! ## §4 Instructions -/

namespace BitLayout

theorem scalar_of_isRegOrImm {o : Operand} (h : o.isRegOrImm = true) :
    scalar o = some (o.typeCode, o.number.toNat) := by
  cases o with
  | register r => rfl
  | immediate v => rfl
  | _ => cases h

theorem ofField_movDestination {d : Operand} (h : d.isRegOrMem = true) :
    ∃ ranges, movDestination d = some ranges ∧
      List.Forall₂ BitRange.OfField (Layout.movDestination d) ranges := by
  rcases d with r | v | ⟨b, r | v⟩ | l | f
  case immediate => cases h
  case label => cases h
  case function => cases h
  case register =>
    exact ⟨_, rfl, .cons ⟨rfl, rfl, rfl⟩ (.cons ⟨rfl, rfl, rfl⟩ .nil)⟩
  all_goals
    cases b <;> exact ⟨_, rfl, .cons ⟨rfl, rfl, rfl⟩ (.cons ⟨rfl, rfl, rfl⟩
      (.cons ⟨rfl, rfl, rfl⟩ (.cons ⟨rfl, rfl, rfl⟩ .nil)))⟩

theorem ofField_movSource {s : Operand} (h : s.isValue = true) :
    ∃ l, movSource s = some l ∧ l.part2 = (Layout.movSource s).part2.toNat ∧
      List.Forall₂ BitRange.OfField (Layout.movSource s).fields l.ranges := by
  rcases s with r | v | ⟨b, r | v⟩ | l | f
  case label => cases h
  case function => cases h
  case register =>
    exact ⟨_, rfl, rfl, .cons ⟨rfl, rfl, rfl⟩ (.cons ⟨rfl, rfl, rfl⟩ .nil)⟩
  case immediate =>
    exact ⟨_, rfl, rfl, .cons ⟨rfl, rfl, rfl⟩ .nil⟩
  case memory.register =>
    cases b <;> exact ⟨_, rfl, rfl, .cons ⟨rfl, rfl, rfl⟩ (.cons ⟨rfl, rfl, rfl⟩
      (.cons ⟨rfl, rfl, rfl⟩ (.cons ⟨rfl, rfl, rfl⟩ .nil)))⟩
  case memory.immediate =>
    cases b <;> exact ⟨_, rfl, rfl, .cons ⟨rfl, rfl, rfl⟩ (.cons ⟨rfl, rfl, rfl⟩
      (.cons ⟨rfl, rfl, rfl⟩ .nil))⟩

/-- The fields that operands are laid out in have the bits of their ranges. -/
theorem ofField_ofOperands {s : Shape} {os : List Operand} {layout : Layout} (h : Fits s os)
    (hl : Layout.ofOperands s os = .ok layout) :
    ∃ l fields, ofOperands s os = some l ∧ l.part2 = layout.part2.toNat ∧
      fields.Perm layout.fields ∧ List.Forall₂ BitRange.OfField fields l.ranges := by
  cases h with
  | alu3 ha =>
    cases hl
    simp only [ofOperands, scalar_of_isRegOrImm ha]
    exact ⟨_, _, rfl, rfl, .refl _,
      .cons ⟨rfl, rfl, rfl⟩ (.cons ⟨rfl, rfl, rfl⟩ (.cons ⟨rfl, rfl, rfl⟩ .nil))⟩
  | alu2 ha =>
    cases hl
    simp only [ofOperands, scalar_of_isRegOrImm ha]
    exact ⟨_, _, rfl, rfl, .refl _,
      .cons ⟨rfl, rfl, rfl⟩ (.cons ⟨rfl, rfl, rfl⟩ (.cons ⟨rfl, rfl, rfl⟩ .nil))⟩
  | mov hd hs =>
    cases hl
    obtain ⟨ranges, hdestination, hranges⟩ := ofField_movDestination hd
    obtain ⟨source, hsource, hpart2, hsourceRanges⟩ := ofField_movSource hs
    simp only [ofOperands, hdestination, hsource]
    exact ⟨_, _, rfl, hpart2, .refl _, List.rel_append hranges hsourceRanges⟩
  | @jump c l hc =>
    obtain ⟨target, ht, hl⟩ := bind_eq_ok_iff.mp hl
    cases hl
    obtain ⟨name, _ | i⟩ := l
    · cases ht
    cases ht
    simp only [ofOperands, scalar_of_isRegOrImm hc]
    exact ⟨_, _, rfl, rfl, .refl _, .cons ⟨rfl, rfl, rfl⟩ (.cons ⟨rfl, rfl, rfl⟩ .nil)⟩
  | @call f =>
    obtain ⟨target, ht, hl⟩ := bind_eq_ok_iff.mp hl
    cases hl
    obtain ⟨name, _ | i⟩ := f
    · cases ht
    cases ht
    exact ⟨_, _, rfl, rfl, .refl _, .cons ⟨rfl, rfl, rfl⟩ .nil⟩
  | wi2c ha hv hln =>
    cases hl
    simp only [ofOperands, scalar_of_isRegOrImm ha, scalar_of_isRegOrImm hv,
      scalar_of_isRegOrImm hln]
    -- The value's type code is judged last, and stands between the other two.
    exact ⟨_, _, rfl, rfl, .cons _ (List.perm_append_singleton _ [_, _, _]).symm,
      .cons ⟨rfl, rfl, rfl⟩ (.cons ⟨rfl, rfl, rfl⟩ (.cons ⟨rfl, rfl, rfl⟩
        (.cons ⟨rfl, rfl, rfl⟩ (.cons ⟨rfl, rfl, rfl⟩ .nil))))⟩
  | ri2c ha hln =>
    cases hl
    simp only [ofOperands, scalar_of_isRegOrImm ha, scalar_of_isRegOrImm hln]
    exact ⟨_, _, rfl, rfl, .refl _, .cons ⟨rfl, rfl, rfl⟩ (.cons ⟨rfl, rfl, rfl⟩
      (.cons ⟨rfl, rfl, rfl⟩ (.cons ⟨rfl, rfl, rfl⟩ .nil)))⟩

end BitLayout

/-- The word of an instruction follows the bits of its operation, and it is the
only word that does. -/
theorem follows_of_encodeAt {index : Nat} {x : Instruction} {w : MachineWord}
    (h : encodeAt index x.operation = .ok w) :
    ∃ l, BitLayout.ofOperation x.operation = some l ∧ w.Follows l ∧
      ∀ v : MachineWord, v.Follows l → v = w := by
  obtain ⟨hfits, layout, part1, hl, hp, rfl⟩ := encode_eq_ok_iff.mp (encodeAt_eq_ok_iff.mp h)
  obtain ⟨⟨ranges, part2⟩, fields, hbits, rfl, hperm, hranges⟩ :=
    BitLayout.ofField_ofOperands hfits hl
  have hopcode : BitRange.OfField (.opcode, x.operation.opcode.byte)
      ⟨31, 26, x.operation.opcode.byte⟩ := ⟨rfl, rfl, rfl⟩
  have hfollows : (MachineWord.mk (UInt32.ofNat part1) layout.part2).Follows _ :=
    MachineWord.follows_of_pack hp (Layout.separate hfits hl) (hperm.cons _) (.cons hopcode hranges)
  exact ⟨_, by rw [BitLayout.ofOperation, hbits]; rfl, hfollows, fun v hv => hfollows.unique hv⟩

/-- A move between two places in memory, one of them given by a number. -/
theorem follows_of_encoded_move :
    let x : Instruction :=
      ⟨⟨.movB, [.memory ⟨.m1, .immediate 0x20⟩, .memory ⟨.m0, .register 7⟩]⟩, 0, 1⟩
    let l : BitLayout :=
      ⟨[⟨31, 26, 0x10⟩, ⟨25, 24, 2⟩, ⟨23, 23, 1⟩, ⟨22, 22, 1⟩, ⟨21, 12, 0x20⟩, ⟨11, 10, 2⟩,
        ⟨9, 9, 0⟩, ⟨8, 8, 0⟩, ⟨7, 0, 7⟩], 0⟩
    encodeAt 0 x.operation = .ok ⟨0x42C20807, 0⟩ ∧ (MachineWord.mk 0x42C20807 0).Follows l := by
  intro x l
  have hx : encodeAt 0 x.operation = .ok ⟨0x42C20807, 0⟩ := by decide
  obtain ⟨l', hl, hfollows, _⟩ := follows_of_encodeAt hx
  cases hl
  exact ⟨hx, hfollows⟩

end SensorScript
