/-
SensorScript.Proofs.MachineWord.Relocation — the words of a script that stands
behind another one.

Only the targets of jumps and calls name a place in the script, and both are
the last field that is laid out. Its value is raised, and no other field of the
word changes (`Field.Raised`), since the fields of a layout share no bit and
the raised value still fits.

  §1 raising the last of some packed fields;
  §2 `MachineWord.Relocated`, and that moved operations are encoded to
     relocated words (`encode_of_shift`).
-/
import SensorScript.Proofs.MachineWord.Names
import SensorScript.Proofs.Relocation

namespace SensorScript

/-! ## §1 Fields -/

/-- The second number holds `k` more in the field, and what the first one holds
in every field that shares no bit with it. -/
structure Field.Raised (f : Field) (k : Nat) (a b : UInt32) : Prop where
  value : f.get b = f.get a + k
  others : ∀ g : Field, g.Disjoint f → g.offset + g.width ≤ 32 → g.get b = g.get a

section Packing

variable {fields : List (Field × Nat)} {f : Field} {v k n : Nat}

theorem pack_cons_of_holds {m : Nat} (hv : f.Holds v) (h : pack fields = .ok m) :
    pack ((f, v) :: fields) = .ok (f.place v + m) := by
  rw [pack, if_pos hv, h]
  rfl

/-- A last field is added to what the fields before it give. -/
theorem pack_concat_eq_ok_iff :
    pack (fields ++ [(f, v)]) = .ok n ↔
      ∃ m, pack fields = .ok m ∧ f.Holds v ∧ n = f.place v + m := by
  induction fields generalizing n with
  | nil =>
    constructor
    · intro h
      obtain ⟨hv, m, hm, rfl⟩ := pack_cons_eq_ok h
      exact ⟨m, hm, hv, rfl⟩
    · rintro ⟨m, hm, hv, rfl⟩
      exact pack_cons_of_holds hv hm
  | cons p fields ih =>
    obtain ⟨g, u⟩ := p
    constructor
    · intro h
      obtain ⟨hu, l, hl, rfl⟩ := pack_cons_eq_ok h
      obtain ⟨m, hm, hv, rfl⟩ := ih.mp hl
      exact ⟨g.place u + m, pack_cons_of_holds hu hm, hv, Nat.add_left_comm ..⟩
    · rintro ⟨m, hm, hv, rfl⟩
      obtain ⟨hu, l, hl, rfl⟩ := pack_cons_eq_ok hm
      rw [Nat.add_left_comm]
      exact pack_cons_of_holds hu (ih.mpr ⟨l, hl, hv, rfl⟩)

/-- The last of some packed fields can be raised as far as it can hold. -/
theorem pack_raise (fields : List (Field × Nat)) (h : pack (fields ++ [(f, v)]) = .ok n)
    (hs : Field.Separate ((fields ++ [(f, v)]).map (·.1))) (hk : f.Holds (v + k)) :
    ∃ n', pack (fields ++ [(f, v + k)]) = .ok n' ∧
      f.Raised k (UInt32.ofNat n) (UInt32.ofNat n') := by
  obtain ⟨m, hm, hv, rfl⟩ := pack_concat_eq_ok_iff.mp h
  obtain ⟨hd, hin⟩ := hs
  obtain ⟨hd, _, hf⟩ := List.pairwise_append.mp (List.pairwise_map.mp hd)
  have hin : f.offset + f.width ≤ 32 :=
    hin f (List.mem_map_of_mem (List.mem_append_right _ (.head _)))
  have hzero : f.bits m = 0 :=
    bits_pack_of_disjoint hm hd fun p hp => (hf p hp _ (.head _)).symm
  refine ⟨f.place (v + k) + m, pack_concat_eq_ok_iff.mpr ⟨m, hm, hk, rfl⟩, ?_, ?_⟩
  · rw [Field.get_ofNat hin, Field.get_ofNat hin, Field.bits_place_add hk hzero,
      Field.bits_place_add hv hzero]
  · intro g hg hgin
    rw [Field.get_ofNat hgin, Field.get_ofNat hgin,
      Field.bits_place_add_of_disjoint hg hk hzero, Field.bits_place_add_of_disjoint hg hv hzero]

end Packing

/-! ## §2 Words -/

/-- The second word is the first one, with the target of a jump raised by the
first number and the target of a call by the second. -/
inductive MachineWord.Relocated (instructions functions : Nat) (w v : MachineWord) : Prop
  | jump {op} (opcode : Opcode.ofByte? w.opcodeBits = some op) (shape : op.shape = .jump)
      (target : Field.jumpTarget.Raised instructions w.part1 v.part1) (rest : v.part2 = w.part2)
  | call {op} (opcode : Opcode.ofByte? w.opcodeBits = some op) (shape : op.shape = .call)
      (target : Field.callTarget.Raised functions w.part1 v.part1) (rest : v.part2 = w.part2)
  | other {op} (opcode : Opcode.ofByte? w.opcodeBits = some op) (jump : op.shape ≠ .jump)
      (call : op.shape ≠ .call) (same : v = w)

/-- The index of a reference, raised by the number of instructions or functions
before it, fits the 24 bits of a target. -/
def Operand.InReach (instructions functions : Nat) : Operand → Prop
  | .label ⟨_, some i⟩ => i.toNat + instructions < 0x1000000
  | .function ⟨_, some i⟩ => i.toNat + functions < 0x1000000
  | _ => True

instance (instructions functions : Nat) (o : Operand) :
    Decidable (o.InReach instructions functions) :=
  match o with
  | .label ⟨_, some i⟩ => inferInstanceAs (Decidable (i.toNat + instructions < 0x1000000))
  | .function ⟨_, some i⟩ => inferInstanceAs (Decidable (i.toNat + functions < 0x1000000))
  | .label ⟨_, none⟩ | .function ⟨_, none⟩ | .register _ | .immediate _ | .memory _ =>
    inferInstanceAs (Decidable True)

theorem Operand.toNat_add_ofNat {i : UInt32} {n : Nat} (h : i.toNat + n < 0x1000000) :
    (i + UInt32.ofNat n).toNat = i.toNat + n := by
  rw [UInt32.toNat_add, UInt32.toNat_ofNat']
  omega

theorem encode_jump_raise {op : Opcode} {c : Operand} {name : Text} {i : UInt32} {k : Nat}
    {w : MachineWord} (hs : op.shape = .jump)
    (h : Operation.encode ⟨op, [c, .label ⟨name, some i⟩]⟩ = .ok w) (hk : i.toNat + k < 0x1000000) :
    ∃ v, Operation.encode ⟨op, [c, .label ⟨name, some (i + UInt32.ofNat k)⟩]⟩ = .ok v ∧
      Field.jumpTarget.Raised k w.part1 v.part1 ∧ v.part2 = w.part2 := by
  obtain ⟨hfits, layout, part1, hl, hp, rfl⟩ := encode_eq_ok_iff.mp h
  have hsep := Layout.separate hfits hl
  simp only [hs] at hfits hl
  cases hfits with
  | jump hc =>
    cases hl
    obtain ⟨n, hn, hraised⟩ := pack_raise [_, _] hp hsep hk
    rw [← Operand.toNat_add_ofNat hk] at hn
    refine ⟨⟨UInt32.ofNat n, c.number⟩, encode_eq_ok_iff.mpr ?_, hraised, rfl⟩
    simp only [hs]
    exact ⟨.jump hc, _, n, rfl, hn, rfl⟩

theorem encode_call_raise {op : Opcode} {name : Text} {i : UInt32} {k : Nat} {w : MachineWord}
    (hs : op.shape = .call) (h : Operation.encode ⟨op, [.function ⟨name, some i⟩]⟩ = .ok w)
    (hk : i.toNat + k < 0x1000000) :
    ∃ v, Operation.encode ⟨op, [.function ⟨name, some (i + UInt32.ofNat k)⟩]⟩ = .ok v ∧
      Field.callTarget.Raised k w.part1 v.part1 ∧ v.part2 = w.part2 := by
  obtain ⟨hfits, layout, part1, hl, hp, rfl⟩ := encode_eq_ok_iff.mp h
  have hsep := Layout.separate hfits hl
  simp only [hs] at hl
  cases hl
  obtain ⟨n, hn, hraised⟩ := pack_raise [_] hp hsep hk
  rw [← Operand.toNat_add_ofNat hk] at hn
  refine ⟨⟨UInt32.ofNat n, 0⟩, encode_eq_ok_iff.mpr ?_, hraised, rfl⟩
  simp only [hs]
  exact ⟨.call, _, n, rfl, hn, rfl⟩

/-- A moved operation whose references stay in reach is encoded to a relocated word. -/
theorem encode_of_shift (s : Shift) {x : Operation} {w : MachineWord} (h : x.encode = .ok w)
    (hreach : ∀ o ∈ x.operands, o.InReach s.instructions s.functions) :
    ∃ v, (s.operation x).encode = .ok v ∧ w.Relocated s.instructions s.functions v := by
  obtain ⟨hfits, layout, hl, hbyte, _⟩ := encode_eq_ok h
  have hop : Opcode.ofByte? w.opcodeBits = some x.opcode := by rw [hbyte, Opcode.ofByte?_byte]
  obtain ⟨op, os⟩ := x
  by_cases hj : op.shape = .jump
  · simp only [hj] at hfits hl
    cases hfits with
    | @jump c l hc =>
      obtain ⟨name, _ | i⟩ := l
      · cases hl
      obtain ⟨v, hv, hraised, hrest⟩ := encode_jump_raise hj h (hreach _ (.tail _ (.head _)))
      refine ⟨v, ?_, .jump hop hj hraised hrest⟩
      have hvalue : s.operand c = c := by
        cases c <;> first | rfl | cases hc
      rw [Shift.operation, List.map_cons, hvalue]
      exact hv
  by_cases hc : op.shape = .call
  · simp only [hc] at hfits hl
    cases hfits with
    | @call f =>
      obtain ⟨name, _ | i⟩ := f
      · cases hl
      obtain ⟨v, hv, hraised, hrest⟩ := encode_call_raise hc h (hreach _ (.head _))
      exact ⟨v, hv, .call hop hc hraised hrest⟩
  · have hsame : s.operation ⟨op, os⟩ = ⟨op, os⟩ := by
      have hos : os.map s.operand = os := by
        rw [List.map_congr_left fun o ho =>
          s.operand_of_value (hfits.symbol?_eq_none hj hc o ho)]
        exact List.map_id' _
      rw [Shift.operation, hos]
    rw [hsame]
    exact ⟨w, h, .other hop hj hc rfl⟩

end SensorScript
