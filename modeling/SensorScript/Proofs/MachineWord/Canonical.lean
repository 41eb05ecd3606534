/-
SensorScript.Proofs.MachineWord.Canonical — words that are decoded can be
encoded again.

The decoder takes more words than the encoder gives. It cuts a field down to a
register, leaves bits unread that the shape does not use, reads the register
of a two-operand instruction from one of its two fields, and takes a second
type code for a move from memory. What it reads can be encoded all the same,
and the word that comes out stands for the same operation: every word that is
decoded has one canonical form, and the canonical words are those that some
instruction is encoded as.

  §1 a decoded operand is of an accepted kind and no larger than the field it
     was read from;
  §2 decoded operands can be laid out, and decoding again keeps them;
  §3 canonical words (`canonical_of_decode`).
-/
import SensorScript.Proofs.MachineWord.Names
import SensorScript.Proofs.MachineWord.Overflow

namespace SensorScript

/-! ## §1 Decoded operands -/

theorem Field.Holds.of_le {f : Field} {u v : Nat} (h : f.Holds v) (hle : u ≤ v) : f.Holds u :=
  Nat.lt_of_le_of_lt hle h

theorem toNat_ofNat_register_le (n : Nat) : (UInt8.ofNat n).toNat ≤ n := by
  rw [UInt8.toNat_ofNat']
  exact Nat.mod_le ..

theorem toNat_ofNat_immediate_le (n : Nat) : (UInt32.ofNat n).toNat ≤ n := by
  rw [UInt32.toNat_ofNat']
  exact Nat.mod_le ..

/-- A register or an immediate keeps its type code, and is at most the number it
was read from. -/
theorem Operand.of_ofCode {op : Opcode} {code value : Nat} {o : Operand}
    (h : ofCode op code value = .ok o) :
    o.isRegOrImm = true ∧ o.typeCode = code ∧ o.number.toNat ≤ value := by
  unfold ofCode at h
  split at h
  next hc =>
    cases h
    refine ⟨rfl, hc.symm, ?_⟩
    rw [number, UInt8.toNat_toUInt32]
    exact toNat_ofNat_register_le value
  next =>
    split at h
    next hc =>
      cases h
      exact ⟨rfl, hc.symm, toNat_ofNat_immediate_le value⟩
    next => cases h

namespace MachineWord

variable {w : MachineWord} {op : Opcode}

/-- The destination of a move has values that their fields can hold. -/
theorem of_movDestination {d : Operand} (h : w.movDestination op = .ok d) :
    d.isRegOrMem = true ∧ ∀ p ∈ Layout.movDestination d, p.1.Holds p.2 := by
  have hvalue := Field.movDestinationOffset.holds_get w.part1
  have hregister : Field.movDestinationOffset.Holds _ := hvalue.of_le (toNat_ofNat_register_le _)
  have himmediate : Field.movDestinationOffset.Holds _ :=
    hvalue.of_le (toNat_ofNat_immediate_le _)
  simp only [movDestination] at h
  split at h
  next =>
    cases h
    refine ⟨rfl, ?_⟩
    simp only [Layout.movDestination, List.forall_mem_cons]
    exact ⟨by decide, hregister, List.forall_mem_nil _⟩
  next =>
    split at h
    next =>
      cases h
      refine ⟨rfl, ?_⟩
      unfold Operand.ofBank
      split
      next =>
        simp only [Layout.movDestination, List.forall_mem_cons]
        exact ⟨by decide, holds_bank _ (by decide), by decide, himmediate, List.forall_mem_nil _⟩
      next =>
        simp only [Layout.movDestination, List.forall_mem_cons]
        exact ⟨by decide, holds_bank _ (by decide), by decide, hregister, List.forall_mem_nil _⟩
    next => cases h

/-- The source of a move has values that their fields can hold. -/
theorem of_movSource (w : MachineWord) :
    w.movSource.isValue = true ∧ ∀ p ∈ (Layout.movSource w.movSource).fields, p.1.Holds p.2 := by
  have hregister : Field.movSourceRegister.Holds _ :=
    (Field.movSourceRegister.holds_get w.part1).of_le (toNat_ofNat_register_le _)
  simp only [movSource]
  split
  next =>
    refine ⟨rfl, ?_⟩
    simp only [Layout.movSource, List.forall_mem_cons]
    exact ⟨by decide, hregister, List.forall_mem_nil _⟩
  next =>
    split
    next =>
      refine ⟨rfl, ?_⟩
      simp only [Layout.movSource, List.forall_mem_cons]
      exact ⟨by decide, List.forall_mem_nil _⟩
    next =>
      refine ⟨rfl, ?_⟩
      unfold Operand.ofBank
      split
      next =>
        simp only [Layout.movSource, List.forall_mem_cons]
        exact ⟨by decide, holds_bank _ (by decide), by decide, List.forall_mem_nil _⟩
      next =>
        simp only [Layout.movSource, List.forall_mem_cons]
        exact ⟨by decide, holds_bank _ (by decide), by decide, hregister, List.forall_mem_nil _⟩

end MachineWord

/-! ## §2 Layouts -/

/-- Decoding gives a reference another name and leaves all else. -/
theorem Operand.sameButName_decoded (o : Operand) : SameButName o o.decoded := by
  rcases o with r | v | m | ⟨name, _ | i⟩ | ⟨name, _ | i⟩
  case label.some =>
    rw [decoded, Symbol.ofIndex_toNat]
    exact .label
  case function.some =>
    rw [decoded, Symbol.ofIndex_toNat]
    exact .function
  all_goals exact .refl _

theorem Symbol.ofIndex_toNat_ofNat {n : Nat} (h : n < UInt32.size) :
    ofIndex (UInt32.ofNat n).toNat = ofIndex n := by
  rw [UInt32.toNat_ofNat_of_lt' h]

/-- A reference to an index that fits 32 bits is its own decoded form. -/
theorem decoded_label_ofIndex {n : Nat} (h : n < UInt32.size) :
    (Operand.label (.ofIndex n)).decoded = .label (.ofIndex n) :=
  congrArg Operand.label (Symbol.ofIndex_toNat_ofNat h)

theorem decoded_function_ofIndex {n : Nat} (h : n < UInt32.size) :
    (Operand.function (.ofIndex n)).decoded = .function (.ofIndex n) :=
  congrArg Operand.function (Symbol.ofIndex_toNat_ofNat h)

/-- Operands of a shape that have a layout with every value in its field, and
that are what is decoded of them. -/
structure Canonical (s : Shape) (os : List Operand) : Prop where
  fits : Fits s os
  laidOut : ∃ layout, Layout.ofOperands s os = .ok layout ∧ ∀ p ∈ layout.fields, p.1.Holds p.2
  decoded : os.map Operand.decoded = os

theorem busAccess_holds {address length : Operand} (ha : address.isRegOrImm = true)
    (hl : length.isRegOrImm = true) (haddress : Field.busAddress.Holds address.number.toNat)
    (hlength : Field.busLength.Holds length.number.toNat) :
    ∀ p ∈ Layout.busAccess address length, p.1.Holds p.2 := by
  simp only [Layout.busAccess, List.forall_mem_cons]
  exact ⟨Field.holds_typeCode ha (by decide), Field.holds_typeCode hl (by decide), hlength,
    haddress, List.forall_mem_nil _⟩

namespace Canonical

variable {d s : UInt8} {a v l : Operand}

theorem alu3 (ha : a.isRegOrImm = true)
    (hd : Field.aluDestination.Holds (Operand.register d).number.toNat)
    (hs : Field.aluSource.Holds (Operand.register s).number.toNat) :
    Canonical .alu3 [.register d, .register s, a] := by
  refine ⟨.alu3 ha, ⟨_, rfl, ?_⟩, ?_⟩
  · simp only [List.forall_mem_cons]
    exact ⟨hd, hs, Field.holds_typeCode ha (by decide), List.forall_mem_nil _⟩
  · simp only [List.map, decoded_of_isValue (isValue_of_isRegOrImm ha)]
    rfl

theorem alu2 (ha : a.isRegOrImm = true)
    (hd : Field.aluDestination.Holds (Operand.register d).number.toNat) :
    Canonical .alu2 [.register d, a] := by
  refine ⟨.alu2 ha, ⟨_, rfl, ?_⟩, ?_⟩
  · simp only [List.forall_mem_cons]
    -- the register is in both register fields, which are of one width
    exact ⟨hd, hd, Field.holds_typeCode ha (by decide), List.forall_mem_nil _⟩
  · simp only [List.map, decoded_of_isValue (isValue_of_isRegOrImm ha)]
    rfl

theorem mov {d s : Operand} (hd : d.isRegOrMem = true) (hs : s.isValue = true)
    (hdfields : ∀ p ∈ Layout.movDestination d, p.1.Holds p.2)
    (hsfields : ∀ p ∈ (Layout.movSource s).fields, p.1.Holds p.2) : Canonical .mov [d, s] := by
  refine ⟨.mov hd hs, ⟨_, rfl, List.forall_mem_append.mpr ⟨hdfields, hsfields⟩⟩, ?_⟩
  simp only [List.map, decoded_of_isValue (isValue_of_isRegOrMem hd), decoded_of_isValue hs]

theorem jump {c : Operand} {n : Nat} (hc : c.isRegOrImm = true) (hn : Field.jumpTarget.Holds n) :
    Canonical .jump [c, .label (.ofIndex n)] := by
  refine ⟨.jump hc, ⟨_, rfl, ?_⟩, ?_⟩
  · simp only [List.forall_mem_cons]
    exact ⟨Field.holds_typeCode hc (by decide), hn.of_le (toNat_ofNat_immediate_le n),
      List.forall_mem_nil _⟩
  · have hsize : n < UInt32.size := Nat.lt_of_lt_of_le hn (by decide)
    simp only [List.map, decoded_of_isValue (isValue_of_isRegOrImm hc), decoded_label_ofIndex hsize]

theorem call {n : Nat} (hn : Field.callTarget.Holds n) :
    Canonical .call [.function (.ofIndex n)] := by
  refine ⟨.call, ⟨_, rfl, ?_⟩, ?_⟩
  · simp only [List.forall_mem_cons]
    exact ⟨hn.of_le (toNat_ofNat_immediate_le n), List.forall_mem_nil _⟩
  · have hsize : n < UInt32.size := Nat.lt_of_lt_of_le hn (by decide)
    simp only [List.map, decoded_function_ofIndex hsize]

theorem wi2c (ha : a.isRegOrImm = true) (hv : v.isRegOrImm = true) (hl : l.isRegOrImm = true)
    (haddress : Field.busAddress.Holds a.number.toNat)
    (hlength : Field.busLength.Holds l.number.toNat) : Canonical .wi2c [a, v, l] := by
  refine ⟨.wi2c ha hv hl, ⟨_, rfl, List.forall_mem_append.mpr
    ⟨busAccess_holds ha hl haddress hlength, ?_⟩⟩, ?_⟩
  · simp only [List.forall_mem_cons]
    exact ⟨Field.holds_typeCode hv (by decide), List.forall_mem_nil _⟩
  · simp only [List.map, decoded_of_isValue (isValue_of_isRegOrImm ha),
      decoded_of_isValue (isValue_of_isRegOrImm hv), decoded_of_isValue (isValue_of_isRegOrImm hl)]

theorem ri2c (ha : a.isRegOrImm = true) (hl : l.isRegOrImm = true)
    (haddress : Field.busAddress.Holds a.number.toNat)
    (hlength : Field.busLength.Holds l.number.toNat) : Canonical .ri2c [.register d, a, l] := by
  refine ⟨.ri2c ha hl, ⟨_, rfl, busAccess_holds ha hl haddress hlength⟩, ?_⟩
  simp only [List.map, decoded_of_isValue (isValue_of_isRegOrImm ha),
    decoded_of_isValue (isValue_of_isRegOrImm hl)]
  rfl

end Canonical

/-- A register that is read from a field is one that the field can hold. -/
theorem Field.holds_number_register (f : Field) (part1 : UInt32) :
    f.Holds (Operand.register (UInt8.ofNat (f.get part1))).number.toNat := by
  rw [Operand.number, UInt8.toNat_toUInt32]
  exact (f.holds_get part1).of_le (toNat_ofNat_register_le _)

/-- Whatever operands are decoded can be laid out again. -/
theorem MachineWord.canonical_of_operands {w : MachineWord} {op : Opcode} {os : List Operand}
    (h : w.operands op = .ok os) : Canonical op.shape os := by
  unfold MachineWord.operands at h
  generalize op.shape = shape at h ⊢
  cases shape with
  | alu3 =>
    obtain ⟨argument, hargument, h⟩ := bind_eq_ok_iff.mp h
    cases h
    obtain ⟨ha, _, _⟩ := Operand.of_ofCode hargument
    exact .alu3 ha (Field.holds_number_register _ w.part1) (Field.holds_number_register _ w.part1)
  | alu2 =>
    obtain ⟨argument, hargument, h⟩ := bind_eq_ok_iff.mp h
    cases h
    obtain ⟨ha, _, _⟩ := Operand.of_ofCode hargument
    exact .alu2 ha (Field.holds_number_register _ w.part1)
  | mov =>
    obtain ⟨destination, hdestination, h⟩ := bind_eq_ok_iff.mp h
    cases h
    obtain ⟨hd, hdfields⟩ := of_movDestination hdestination
    obtain ⟨hs, hsfields⟩ := of_movSource w
    exact .mov hd hs hdfields hsfields
  | jump =>
    obtain ⟨condition, hcondition, h⟩ := bind_eq_ok_iff.mp h
    cases h
    obtain ⟨hc, _, _⟩ := Operand.of_ofCode hcondition
    exact .jump hc (Field.jumpTarget.holds_get w.part1)
  | call =>
    cases h
    exact .call (Field.callTarget.holds_get w.part1)
  | wi2c =>
    obtain ⟨address, haddress, h⟩ := bind_eq_ok_iff.mp h
    obtain ⟨length, hlength, h⟩ := bind_eq_ok_iff.mp h
    obtain ⟨value, hvalue, h⟩ := bind_eq_ok_iff.mp h
    cases h
    obtain ⟨ha, _, hale⟩ := Operand.of_ofCode haddress
    obtain ⟨hl, _, hlle⟩ := Operand.of_ofCode hlength
    obtain ⟨hv, _, _⟩ := Operand.of_ofCode hvalue
    exact .wi2c ha hv hl ((Field.busAddress.holds_get w.part1).of_le hale)
      ((Field.busLength.holds_get w.part1).of_le hlle)
  | ri2c =>
    obtain ⟨address, haddress, h⟩ := bind_eq_ok_iff.mp h
    obtain ⟨length, hlength, h⟩ := bind_eq_ok_iff.mp h
    cases h
    obtain ⟨ha, _, hale⟩ := Operand.of_ofCode haddress
    obtain ⟨hl, _, hlle⟩ := Operand.of_ofCode hlength
    exact .ri2c ha hl ((Field.busAddress.holds_get w.part1).of_le hale)
      ((Field.busLength.holds_get w.part1).of_le hlle)

/-! ## §3 Canonical words -/

namespace MachineWord

/-- The word that is encoded for what a word is decoded to. -/
def reencode? (w : MachineWord) : Option MachineWord := do
  let x ← w.decode.toOption
  x.encode.toOption

variable {w : MachineWord} {x : Operation}

theorem reencode?_of_decode (h : w.decode = .ok x) : w.reencode? = x.encode.toOption := by
  rw [reencode?, h]
  rfl

theorem operands_of_decode (h : w.decode = .ok x) : w.operands x.opcode = .ok x.operands := by
  unfold decode at h
  split at h
  · cases h
  · obtain ⟨operands, hoperands, h⟩ := bind_eq_ok_iff.mp h
    cases h
    exact hoperands

/-- What a word is decoded to can be encoded, and the word it is encoded as is
decoded to the same. -/
theorem exists_encode_of_decode (h : w.decode = .ok x) :
    ∃ w', x.encode = .ok w' ∧ w'.decode = .ok x := by
  obtain ⟨hfits, ⟨layout, hl, hfields⟩, hdecoded⟩ := canonical_of_operands (operands_of_decode h)
  obtain ⟨part1, hp⟩ := exists_pack_iff.mpr
    (List.forall_mem_cons.mpr ⟨x.opcode.byte_lt, hfields⟩ :
      ∀ p ∈ (Field.opcode, x.opcode.byte) :: layout.fields, p.1.Holds p.2)
  have hencode := encode_eq_ok_iff.mpr ⟨hfits, layout, part1, hl, hp, rfl⟩
  refine ⟨_, hencode, ?_⟩
  rw [decode_of_encode hencode, hdecoded]

/-- Encoding what an encoded word is decoded to gives the word again. -/
theorem encode_of_decode_of_encode {y : Operation} (hy : y.encode = .ok w)
    (h : w.decode = .ok x) : x.encode = .ok w := by
  rw [decode_of_encode hy] at h
  cases h
  refine encode_of_sameButName hy ?_
  rw [List.forall₂_map_right_iff]
  exact List.forall₂_same.mpr fun o _ => o.sameButName_decoded

/-- A word that is decoded has a canonical form: what it is decoded to is encoded,
at any index, as one word, which is decoded to the same and encoded again as it
is. A word is its own canonical form exactly when some operation is encoded as it. -/
theorem canonical_of_decode (h : w.decode = .ok x) :
    ∃ w', (∀ index, encodeAt index x = .ok w') ∧
      w'.decode = .ok x ∧
      w.reencode? = some w' ∧ w'.reencode? = some w' ∧
      (w' = w ↔ ∃ index y, encodeAt index y = .ok w) := by
  obtain ⟨w', hencode, hdecode⟩ := exists_encode_of_decode h
  have hreencode {v : MachineWord} (hv : v.decode = .ok x) : v.reencode? = some w' := by
    rw [reencode?_of_decode hv, toOption_eq_some_iff]
    exact hencode
  refine ⟨w', fun index => encodeAt_eq_ok_iff.mpr hencode, hdecode, hreencode h,
    hreencode hdecode, ?_⟩
  constructor
  · intro heq
    rw [← heq]
    exact ⟨0, x, encodeAt_eq_ok_iff.mpr hencode⟩
  · intro ⟨index, y, hy⟩
    have hw := encode_of_decode_of_encode (encodeAt_eq_ok_iff.mp hy) h
    exact Except.ok.inj (hencode.symm.trans hw)

/-- A move whose unread bits are set, whose destination is cut to a register and
whose source has the second code for memory: no operation is encoded as it. -/
theorem canonical_of_loose_move :
    let w : MachineWord := ⟨0x44BFFE05, 7⟩
    let x : Operation := ⟨.movW, [.register 255, .memory ⟨.m1, .register 5⟩]⟩
    w.decode = .ok x ∧ w.reencode? = some ⟨0x440FFA05, 0⟩ ∧
      ¬ ∃ index y, encodeAt index y = .ok w := by
  intro w x
  have hw : w.decode = .ok x := by decide
  have hx : encodeAt 0 x = .ok ⟨0x440FFA05, 0⟩ := by decide
  obtain ⟨w', hencode, _, hreencode, _, hcanonical⟩ := canonical_of_decode hw
  cases (hencode 0).symm.trans hx
  exact ⟨hw, hreencode, fun h => absurd (hcanonical.mpr h) (by decide)⟩

end MachineWord

end SensorScript
