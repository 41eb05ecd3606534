/-
SensorScript.Proofs.MachineWord.Faults — when an operation has no machine word.

An operation is refused for the first of three reasons: its operands do not fit
the opcode, a reference has no index, or a number is too large for its field.
`Operation.Stores` lists the numbers that a field could be too small for, with
the field's place and width written out. A register that a move reads is not
among them, for its field is as wide as a register, and neither is what stands
in the second part, which holds any number.

  §1 references;
  §2 the numbers of an operation and their fields;
  §3 the three reasons and their order (`Operation.verdict`);
  §4 operations at an index and in sequence (`encode_fails_when_it_must`).
-/
import SensorScript.Proofs.MachineWord.Names

namespace SensorScript

/-! ## §1 References -/

namespace Operand

/-- A reference has the index of what it names. -/
def IsResolved (o : Operand) : Prop := ∀ s, o.symbol? = some s → ∃ i, s.index = some i

theorem target_of_symbol? {o : Operand} {s : Symbol} (h : o.symbol? = some s) :
    o.target = match s.index with
      | some i => .ok i
      | none => .error (.unresolved s.name) := by
  cases o with
  | label s => cases h; rfl
  | function s => cases h; rfl
  | _ => cases h

/-- What a reference is encoded as is the index it was resolved to. -/
theorem index_of_target {o : Operand} {s : Symbol} {i : UInt32} (hs : o.symbol? = some s)
    (h : o.target = .ok i) : s.index = some i := by
  rw [target_of_symbol? hs] at h
  cases hi : s.index with
  | none => rw [hi] at h; cases h
  | some j => rw [hi] at h; cases h; rfl

theorem typeCode_le_of_isRegOrImm {o : Operand} (h : o.isRegOrImm = true) : o.typeCode ≤ 1 := by
  cases o with
  | register r => exact Nat.zero_le _
  | immediate v => exact Nat.le_refl _
  | _ => cases h

end Operand

/-! ## §2 Numbers and fields -/

theorem Field.holds_of_lt {f : Field} {v bound : Nat} (h : v < bound)
    (hb : bound ≤ 1 <<< f.width) : f.Holds v := Nat.lt_of_lt_of_le h hb

theorem Field.holds_typeCode {f : Field} {o : Operand} (ho : o.isRegOrImm = true)
    (hf : 2 ≤ 1 <<< f.width) : f.Holds o.typeCode :=
  holds_of_lt (Nat.lt_succ_of_le (Operand.typeCode_le_of_isRegOrImm ho)) hf

theorem holds_bank (b : Bank) {f : Field} (hf : 2 ≤ 1 <<< f.width) : f.Holds b.index := by
  refine Field.holds_of_lt ?_ hf
  cases b <;> decide

/-- A number of the operation goes into the field, and need not fit it: every
field is written as its name, the number of bits below it and its width. -/
inductive Operation.Stores : Operation → Field → Nat → Prop
  | aluDestination {op d s a} (shape : op.shape = .alu3) :
      Stores ⟨op, [.register d, .register s, a]⟩ ⟨"destination register", 20, 6⟩ d.toNat
  | aluSource {op d s a} (shape : op.shape = .alu3) :
      Stores ⟨op, [.register d, .register s, a]⟩ ⟨"source register", 14, 6⟩ s.toNat
  | shiftDestination {op d a} (shape : op.shape = .alu2) :
      Stores ⟨op, [.register d, a]⟩ ⟨"destination register", 20, 6⟩ d.toNat
  /-- The destination is the source too. -/
  | shiftSource {op d a} (shape : op.shape = .alu2) :
      Stores ⟨op, [.register d, a]⟩ ⟨"source register", 14, 6⟩ d.toNat
  | movDestination {op d s} (shape : op.shape = .mov) :
      Stores ⟨op, [.register d, s]⟩ ⟨"destination register", 12, 10⟩ d.toNat
  | movOffsetRegister {op bank r s} (shape : op.shape = .mov) :
      Stores ⟨op, [.memory ⟨bank, .register r⟩, s]⟩ ⟨"destination offset", 12, 10⟩ r.toNat
  | movOffset {op bank v s} (shape : op.shape = .mov) :
      Stores ⟨op, [.memory ⟨bank, .immediate v⟩, s]⟩ ⟨"destination offset", 12, 10⟩ v.toNat
  | jumpTarget {op condition name i} (shape : op.shape = .jump) :
      Stores ⟨op, [condition, .label ⟨name, some i⟩]⟩ ⟨"jump target", 0, 24⟩ i.toNat
  | callTarget {op name i} (shape : op.shape = .call) :
      Stores ⟨op, [.function ⟨name, some i⟩]⟩ ⟨"call target", 0, 24⟩ i.toNat
  | writeAddress {op a v l} (shape : op.shape = .wi2c) :
      Stores ⟨op, [a, v, l]⟩ ⟨"i2c address", 0, 16⟩ a.number.toNat
  | writeLength {op a v l} (shape : op.shape = .wi2c) :
      Stores ⟨op, [a, v, l]⟩ ⟨"i2c length", 16, 7⟩ l.number.toNat
  | readAddress {op d a l} (shape : op.shape = .ri2c) :
      Stores ⟨op, [d, a, l]⟩ ⟨"i2c address", 0, 16⟩ a.number.toNat
  | readLength {op d a l} (shape : op.shape = .ri2c) :
      Stores ⟨op, [d, a, l]⟩ ⟨"i2c length", 16, 7⟩ l.number.toNat

theorem toNat_number_register (r : UInt8) : (Operand.register r).number.toNat = r.toNat :=
  UInt8.toNat_toUInt32 r

section Layout

variable {x : Operation} {layout : Layout} {f : Field} {n : Nat}

/-- What is stored in a field is laid out there. -/
theorem Operation.Stores.mem_fields (h : x.Stores f n)
    (hl : Layout.ofOperands x.opcode.shape x.operands = .ok layout) : (f, n) ∈ layout.fields := by
  cases h
  all_goals
    rename_i shape
    rw [shape] at hl
    cases hl
    simp [Layout.movDestination, Layout.busAccess, toNat_number_register, Field.aluDestination,
      Field.aluSource, Field.movDestinationRegister, Field.movDestinationOffset, Field.jumpTarget,
      Field.callTarget, Field.busAddress, Field.busLength]

/-! A layout field by field: what holds in any case, and what is stored. -/

theorem movDestination_holds_or (d : Operand) :
    ∀ p ∈ Layout.movDestination d, p.1.Holds p.2 ∨
      ∀ {op s}, op.shape = .mov → Operation.Stores ⟨op, [d, s]⟩ p.1 p.2 := by
  rcases d with r | v | ⟨b, r | v⟩ | l | f
  all_goals simp only [Layout.movDestination, List.forall_mem_cons]
  case register => exact ⟨Or.inl (by decide), Or.inr .movDestination, List.forall_mem_nil _⟩
  case memory.register =>
    exact ⟨Or.inl (by decide), Or.inl (holds_bank b (by decide)), Or.inl (by decide),
      Or.inr .movOffsetRegister, List.forall_mem_nil _⟩
  case memory.immediate =>
    exact ⟨Or.inl (by decide), Or.inl (holds_bank b (by decide)), Or.inl (by decide),
      Or.inr .movOffset, List.forall_mem_nil _⟩
  all_goals exact List.forall_mem_nil _

/-- The source of a move always fits: a register is no wider than its field. -/
theorem movSource_holds (s : Operand) : ∀ p ∈ (Layout.movSource s).fields, p.1.Holds p.2 := by
  have hregister (r : UInt8) {f : Field} (hf : 0x100 ≤ 1 <<< f.width) : f.Holds r.toNat :=
    Field.holds_of_lt r.toNat_lt hf
  rcases s with r | v | ⟨b, r | v⟩ | l | f
  all_goals simp only [Layout.movSource, List.forall_mem_cons]
  case register => exact ⟨by decide, hregister r (by decide), List.forall_mem_nil _⟩
  case immediate => exact ⟨by decide, List.forall_mem_nil _⟩
  case memory.register =>
    exact ⟨by decide, holds_bank b (by decide), by decide, hregister r (by decide),
      List.forall_mem_nil _⟩
  case memory.immediate =>
    exact ⟨by decide, holds_bank b (by decide), by decide, List.forall_mem_nil _⟩
  all_goals exact List.forall_mem_nil _

/-- In a layout only the numbers that `Stores` lists can be too large. -/
theorem holds_or_stores (hfits : Fits x.opcode.shape x.operands)
    (hl : Layout.ofOperands x.opcode.shape x.operands = .ok layout) :
    ∀ p ∈ layout.fields, p.1.Holds p.2 ∨ x.Stores p.1 p.2 := by
  obtain ⟨op, os⟩ := x
  simp only at hfits hl ⊢
  generalize hshape : op.shape = shape at hfits hl
  cases hfits with
  | alu3 ha =>
    cases hl
    simp only [List.forall_mem_cons]
    exact ⟨Or.inr (.aluDestination hshape), Or.inr (.aluSource hshape),
      Or.inl (Field.holds_typeCode ha (by decide)), List.forall_mem_nil _⟩
  | alu2 ha =>
    cases hl
    simp only [List.forall_mem_cons]
    exact ⟨Or.inr (.shiftDestination hshape), Or.inr (.shiftSource hshape),
      Or.inl (Field.holds_typeCode ha (by decide)), List.forall_mem_nil _⟩
  | @mov d s hd hs =>
    cases hl
    refine List.forall_mem_append.mpr ⟨fun p hp => ?_, fun p hp => Or.inl (movSource_holds s p hp)⟩
    exact (movDestination_holds_or d p hp).imp_right fun h => h hshape
  | @jump c s hc =>
    obtain ⟨target, ht, hl⟩ := bind_eq_ok_iff.mp hl
    cases hl
    obtain ⟨name, index⟩ := s
    cases Operand.index_of_target rfl ht
    simp only [List.forall_mem_cons]
    exact ⟨Or.inl (Field.holds_typeCode hc (by decide)), Or.inr (.jumpTarget hshape),
      List.forall_mem_nil _⟩
  | @call s =>
    obtain ⟨target, ht, hl⟩ := bind_eq_ok_iff.mp hl
    cases hl
    obtain ⟨name, index⟩ := s
    cases Operand.index_of_target rfl ht
    exact List.forall_mem_singleton.mpr (Or.inr (.callTarget hshape))
  | wi2c ha hv hln =>
    cases hl
    simp only [Layout.busAccess, List.cons_append, List.nil_append, List.forall_mem_cons]
    exact ⟨Or.inl (Field.holds_typeCode ha (by decide)),
      Or.inl (Field.holds_typeCode hln (by decide)), Or.inr (.writeLength hshape),
      Or.inr (.writeAddress hshape), Or.inl (Field.holds_typeCode hv (by decide)),
      List.forall_mem_nil _⟩
  | ri2c ha hln =>
    cases hl
    simp only [Layout.busAccess, List.forall_mem_cons]
    exact ⟨Or.inl (Field.holds_typeCode ha (by decide)),
      Or.inl (Field.holds_typeCode hln (by decide)), Or.inr (.readLength hshape),
      Or.inr (.readAddress hshape), List.forall_mem_nil _⟩

end Layout

/-! ## §3 Reasons -/

/-- A jump and a call have one reference, and are laid out when it is resolved.
Other operations have none. -/
theorem Fits.references {s : Shape} {os : List Operand} (h : Fits s os) :
    os.filterMap Operand.symbol? = [] ∧ (∃ layout, Layout.ofOperands s os = .ok layout) ∨
      ∃ name index, os.filterMap Operand.symbol? = [⟨name, index⟩] ∧
        match index with
        | some _ => ∃ layout, Layout.ofOperands s os = .ok layout
        | none => Layout.ofOperands s os = .error (.unresolved name) := by
  by_cases hj : s = .jump
  · subst hj
    cases h with
    | @jump c l hc =>
      have hvalue : c.symbol? = none := by
        cases c <;> first | rfl | cases hc
      have hone : [c, .label l].filterMap Operand.symbol? = [l] := by
        rw [List.filterMap_cons_none hvalue]
        rfl
      obtain ⟨name, _ | i⟩ := l
      · exact Or.inr ⟨name, none, hone, rfl⟩
      · exact Or.inr ⟨name, some i, hone, _, rfl⟩
  by_cases hc : s = .call
  · subst hc
    cases h with
    | @call g =>
      obtain ⟨name, _ | i⟩ := g
      · exact Or.inr ⟨name, none, rfl, rfl⟩
      · exact Or.inr ⟨name, some i, rfl, _, rfl⟩
  · refine Or.inl ⟨List.filterMap_eq_nil_iff.mpr (h.symbol?_eq_none hj hc), ?_⟩
    cases h with
    | jump _ => exact absurd rfl hj
    | call => exact absurd rfl hc
    | _ => exact ⟨_, rfl⟩

namespace Operation

/-- Every reference of the operation has an index. -/
def IsResolved (x : Operation) : Prop := ∀ o ∈ x.operands, o.IsResolved

theorem isResolved_iff {x : Operation} :
    x.IsResolved ↔ ∀ s ∈ x.operands.filterMap Operand.symbol?, ∃ i, s.index = some i := by
  simp only [IsResolved, Operand.IsResolved, List.mem_filterMap]
  exact ⟨fun h s ⟨o, ho, hs⟩ => h o ho s hs, fun h o ho s hs => h s ⟨o, ho, hs⟩⟩

/-- What becomes of an operation. No case applies with another. -/
inductive Verdict (x : Operation) : Except EncodeFault MachineWord → Prop
  | shape {m} (unfit : x.check = .error m) : Verdict x (.error (.shape x.opcode m))
  | unresolved {name} (fit : x.check = .ok ())
      (symbols : x.operands.filterMap Operand.symbol? = [⟨name, none⟩]) :
      Verdict x (.error (.unresolved name))
  | overflow {f n} (fit : x.check = .ok ()) (resolved : x.IsResolved) (stores : x.Stores f n)
      (large : 2 ^ f.width ≤ n) : Verdict x (.error (.fieldOverflow f n))
  | word {w} (fit : x.check = .ok ()) (resolved : x.IsResolved)
      (small : ∀ f n, x.Stores f n → n < 2 ^ f.width) (opcode : w.opcodeBits = x.opcode.byte)
      (held : ∀ f n, x.Stores f n → f.get w.part1 = n) : Verdict x (.ok w)

theorem encode_of_layout {x : Operation} {layout : Layout} (hcheck : x.check = .ok ())
    (hl : Layout.ofOperands x.opcode.shape x.operands = .ok layout) :
    x.encode = (pack ((.opcode, x.opcode.byte) :: layout.fields)).map
      fun part1 => ⟨UInt32.ofNat part1, layout.part2⟩ := by
  rw [encode, hcheck, hl]
  rfl

/-- A resolved operation is encoded or has a number that its field cannot hold. -/
theorem verdict_of_layout {x : Operation} {layout : Layout} (hcheck : x.check = .ok ())
    (hres : x.IsResolved) (hl : Layout.ofOperands x.opcode.shape x.operands = .ok layout) :
    x.Verdict x.encode := by
  cases hencode : x.encode with
  | ok w =>
    obtain ⟨_, layout', hl', hop, hcarries, _⟩ := encode_eq_ok hencode
    cases hl.symm.trans hl'
    have hheld : ∀ f n, x.Stores f n → f.get w.part1 = n :=
      fun f n h => hcarries _ (h.mem_fields hl)
    refine .word hcheck hres (fun f n h => ?_) hop hheld
    rw [← hheld f n h, ← Field.holds_iff]
    exact f.holds_get w.part1
  | error e =>
    rw [encode_of_layout hcheck hl, map_eq_error_iff] at hencode
    obtain ⟨f, n, hm, hn, rfl⟩ := pack_eq_error hencode
    rcases List.mem_cons.mp hm with heq | hm
    · cases heq
      exact absurd x.opcode.byte_lt hn
    · have hstores := (holds_or_stores (checkShape_eq_ok_iff.mp hcheck) hl _ hm).resolve_left hn
      rw [Field.holds_iff, Nat.not_lt] at hn
      exact .overflow hcheck hres hstores hn

/-- An operation is refused for the first of the three reasons that applies, and
otherwise encoded. -/
theorem verdict (x : Operation) : x.Verdict x.encode := by
  cases hcheck : x.check with
  | error m =>
    have hencode : x.encode = .error (.shape x.opcode m) := by rw [encode, hcheck]; rfl
    rw [hencode]
    exact .shape hcheck
  | ok =>
    rcases (checkShape_eq_ok_iff.mp hcheck).references with
      ⟨hnone, layout, hl⟩ | ⟨name, _ | i, hone, hl⟩
    · exact verdict_of_layout hcheck (isResolved_iff.mpr (by simp [hnone])) hl
    · have hencode : x.encode = .error (.unresolved name) := by rw [encode, hcheck, hl]; rfl
      rw [hencode]
      exact .unresolved hcheck hone
    · obtain ⟨layout, hl⟩ := hl
      exact verdict_of_layout hcheck (isResolved_iff.mpr (by simp [hone])) hl

/-! ## §4 At an index and in sequence -/

variable {x : Operation}

theorem encode_eq_shape_iff {op : Opcode} {m : ShapeMismatch} :
    x.encode = .error (.shape op m) ↔ op = x.opcode ∧ x.check = .error m := by
  constructor
  · intro h
    have hverdict := x.verdict
    rw [h] at hverdict
    cases hverdict with
    | shape unfit => exact ⟨rfl, unfit⟩
  · rintro ⟨rfl, hm⟩
    rw [encode, hm]
    rfl

theorem encode_eq_unresolved_iff {name : Text} :
    x.encode = .error (.unresolved name) ↔
      x.check = .ok () ∧ ∃ o ∈ x.operands, o.symbol? = some ⟨name, none⟩ := by
  rw [← List.mem_filterMap]
  have hverdict := x.verdict
  constructor
  · intro h
    rw [h] at hverdict
    cases hverdict with
    | unresolved fit symbols => exact ⟨fit, by rw [symbols]; exact .head _⟩
  · intro ⟨hcheck, hmem⟩
    have hnot : ¬ x.IsResolved := fun h => by
      obtain ⟨i, hi⟩ := isResolved_iff.mp h _ hmem
      cases hi
    generalize x.encode = result at hverdict ⊢
    cases hverdict with
    | shape unfit => cases hcheck.symm.trans unfit
    | unresolved _ symbols =>
      rw [symbols, List.mem_singleton] at hmem
      cases hmem
      rfl
    | overflow _ resolved => exact absurd resolved hnot
    | word _ resolved => exact absurd resolved hnot

theorem stores_of_encode {f : Field} {n : Nat} (h : x.encode = .error (.fieldOverflow f n)) :
    x.check = .ok () ∧ x.IsResolved ∧ x.Stores f n ∧ 2 ^ f.width ≤ n := by
  have hverdict := x.verdict
  rw [h] at hverdict
  cases hverdict with
  | overflow fit resolved stores large => exact ⟨fit, resolved, stores, large⟩

theorem exists_encode_iff :
    (∃ w, x.encode = .ok w) ↔
      x.check = .ok () ∧ x.IsResolved ∧ ∀ f n, x.Stores f n → n < 2 ^ f.width := by
  have hverdict := x.verdict
  generalize x.encode = result at hverdict ⊢
  cases hverdict with
  | shape unfit => simp [unfit]
  | unresolved _ symbols =>
    have hnot : ¬ x.IsResolved := fun h => by
      obtain ⟨i, hi⟩ := isResolved_iff.mp h ⟨_, none⟩ (by rw [symbols]; exact .head _)
      cases hi
    simp [hnot]
  | overflow _ _ stores large =>
    exact iff_of_false nofun fun h => absurd (h.2.2 _ _ stores) (Nat.not_lt.mpr large)
  | word fit resolved small => exact iff_of_true ⟨_, rfl⟩ ⟨fit, resolved, small⟩

theorem exists_overflow_iff :
    (∃ f n, x.encode = .error (.fieldOverflow f n)) ↔
      x.check = .ok () ∧ x.IsResolved ∧ ∃ f n, x.Stores f n ∧ 2 ^ f.width ≤ n := by
  constructor
  · rintro ⟨f, n, h⟩
    obtain ⟨fit, resolved, stores, large⟩ := stores_of_encode h
    exact ⟨fit, resolved, f, n, stores, large⟩
  · rintro ⟨fit, resolved, f, n, stores, large⟩
    have hverdict := x.verdict
    generalize x.encode = result at hverdict ⊢
    cases hverdict with
    | shape unfit => cases fit.symm.trans unfit
    | unresolved _ symbols =>
      obtain ⟨i, hi⟩ := isResolved_iff.mp resolved ⟨_, none⟩ (by rw [symbols]; exact .head _)
      cases hi
    | overflow => exact ⟨_, _, rfl⟩
    | word _ _ small => exact absurd (small f n stores) (Nat.not_lt.mpr large)

theorem held_of_encode {w : MachineWord} (h : x.encode = .ok w) :
    w.opcodeBits = x.opcode.byte ∧ ∀ f n, x.Stores f n → f.get w.part1 = n := by
  have hverdict := x.verdict
  rw [h] at hverdict
  cases hverdict with
  | word _ _ _ opcode held => exact ⟨opcode, held⟩

/-- Every number of the layout is in the word as it is, and so is the second part. -/
theorem laid_of_encode {w : MachineWord} (h : x.encode = .ok w) :
    ∃ layout, Layout.ofOperands x.opcode.shape x.operands = .ok layout ∧
      (∀ p ∈ layout.fields, p.1.get w.part1 = p.2) ∧ w.part2 = layout.part2 := by
  obtain ⟨_, layout, hl, _, hcarries, hpart2⟩ := encode_eq_ok h
  exact ⟨layout, hl, hcarries, hpart2⟩

/-- At an index an operation is refused for the first of the three reasons that
applies, and encoded when none does. -/
structure EncodesExactly (x : Operation) (index : Nat) : Prop where
  shape : ∀ op m, encodeAt index x = .error ⟨index, .shape op m⟩ ↔
    op = x.opcode ∧ x.check = .error m
  unresolved : ∀ name, encodeAt index x = .error ⟨index, .unresolved name⟩ ↔
    x.check = .ok () ∧ ∃ o ∈ x.operands, o.symbol? = some ⟨name, none⟩
  overflow : (∃ f n, encodeAt index x = .error ⟨index, .fieldOverflow f n⟩) ↔
    x.check = .ok () ∧ x.IsResolved ∧ ∃ f n, x.Stores f n ∧ 2 ^ f.width ≤ n
  /-- What is reported is a number of the operation that its field cannot hold. -/
  reported : ∀ f n, encodeAt index x = .error ⟨index, .fieldOverflow f n⟩ →
    x.Stores f n ∧ 2 ^ f.width ≤ n
  word : (∃ w, encodeAt index x = .ok w) ↔
    x.check = .ok () ∧ x.IsResolved ∧ ∀ f n, x.Stores f n → n < 2 ^ f.width
  /-- No number is cut, and none spills into the field of another. -/
  held : ∀ w, encodeAt index x = .ok w →
    w.opcodeBits = x.opcode.byte ∧ ∀ f n, x.Stores f n → f.get w.part1 = n
  /-- So it is of the type codes, the banks and what a move reads as well. -/
  laid : ∀ w, encodeAt index x = .ok w →
    ∃ layout, Layout.ofOperands x.opcode.shape x.operands = .ok layout ∧
      (∀ p ∈ layout.fields, p.1.get w.part1 = p.2) ∧ w.part2 = layout.part2
  index_eq : ∀ e, encodeAt index x = .error e → e.index = index

theorem encodesExactly (x : Operation) (index : Nat) : x.EncodesExactly index := by
  have herror {fault : EncodeFault} :
      encodeAt index x = .error ⟨index, fault⟩ ↔ x.encode = .error fault := by
    rw [encodeAt_eq_error_iff]
    exact and_iff_right rfl
  exact {
    shape := fun _ _ => herror.trans encode_eq_shape_iff
    unresolved := fun _ => herror.trans encode_eq_unresolved_iff
    overflow := by simp only [herror, exists_overflow_iff]
    reported := fun _ _ h => (stores_of_encode (herror.mp h)).2.2
    word := by simp only [encodeAt_eq_ok_iff, exists_encode_iff]
    held := fun _ h => held_of_encode (encodeAt_eq_ok_iff.mp h)
    laid := fun _ h => laid_of_encode (encodeAt_eq_ok_iff.mp h)
    index_eq := fun _ h => (encodeAt_eq_error_iff.mp h).1 }

end Operation

/-- Instructions are encoded one by one, at any index exactly as far as nothing
stands against it, and in sequence to all their words in order or to the error of
the first that has none. -/
theorem encode_fails_when_it_must :
    (∀ (x : Instruction) (index : Nat), x.operation.EncodesExactly index) ∧
    ∀ xs : List Instruction,
      (∀ ws, encodeAll xs = .ok ws ↔
        List.Forall₂ (fun x w => x.operation.encode = .ok w) xs ws) ∧
      ∀ e, encodeAll xs = .error e ↔
        ∃ x, xs[e.index]? = some x ∧ encodeAt e.index x.operation = .error e ∧
          ∀ y ∈ xs.take e.index, ∃ w, y.operation.encode = .ok w := by
  refine ⟨fun x index => x.operation.encodesExactly index, fun xs => ⟨fun ws => ?_, fun e => ?_⟩⟩
  · rw [encodeAll, encodeFrom_eq_ok_iff, List.forall₂_map_left_iff]
  · rw [encodeAll, encodeFrom_eq_error_iff]
    constructor
    · rintro ⟨i, x, hx, hi, he, hbefore⟩
      rw [Nat.zero_add] at hi
      subst hi
      rw [List.getElem?_map] at hx
      obtain ⟨y, hy, rfl⟩ := Option.map_eq_some_iff.mp hx
      refine ⟨y, hy, encodeAt_eq_error_iff.mpr ⟨rfl, he⟩, fun z hz => ?_⟩
      exact hbefore _ (by rw [← List.map_take]; exact List.mem_map_of_mem hz)
    · rintro ⟨x, hx, he, hbefore⟩
      refine ⟨e.index, x.operation, ?_, (Nat.zero_add _).symm, (encodeAt_eq_error_iff.mp he).2, ?_⟩
      · rw [List.getElem?_map, hx]
        rfl
      · rw [← List.map_take]
        exact List.forall_mem_map.mpr hbefore

end SensorScript
