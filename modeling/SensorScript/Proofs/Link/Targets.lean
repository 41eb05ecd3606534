/-
SensorScript.Proofs.Link.Targets — where the jumps and calls of linked instructions go.

A reference names a label or a function that has an index, however large. Linking
keeps the index in 32 bits, and encoding refuses what 24 bits cannot hold, so the
target that is encoded is the index less all multiples of 2³² in it
(`targets_of_linked`). Below 2³² nothing is lost and the second step refuses what
is too large. From there on it judges what the first step has cut: the label at
2³² + 5 is encoded as the target 5 (`cut_target_encoded`).

  §1 operations that refer to something, and what linking makes of them;
  §2 operations with a target, and what encoding makes of them;
  §3 linked instructions.
-/
import SensorScript.Proofs.Link.Sites
import SensorScript.Proofs.MachineWord.Faults
import SensorScript.Proofs.MachineWord.Sequence

namespace SensorScript

/-! ## §1 References -/

namespace Link

variable {symbols : SymbolTable} {owner i k n : Nat} {is js : List Instruction} {x : Instruction}
  {f : FunctionSpan} {field : Field} {index : Nat}

/-- What the operation names stands at the index of its table, for an instruction of
the function `owner`, and the field is the one for its target: a jump names the first
label of its name in the function, a call the first function of its name. -/
inductive RefersTo (symbols : SymbolTable) (owner : Nat) : Operation → Field → Nat → Prop
  | jump {op condition s i l} (shape : op.shape = .jump)
      (first : IsFirst (fun l => l.owner = owner ∧ l.name = s.name) symbols.labels.items i l) :
      RefersTo symbols owner ⟨op, [condition, .label s]⟩ .jumpTarget l.index
  | call {op s i f} (shape : op.shape = .call)
      (first : IsFirst (fun f => f.name = s.name) symbols.functions.items i f) :
      RefersTo symbols owner ⟨op, [.function s]⟩ .callTarget i

/-- The field of a target has 24 bits. -/
theorem RefersTo.holds_iff {a : Operation} (h : RefersTo symbols owner a field index) (m : Nat) :
    field.Holds m ↔ m < 0x1000000 := by
  cases h <;> exact Iff.rfl

theorem IsFirst.unique {α : Type} {P : α → Prop} {as : List α} {i j : Nat} {a b : α}
    (h : IsFirst P as i a) (h' : IsFirst P as j b) : i = j ∧ a = b := by
  obtain ⟨ha, hPa, hbefore⟩ := h
  obtain ⟨hb, hPb, hbefore'⟩ := h'
  rcases Nat.lt_trichotomy i j with hlt | rfl | hlt
  · exact absurd hPa (hbefore' i hlt a ha)
  · exact ⟨rfl, Option.some.inj (ha.symm.trans hb)⟩
  · exact absurd hPb (hbefore j hlt b hb)

theorem Gives.kind_eq {o o' : Operand} (h : Gives symbols owner o o') : o'.kind = o.kind := by
  cases h <;> rfl

/-- Every operand of an instruction in a range is what linking gives for it. -/
theorem gives_of_all (hapart : Apart symbols.functions.items is.length)
    (h : all symbols is = (js, .ok n)) (hf : symbols.functions.items[k]? = some f)
    (hi : Spans f i) (hx : is[i]? = some x) :
    ∃ y, js[i]? = some y ∧ y.operation.opcode = x.operation.opcode ∧
      List.Forall₂ (Gives symbols k) x.operation.operands y.operation.operands := by
  obtain ⟨_, hlinked⟩ := of_all_eq_ok hapart h
  obtain ⟨y, hy, hbare⟩ : ∃ y, js[i]? = some y ∧ y.bare = x.bare := by
    have hi := congrArg (·[i]?) hlinked.bare
    simp only [List.getElem?_map, hx, Option.map_some] at hi
    exact Option.map_eq_some_iff.mp hi
  have hoperation : y.bare.operation = x.bare.operation := congrArg (·.operation) hbare
  have hlength := congrArg (·.operands.length) hoperation
  simp only [Instruction.bare, List.length_map] at hlength
  refine ⟨y, hy, congrArg (·.opcode) hoperation, List.forall₂_iff_get.mpr ⟨hlength.symm, ?_⟩⟩
  intro j hj hj'
  obtain ⟨o', ⟨g, y', _, _, hy', ho'⟩, hgives⟩ :=
    hlinked.given ⟨k, i, j⟩ _ ⟨f, x, hf, hi, hx, List.getElem?_eq_getElem hj⟩ trivial
  cases hy.symm.trans hy'
  rw [List.getElem?_eq_getElem hj'] at ho'
  obtain rfl := Option.some.inj ho'
  exact hgives

end Link

/-! ## §2 Targets -/

/-- The index that the operation was resolved to, and the field that it goes into. -/
inductive Operation.Targets : Operation → Field → UInt32 → Prop
  | jump {op condition name target} (shape : op.shape = .jump) :
      Targets ⟨op, [condition, .label ⟨name, some target⟩]⟩ .jumpTarget target
  | call {op name target} (shape : op.shape = .call) :
      Targets ⟨op, [.function ⟨name, some target⟩]⟩ .callTarget target

section Encoding

variable {x : Operation} {field : Field} {target : UInt32}

theorem Operation.Targets.stores (h : x.Targets field target) : x.Stores field target.toNat := by
  cases h with
  | jump shape => exact .jumpTarget shape
  | call shape => exact .callTarget shape

/-- The target is the only number of the operation that may be too large. -/
theorem Operation.Targets.eq_of_stores (h : x.Targets field target) {f : Field} {n : Nat}
    (hs : x.Stores f n) : f = field ∧ n = target.toNat := by
  cases h with
  | jump shape =>
    cases hs with
    | jumpTarget _ => exact ⟨rfl, rfl⟩
    | shiftDestination shape' => cases shape.symm.trans shape'
    | shiftSource shape' => cases shape.symm.trans shape'
    | movDestination shape' => cases shape.symm.trans shape'
    | movOffsetRegister shape' => cases shape.symm.trans shape'
    | movOffset shape' => cases shape.symm.trans shape'
  | call shape =>
    cases hs with
    | callTarget _ => exact ⟨rfl, rfl⟩

/-- An operation that fits its opcode is encoded with its target as it is, or refused
for a target that is too large. -/
theorem Operation.Targets.encode (h : x.Targets field target) (hcheck : x.check = .ok ()) :
    (∃ w, x.encode = .ok w ∧ field.Holds target.toNat ∧ field.get w.part1 = target.toNat) ∨
      (¬ field.Holds target.toNat ∧ x.encode = .error (.fieldOverflow field target.toNat)) := by
  have hverdict := x.verdict
  generalize x.encode = result at hverdict ⊢
  cases hverdict with
  | shape unfit => cases hcheck.symm.trans unfit
  | unresolved _ symbols =>
    have hmem : ∃ name, (⟨name, some target⟩ : Symbol) ∈ x.operands.filterMap Operand.symbol? := by
      cases h with
      | jump _ => exact ⟨_, List.mem_filterMap.mpr ⟨_, .tail _ (.head _), rfl⟩⟩
      | call _ => exact ⟨_, List.mem_filterMap.mpr ⟨_, .head _, rfl⟩⟩
    obtain ⟨name, hmem⟩ := hmem
    rw [symbols, List.mem_singleton] at hmem
    cases hmem
  | overflow _ _ stores large =>
    obtain ⟨rfl, rfl⟩ := h.eq_of_stores stores
    rw [Field.holds_iff]
    exact Or.inr ⟨Nat.not_lt.mpr large, rfl⟩
  | word _ _ small _ held =>
    rw [Field.holds_iff]
    exact Or.inl ⟨_, rfl, small _ _ h.stores, held _ _ h.stores⟩

end Encoding

/-! ## §3 Linked instructions -/

namespace Link

variable {symbols : SymbolTable} {owner i k n : Nat} {is js : List Instruction} {x : Instruction}
  {f : FunctionSpan} {field : Field} {index : Nat}

/-- Linking resolves what an operation refers to, less what 32 bits do not hold. -/
theorem RefersTo.targets {a b : Operation} (h : RefersTo symbols owner a field index)
    (hopcode : b.opcode = a.opcode)
    (hoperands : List.Forall₂ (Gives symbols owner) a.operands b.operands) :
    b.Targets field (UInt32.ofNat index) := by
  obtain ⟨op, os⟩ := b
  cases h with
  | jump shape first =>
    cases hopcode
    obtain _ | ⟨_, _ | ⟨hlabel, ⟨⟩⟩⟩ := hoperands
    cases hlabel with
    | label first' =>
      obtain ⟨_, rfl⟩ := first.unique first'
      exact .jump shape
    | value h => cases h
  | call shape first =>
    cases hopcode
    obtain _ | ⟨hfunction, ⟨⟩⟩ := hoperands
    cases hfunction with
    | function first' =>
      obtain ⟨rfl, _⟩ := first.unique first'
      exact .call shape
    | value h => cases h

/-- A jump or a call whose linked form fits its opcode refers to something. -/
theorem exists_refersTo {a b : Operation} (hfits : Fits b.opcode.shape b.operands)
    (hopcode : b.opcode = a.opcode)
    (hoperands : List.Forall₂ (Gives symbols owner) a.operands b.operands)
    (hshape : a.opcode.shape = .jump ∨ a.opcode.shape = .call) :
    ∃ field index, RefersTo symbols owner a field index := by
  obtain ⟨op, os⟩ := a
  rw [hopcode] at hfits
  rcases hshape with hshape | hshape
  all_goals
    simp only at hfits hshape
    rw [hshape] at hfits
    generalize b.operands = os' at hfits hoperands
    cases hfits
  · obtain _ | ⟨_, _ | ⟨hlabel, ⟨⟩⟩⟩ := hoperands
    cases hlabel with
    | label first => exact ⟨_, _, .jump hshape first⟩
    | value h => cases h
  · obtain _ | ⟨hfunction, ⟨⟩⟩ := hoperands
    cases hfunction with
    | function first => exact ⟨_, _, .call hshape first⟩
    | value h => cases h

/-- Of an instruction in the range of a function, in a list that is linked:

* if the list is encoded then a jump or a call refers to something, and its target is
  the index of that less all multiples of 2³², which is the whole index exactly when
  that is below 2³²;
* if what is left of the index does not fit 24 bits, the list is not encoded: it
  is refused for that target, or for an instruction before it. -/
theorem targets_of_linked (hapart : Apart symbols.functions.items is.length)
    (h : all symbols is = (js, .ok n)) (hf : symbols.functions.items[k]? = some f)
    (hi : Spans f i) (hx : is[i]? = some x) :
    (∀ ws, encodeAll js = .ok ws →
      x.operation.opcode.shape = .jump ∨ x.operation.opcode.shape = .call →
      ∃ field index w, RefersTo symbols k x.operation field index ∧ ws[i]? = some w ∧
        field.get w.part1 = index % UInt32.size ∧
        (field.get w.part1 = index ↔ index < UInt32.size)) ∧
    ∀ field index, RefersTo symbols k x.operation field index → x.operation.check = .ok () →
      0x1000000 ≤ index % UInt32.size →
      ∃ e, encodeAll js = .error e ∧
        (e.index < i ∨ e = ⟨i, .fieldOverflow field (index % UInt32.size)⟩) := by
  obtain ⟨y, hy, hopcode, hoperands⟩ := gives_of_all hapart h hf hi hx
  have hoperation : (js.map (·.operation))[i]? = some y.operation := by
    rw [List.getElem?_map, hy]
    rfl
  have hmod (index : Nat) : (UInt32.ofNat index).toNat = index % UInt32.size :=
    UInt32.toNat_ofNat'
  constructor
  · intro ws hws hshape
    obtain ⟨w, hw, hencode⟩ :=
      exists_getElem?_of_forall₂ (encodeFrom_eq_ok_iff.mp hws).flip hoperation
    have hfits := (encode_eq_ok_iff.mp hencode).1
    obtain ⟨field, index, hrefers⟩ := exists_refersTo hfits hopcode hoperands hshape
    have htargets := (hrefers.targets hopcode hoperands).encode (checkShape_eq_ok_iff.mpr hfits)
    rw [hmod, hencode] at htargets
    rcases htargets with ⟨w', hw', hholds, hget⟩ | ⟨_, herror⟩
    · cases hw'
      refine ⟨field, index, w, hrefers, hw, hget, ?_⟩
      rw [hget]
      exact ⟨fun heq => heq ▸ Nat.mod_lt _ (by decide), Nat.mod_eq_of_lt⟩
    · cases herror
  · intro field index hrefers hcheck hlarge
    have hcheck : y.operation.check = .ok () := by
      refine checkShape_eq_ok_iff.mpr ?_
      rw [hopcode]
      exact (checkShape_eq_ok_iff.mp hcheck).of_kinds (hoperands.imp fun _ _ h => h.kind_eq)
    have hnot : ¬ field.Holds (index % UInt32.size) :=
      fun hholds => Nat.not_lt.mpr hlarge ((hrefers.holds_iff _).mp hholds)
    have htargets := (hrefers.targets hopcode hoperands).encode hcheck
    rw [hmod] at htargets
    obtain ⟨_, herror⟩ := htargets.resolve_left fun ⟨_, _, hholds, _⟩ => hnot hholds
    have hstops := encodeFrom_of_fault 0 hoperation herror
    rwa [Nat.zero_add] at hstops

/-- A function of a jump and a call, whose label stands for the instruction at an index. -/
def tablesOfLabel (index : Nat) : SymbolTable where
  labels := { name := "label", capacity := 1, items := [⟨['L'], index, 0⟩], fits := Nat.le_refl 1 }
  functions := { name := "function", capacity := 1, items := [⟨['f'], 0, 2⟩],
                 fits := Nat.le_refl 1 }

/-- The jump and the call, with the indices they are resolved to. -/
def jumpAndCall (label function : Option UInt32) : List Instruction :=
  [⟨⟨.jnz, [.register 0, .label ⟨['L'], label⟩]⟩, 0, 2⟩,
    ⟨⟨.call, [.function ⟨['f'], function⟩]⟩, 0, 3⟩]

theorem apart_tablesOfLabel (index : Nat) : Apart (tablesOfLabel index).functions.items 2 where
  inside := List.forall_mem_singleton.mpr ⟨Nat.zero_le 2, Nat.le_refl 2⟩
  disjoint := List.pairwise_singleton ..

theorem refersTo_label (index : Nat) :
    RefersTo (tablesOfLabel index) 0 ⟨.jnz, [.register 0, .label ⟨['L'], none⟩]⟩ .jumpTarget
      index :=
  .jump (l := ⟨['L'], index, 0⟩) (i := 0) rfl
    ⟨rfl, ⟨rfl, rfl⟩, fun _ h => absurd h (Nat.not_lt_zero _)⟩

/-- The label at 2³² + 5 gives a target that fits, and the one at 2²⁴ is refused. -/
theorem targets_of_far_labels :
    let far := tablesOfLabel 0x100000005
    let near := tablesOfLabel 0x1000000
    let words : List MachineWord := [⟨0x80000005, 0⟩, ⟨0xC0000000, 0⟩]
    all far (jumpAndCall none none) = (jumpAndCall (some 5) (some 0), .ok 2) ∧
    encodeAll (jumpAndCall (some 5) (some 0)) = .ok words ∧
    (∃ field index w, RefersTo far 0 ⟨.jnz, [.register 0, .label ⟨['L'], none⟩]⟩ field index ∧
      words[0]? = some w ∧ field.get w.part1 = index % UInt32.size) ∧
    all near (jumpAndCall none none) = (jumpAndCall (some 0x1000000) (some 0), .ok 2) ∧
    ∃ e, encodeAll (jumpAndCall (some 0x1000000) (some 0)) = .error e ∧
      (e.index < 0 ∨ e = ⟨0, .fieldOverflow .jumpTarget 0x1000000⟩) := by
  intro far near words
  have hfar : all far (jumpAndCall none none) = (jumpAndCall (some 5) (some 0), .ok 2) := by decide
  have hwords : encodeAll (jumpAndCall (some 5) (some 0)) = .ok words := by decide
  have hnear : all near (jumpAndCall none none) =
      (jumpAndCall (some 0x1000000) (some 0), .ok 2) := by decide
  have hspans : Spans ⟨['f'], 0, 2⟩ 0 := ⟨Nat.le_refl 0, Nat.zero_lt_two⟩
  obtain ⟨hencoded, _⟩ :=
    targets_of_linked (apart_tablesOfLabel 0x100000005) hfar (k := 0) (i := 0) rfl hspans rfl
  obtain ⟨field, index, w, hrefers, hw, hget, _⟩ := hencoded words hwords (Or.inl rfl)
  obtain ⟨_, hrefused⟩ :=
    targets_of_linked (apart_tablesOfLabel 0x1000000) hnear (k := 0) (i := 0) rfl hspans rfl
  exact ⟨hfar, hwords, ⟨field, index, w, hrefers, hw, hget⟩, hnear,
    hrefused .jumpTarget 0x1000000 (refersTo_label _) (by decide) (by decide)⟩

/-- Not every target is the whole index: in a function that covers the list, the jump
to the label at 2³² + 5 is encoded with the target 5. -/
theorem cut_target_encoded :
    ¬ ∀ (symbols : SymbolTable) (is js : List Instruction) (n : Nat) (ws : List MachineWord),
      Apart symbols.functions.items is.length →
      (∀ i < is.length, ∃ f ∈ symbols.functions.items, Spans f i) →
      all symbols is = (js, .ok n) → encodeAll js = .ok ws →
      ∀ k i f x w field index, symbols.functions.items[k]? = some f → Spans f i →
        is[i]? = some x → ws[i]? = some w → RefersTo symbols k x.operation field index →
        field.get w.part1 = index := by
  intro h
  have hcovered : ∀ i < 2, ∃ f ∈ (tablesOfLabel 0x100000005).functions.items, Spans f i :=
    fun i hi => ⟨_, .head _, Nat.zero_le i, hi⟩
  have htarget := h (tablesOfLabel 0x100000005) (jumpAndCall none none)
    (jumpAndCall (some 5) (some 0)) 2 [⟨0x80000005, 0⟩, ⟨0xC0000000, 0⟩]
    (apart_tablesOfLabel _) hcovered (by decide) (by decide) 0 0 _ _ _ _ _ rfl
    ⟨Nat.le_refl 0, Nat.zero_lt_two⟩ rfl rfl
    (refersTo_label _)
  revert htarget
  decide

end Link

end SensorScript
