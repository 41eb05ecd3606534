/-
SensorScript.Proofs.Link.Sites — what linking makes of any list of instructions.

Nothing is asked of the tables here but that the ranges of the functions lie in
the list and do not overlap. Every operand in a range then stands at one site,
and linking goes through the sites in order: all of them are resolved, or those
before the first one that names nothing.

  §1 a list that is linked up to an item, and one that is linked to its end;
  §2 what an operand names, and instructions linked up to an operand;
  §3 ranges, and sites in their order;
  §4 functions linked up to a site of one of them;
  §5 lists linked up to a site.
-/
import SensorScript.Proofs.Link

namespace SensorScript.Link

/-! ## §1 Items -/

section Items

variable {α : Type} {f : α → Linked α} {as bs : List α} {n : Nat} {e : LinkError}

theorem exists_of_each_eq_ok (h : each f as = (bs, .ok n)) {i : Nat} {a : α}
    (ha : as[i]? = some a) : ∃ b m, bs[i]? = some b ∧ f a = (b, .ok m) := by
  obtain ⟨b, hb, m, hm⟩ := exists_getElem?_of_forall₂ (forall₂_each h).flip ha
  exact ⟨b, m, hb, hm⟩

/-- Linking ended at the item `a`, which it left as `b`: the items before it are
linked and those after it are as they were. -/
structure EndsAt (f : α → Linked α) (as bs : List α) (e : LinkError) (i : Nat) (a b : α) :
    Prop where
  item : as[i]? = some a
  left : bs[i]? = some b
  error : f a = (b, .error e)
  before : ∀ j < i, ∀ c, as[j]? = some c → ∃ d m, bs[j]? = some d ∧ f c = (d, .ok m)
  behind : ∀ j, i < j → bs[j]? = as[j]?

theorem exists_endsAt (h : each f as = (bs, .error e)) : ∃ i a b, EndsAt f as bs e i a b := by
  induction as generalizing bs with
  | nil => cases h
  | cons a as ih =>
    simp only [each] at h
    split at h
    next b e' hb =>
      cases h
      refine ⟨0, a, b, rfl, rfl, hb, fun _ hj => absurd hj (Nat.not_lt_zero _), fun j hj => ?_⟩
      obtain ⟨j, rfl⟩ := Nat.exists_eq_succ_of_ne_zero (Nat.ne_of_gt hj)
      rfl
    next b m hb =>
      obtain ⟨rfl, hrest⟩ := Prod.mk.inj h
      obtain ⟨i, c, d, hi⟩ := ih (Prod.ext rfl (map_eq_error_iff.mp hrest))
      refine ⟨i + 1, c, d, hi.item, hi.left, hi.error, fun j hj => ?_, fun j hj => ?_⟩
      · intro c' hc'
        cases j with
        | zero =>
          cases hc'
          exact ⟨b, m, rfl, hb⟩
        | succ j => exact hi.before j (Nat.lt_of_succ_lt_succ hj) c' hc'
      · obtain ⟨j, rfl⟩ := Nat.exists_eq_succ_of_ne_zero (Nat.ne_of_gt (Nat.zero_lt_of_lt hj))
        exact hi.behind j (Nat.lt_of_succ_lt_succ hj)

/-- Items that each count the references in them count those in all of them. -/
theorem length_of_each_eq_ok {β : Type} {refs : α → List β}
    (hrefs : ∀ a b m, f a = (b, .ok m) → m = (refs a).length) (h : each f as = (bs, .ok n)) :
    n = (as.flatMap refs).length := by
  induction as generalizing bs n with
  | nil => cases h; rfl
  | cons a as ih =>
    simp only [each] at h
    split at h
    · cases h
    next b m hb =>
      obtain ⟨_, hrest⟩ := Prod.mk.inj h
      obtain ⟨k, hk, rfl⟩ := map_eq_ok_iff.mp hrest
      rw [List.flatMap_cons, List.length_append, hrefs a b m hb, ih (Prod.ext rfl hk)]

end Items

/-! ## §2 Operands -/

/-- `a` is the first item of the list that has the property, and `i` its index. -/
def IsFirst {α : Type} (P : α → Prop) (as : List α) (i : Nat) (a : α) : Prop :=
  as[i]? = some a ∧ P a ∧ ∀ j < i, ∀ b, as[j]? = some b → ¬ P b

/-- What an operand becomes in a function: a label has the index of the first
label of its name in the function, a function reference that of the first
function of its name, and a value is left as it is. -/
inductive Gives (symbols : SymbolTable) (owner : Nat) : Operand → Operand → Prop
  | label {s i l}
      (first : IsFirst (fun l => l.owner = owner ∧ l.name = s.name) symbols.labels.items i l) :
      Gives symbols owner (.label s) (.label { s with index := some (UInt32.ofNat l.index) })
  | function {s i f} (first : IsFirst (fun f => f.name = s.name) symbols.functions.items i f) :
      Gives symbols owner (.function s) (.function { s with index := some (UInt32.ofNat i) })
  | value {o} (h : o.symbol? = none) : Gives symbols owner o o

/-- The name of a label is that of one in the function, and the name of a
function that of one in the table. -/
def Known (symbols : SymbolTable) (owner : Nat) : Operand → Prop
  | .label s => ∃ l ∈ symbols.labels.items, l.owner = owner ∧ l.name = s.name
  | .function s => ∃ f ∈ symbols.functions.items, f.name = s.name
  | _ => True

/-- The error that an operand is refused with. -/
def undefined? : Operand → Option LinkError
  | .label s => some (.undefinedLabel s.name)
  | .function s => some (.undefinedFunction s.name)
  | _ => none

/-- The name that the operand refers to, if it is a reference. -/
def operandReferences (o : Operand) : List Text := (o.symbol?.map (·.name)).toList

/-- The names that the instruction refers to. -/
def references (x : Instruction) : List Text := x.operation.operands.flatMap operandReferences

section Operands

variable {symbols : SymbolTable} {owner : Nat} {o o' : Operand} {e : LinkError} {n : Nat}
  {x y : Instruction}

theorem Gives.known (h : Gives symbols owner o o') : Known symbols owner o := by
  cases h with
  | label first => exact ⟨_, List.mem_of_getElem? first.1, first.2.1⟩
  | function first => exact ⟨_, List.mem_of_getElem? first.1, first.2.1⟩
  | value h =>
    cases o with
    | label s => cases h
    | function s => cases h
    | _ => trivial

theorem Resolves.gives (h : Resolves symbols owner o o') : Gives symbols owner o o' := by
  cases h with
  | label found =>
    obtain ⟨hname, i, hi, hl, hfirst⟩ := List.find?_eq_some_iff_getElem.mp found
    refine .label ⟨List.getElem?_eq_some_iff.mpr ⟨hi, hl⟩, of_decide_eq_true hname, ?_⟩
    intro j hj b hb
    obtain ⟨hlt, rfl⟩ := List.getElem?_eq_some_iff.mp hb
    simpa only [Bool.not_eq_true', decide_eq_false_iff_not] using hfirst j hj
  | function found =>
    obtain ⟨hi, hname, hfirst⟩ := List.findIdx?_eq_some_iff_getElem.mp found
    refine .function ⟨List.getElem?_eq_getElem hi, of_decide_eq_true hname, ?_⟩
    intro j hj b hb
    obtain ⟨hlt, rfl⟩ := List.getElem?_eq_some_iff.mp hb
    simpa only [decide_eq_true_eq] using hfirst j hj
  | value h => exact .value h

/-- An operand that is linked counts as often as it is a reference. -/
theorem of_operand_eq_ok (h : operand symbols owner o = (o', .ok n)) :
    Gives symbols owner o o' ∧ n = (operandReferences o).length := by
  refine ⟨(resolves_of_operand h).gives, ?_⟩
  unfold operand at h
  split at h
  next heq =>
    cases h
    unfold resolve at heq
    split at heq
    · split at heq <;> cases heq
      rfl
    · split at heq <;> cases heq
      rfl
    next hlabel hfunction =>
      cases heq
      cases o with
      | label s => exact absurd rfl (hlabel s)
      | function s => exact absurd rfl (hfunction s)
      | _ => rfl
  next => cases h

/-- An operand that is refused is left as it was. -/
theorem of_operand_eq_error (h : operand symbols owner o = (o', .error e)) :
    o' = o ∧ ¬ Known symbols owner o ∧ undefined? o = some e := by
  unfold operand at h
  split at h
  next => cases h
  next heq =>
    cases h
    unfold resolve at heq
    split at heq
    next s =>
      split at heq <;> cases heq
      next hnone => simpa [Known, undefined?] using List.find?_eq_none.mp hnone
    next s =>
      split at heq <;> cases heq
      next hnone => simpa [Known, undefined?] using List.findIdx?_eq_none_iff.mp hnone
    next => cases heq

/-- The operands at the places are what linking gives for them, and the others
are as they were. -/
structure OperandsUpTo (symbols : SymbolTable) (owner : Nat) (linked : Nat → Prop)
    (x y : Instruction) : Prop where
  given : ∀ j o, x.operation.operands[j]? = some o → linked j →
    ∃ o', y.operation.operands[j]? = some o' ∧ Gives symbols owner o o'
  kept : ∀ j o, x.operation.operands[j]? = some o → ¬ linked j →
    y.operation.operands[j]? = some o

/-- The operand at a position of the instruction is refused. -/
def RefusedAt (symbols : SymbolTable) (owner : Nat) (x : Instruction) (j : Nat) (e : LinkError) :
    Prop :=
  ∃ o, x.operation.operands[j]? = some o ∧ ¬ Known symbols owner o ∧ undefined? o = some e

theorem OperandsUpTo.of_iff {linked linked' : Nat → Prop}
    (h : OperandsUpTo symbols owner linked x y) (hiff : ∀ j, linked' j ↔ linked j) :
    OperandsUpTo symbols owner linked' x y := by
  rwa [show linked' = linked from funext fun j => propext (hiff j)]

theorem OperandsUpTo.refl (x : Instruction) :
    OperandsUpTo symbols owner (fun _ => False) x x :=
  ⟨fun _ _ _ h => h.elim, fun _ _ h _ => h⟩

theorem of_instruction_eq_ok (h : instruction symbols owner x = (y, .ok n)) :
    OperandsUpTo symbols owner (fun _ => True) x y ∧ n = (references x).length := by
  unfold instruction at h
  obtain ⟨rfl, hn⟩ := Prod.mk.inj h
  have heach : each (operand symbols owner) x.operation.operands = (_, .ok n) := Prod.ext rfl hn
  refine ⟨⟨fun j o ho _ => ?_, fun _ _ _ h => absurd trivial h⟩,
    length_of_each_eq_ok (fun _ _ _ h => (of_operand_eq_ok h).2) heach⟩
  obtain ⟨o', m, ho', hoperand⟩ := exists_of_each_eq_ok heach ho
  exact ⟨o', ho', (of_operand_eq_ok hoperand).1⟩

theorem of_instruction_eq_error (h : instruction symbols owner x = (y, .error e)) :
    ∃ j, RefusedAt symbols owner x j e ∧ OperandsUpTo symbols owner (· < j) x y := by
  unfold instruction at h
  obtain ⟨rfl, he⟩ := Prod.mk.inj h
  have heach : each (operand symbols owner) x.operation.operands = (_, .error e) := Prod.ext rfl he
  obtain ⟨j, o, o', hj⟩ := exists_endsAt heach
  obtain ⟨rfl, hunknown, hundefined⟩ := of_operand_eq_error hj.error
  refine ⟨j, ⟨o', hj.item, hunknown, hundefined⟩, fun i c hc hi => ?_, fun i c hc hi => ?_⟩
  · obtain ⟨d, m, hd, hoperand⟩ := hj.before i hi c hc
    exact ⟨d, hd, (of_operand_eq_ok hoperand).1⟩
  · rcases Nat.lt_or_eq_of_le (Nat.le_of_not_lt hi) with hlt | rfl
    · exact (hj.behind i hlt).trans hc
    · exact hj.left.trans (hj.item.symm.trans hc)

end Operands

/-! ## §3 Ranges and sites -/

/-- The index is in the range of the function. -/
def Spans (f : FunctionSpan) (i : Nat) : Prop := f.start ≤ i ∧ i < f.stop

/-- The ranges of the functions lie in a list of that length, and no index is in
two of them. -/
structure Apart (fs : List FunctionSpan) (length : Nat) : Prop where
  inside : ∀ f ∈ fs, f.start ≤ f.stop ∧ f.stop ≤ length
  disjoint : fs.Pairwise fun f g => ∀ i, Spans f i → ¬ Spans g i

/-- The place of an operand: the index of a function, the index of an instruction
in its range, and the position of the operand in the instruction. -/
structure Site where
  function : Nat
  instruction : Nat
  position : Nat

/-- The order in which sites are linked. -/
def Site.Before (s t : Site) : Prop :=
  s.function < t.function ∨ s.function = t.function ∧
    (s.instruction < t.instruction ∨ s.instruction = t.instruction ∧ s.position < t.position)

section Ranges

variable {symbols : SymbolTable} {owner i n : Nat} {f : FunctionSpan} {is js : List Instruction}
  {x : Instruction} {e : LinkError} {result : Except LinkError Nat}

/-- The instructions in the range of the function. -/
def range (f : FunctionSpan) (is : List Instruction) : List Instruction :=
  (is.drop f.start).take (f.stop - f.start)

theorem getElem?_range (hi : Spans f i) : (range f is)[i - f.start]? = is[i]? := by
  obtain ⟨hstart, hstop⟩ := hi
  rw [range, List.getElem?_take_of_lt (by omega), List.getElem?_drop, Nat.add_sub_cancel' hstart]

/-- Linking a range links the instructions in it, one after the other. -/
theorem each_of_span (h : span symbols owner f.start f.stop is = (js, result)) :
    each (instruction symbols owner) (range f is) =
      ((each (instruction symbols owner) (range f is)).1, result) :=
  Prod.ext rfl (Prod.mk.inj h).2

theorem getElem?_of_span (hf : f.start ≤ f.stop ∧ f.stop ≤ is.length)
    (h : span symbols owner f.start f.stop is = (js, result)) (hi : Spans f i) :
    js[i]? = (each (instruction symbols owner) (range f is)).1[i - f.start]? := by
  obtain ⟨rfl, _⟩ := Prod.mk.inj h
  obtain ⟨hstart, hstop⟩ := hi
  have htake : (is.take f.start).length = f.start := by
    simp
    omega
  rw [List.append_assoc, List.getElem?_append_right (by omega), htake, List.getElem?_append_left]
  · rfl
  · simp
    omega

/-- Outside of the range nothing changes. -/
theorem getElem?_of_not_spans (hf : f.start ≤ f.stop ∧ f.stop ≤ is.length)
    (h : span symbols owner f.start f.stop is = (js, result)) (hi : ¬ Spans f i) :
    js[i]? = is[i]? := by
  obtain ⟨rfl, _⟩ := Prod.mk.inj h
  have htake : (is.take f.start).length = f.start := by
    simp
    omega
  have hinside : (each (instruction symbols owner)
      ((is.drop f.start).take (f.stop - f.start))).1.length = f.stop - f.start := by
    simp
    omega
  rw [List.append_assoc]
  rcases Nat.lt_or_ge i f.start with hlt | hge
  · rw [List.getElem?_append_left (by omega), List.getElem?_take_of_lt hlt]
  · have hstop : f.stop ≤ i := Nat.le_of_not_lt fun hlt => hi ⟨hge, hlt⟩
    rw [List.getElem?_append_right (by omega), htake, List.getElem?_append_right (by omega),
      hinside, List.drop_drop, List.getElem?_drop]
    congr 1
    omega

theorem of_span_eq_ok (hf : f.start ≤ f.stop ∧ f.stop ≤ is.length)
    (h : span symbols owner f.start f.stop is = (js, .ok n)) :
    (∀ i x, Spans f i → is[i]? = some x →
      ∃ y, js[i]? = some y ∧ OperandsUpTo symbols owner (fun _ => True) x y) ∧
    n = ((range f is).flatMap references).length := by
  have heach := each_of_span h
  refine ⟨fun i x hi hx => ?_,
    length_of_each_eq_ok (fun _ _ _ hx => (of_instruction_eq_ok hx).2) heach⟩
  rw [← getElem?_range hi] at hx
  rw [getElem?_of_span hf h hi]
  obtain ⟨y, m, hy, hinstruction⟩ := exists_of_each_eq_ok heach hx
  exact ⟨y, hy, (of_instruction_eq_ok hinstruction).1⟩

theorem of_span_eq_error (hf : f.start ≤ f.stop ∧ f.stop ≤ is.length)
    (h : span symbols owner f.start f.stop is = (js, .error e)) :
    ∃ i x j, Spans f i ∧ is[i]? = some x ∧ RefusedAt symbols owner x j e ∧
      ∀ i' x', Spans f i' → is[i']? = some x' → ∃ y', js[i']? = some y' ∧
        OperandsUpTo symbols owner (fun j' => i' < i ∨ i' = i ∧ j' < j) x' y' := by
  obtain ⟨k, x, y, hk⟩ := exists_endsAt (each_of_span h)
  obtain ⟨j, hrefused, hupTo⟩ := of_instruction_eq_error hk.error
  have hlt : k < f.stop - f.start := by
    have := (List.getElem?_eq_some_iff.mp hk.item).1
    rw [range, List.length_take] at this
    omega
  have hspans : Spans f (f.start + k) := ⟨by omega, by omega⟩
  have hx : is[f.start + k]? = some x := by
    rw [← getElem?_range hspans, Nat.add_sub_cancel_left]
    exact hk.item
  refine ⟨f.start + k, x, j, hspans, hx, hrefused, fun i' x' hi' hx' => ?_⟩
  have hstart : f.start ≤ i' := hi'.1
  rw [getElem?_of_span hf h hi']
  rw [← getElem?_range hi'] at hx'
  rcases Nat.lt_trichotomy (i' - f.start) k with hbefore | heq | hbehind
  · obtain ⟨y', m, hy', hinstruction⟩ := hk.before _ hbefore x' hx'
    exact ⟨y', hy', (of_instruction_eq_ok hinstruction).1.of_iff fun j' =>
      iff_of_true (Or.inl (by omega)) trivial⟩
  · rw [heq] at hx' ⊢
    cases hk.item.symm.trans hx'
    exact ⟨y, hk.left, hupTo.of_iff fun j' => by omega⟩
  · exact ⟨x', (hk.behind _ hbehind).trans hx', (OperandsUpTo.refl x').of_iff fun j' =>
      iff_of_false (by omega) id⟩

end Ranges

/-! ## §4 Functions -/

/-- Of the functions, the first of which has the index `first`, the operands at
the sites have been linked. -/
structure UpTo (symbols : SymbolTable) (first : Nat) (fs : List FunctionSpan)
    (linked : Site → Prop) (is js : List Instruction) : Prop where
  inside : ∀ k f i x, fs[k]? = some f → Spans f i → is[i]? = some x → ∃ y, js[i]? = some y ∧
    OperandsUpTo symbols (first + k) (fun j => linked ⟨first + k, i, j⟩) x y
  outside : ∀ i, (∀ f ∈ fs, ¬ Spans f i) → js[i]? = is[i]?

section Functions

variable {symbols : SymbolTable} {first n : Nat} {f : FunctionSpan} {fs : List FunctionSpan}
  {linked : Site → Prop} {is is' js : List Instruction} {e : LinkError}

/-- Where no site is linked, nothing has changed. -/
theorem UpTo.refl (h : ∀ s, linked s → s.function < first) (is : List Instruction) :
    UpTo symbols first fs linked is is where
  inside k _ _ x _ _ hx := by
    refine ⟨x, hx, (OperandsUpTo.refl x).of_iff fun _ => iff_of_false (fun hlinked => ?_) id⟩
    exact Nat.not_lt.mpr (Nat.le_add_right first k) (h _ hlinked)
  outside _ _ := rfl

/-- What is linked in the first function, and then in the others, is linked in all. -/
theorem UpTo.cons (hdisjoint : ∀ g ∈ fs, ∀ i, Spans f i → ¬ Spans g i)
    (hinside : ∀ i x, Spans f i → is[i]? = some x → ∃ y, is'[i]? = some y ∧
      OperandsUpTo symbols first (fun j => linked ⟨first, i, j⟩) x y)
    (houtside : ∀ i, ¬ Spans f i → is'[i]? = is[i]?)
    (hrest : UpTo symbols (first + 1) fs linked is' js) :
    UpTo symbols first (f :: fs) linked is js where
  inside k g i x hg hi hx := by
    cases k with
    | zero =>
      cases hg
      obtain ⟨y, hy, hupTo⟩ := hinside i x hi hx
      refine ⟨y, ?_, hupTo⟩
      rw [hrest.outside i fun g hg => hdisjoint g hg i hi]
      exact hy
    | succ k =>
      have hother : ¬ Spans f i := fun hf => hdisjoint g (List.mem_of_getElem? hg) i hf hi
      rw [← houtside i hother] at hx
      rw [show first + (k + 1) = first + 1 + k by omega]
      exact hrest.inside k g i x hg hi hx
  outside i hi := by
    obtain ⟨hf, hfs⟩ := List.forall_mem_cons.mp hi
    rw [hrest.outside i hfs, houtside i hf]

theorem Apart.tail {length : Nat} (h : Apart (f :: fs) length) : Apart fs length :=
  ⟨fun g hg => h.inside g (.tail _ hg), (List.pairwise_cons.mp h.disjoint).2⟩

/-- Linking changes no name. -/
theorem flatMap_references_eq (h : is'.map Instruction.bare = is.map Instruction.bare)
    (f : FunctionSpan) : (range f is').flatMap references = (range f is).flatMap references := by
  have hbare (x : Instruction) : references x.bare = references x := by
    have hoperand (o : Operand) : operandReferences o.bare = operandReferences o := by
      cases o <;> rfl
    simp only [references, Instruction.bare, List.flatMap_map, hoperand]
  have hmap (is : List Instruction) :
      (range f is).flatMap references = (range f (is.map Instruction.bare)).flatMap references := by
    simp only [range, ← List.map_drop, ← List.map_take, List.flatMap_map, hbare]
  rw [hmap, h, ← hmap]

theorem of_functions_eq_ok (hapart : Apart fs is.length)
    (h : functions symbols first fs is = (js, .ok n)) :
    UpTo symbols first fs (fun _ => True) is js ∧
      n = (fs.flatMap fun f => (range f is).flatMap references).length := by
  induction fs generalizing first is n with
  | nil => cases h; exact ⟨⟨nofun, fun _ _ => rfl⟩, rfl⟩
  | cons f fs ih =>
    have hf := hapart.inside f (.head _)
    have hlength := length_span symbols first f.start f.stop is
    have hbare := map_bare_span symbols first f.start f.stop is
    simp only [functions] at h
    split at h
    · cases h
    next is' m hspan =>
      rw [hspan] at hlength hbare
      obtain ⟨hjs, hn⟩ := Prod.mk.inj h
      obtain ⟨k, hk, rfl⟩ := map_eq_ok_iff.mp hn
      obtain ⟨hinside, hm⟩ := of_span_eq_ok hf hspan
      obtain ⟨hrest, hk⟩ := ih (hlength ▸ hapart.tail) (Prod.ext hjs hk)
      refine ⟨.cons (List.pairwise_cons.mp hapart.disjoint).1 hinside
        (fun i hi => getElem?_of_not_spans hf hspan hi) hrest, ?_⟩
      simp only [flatMap_references_eq hbare] at hk
      rw [List.flatMap_cons, List.length_append, hm, hk]

theorem of_functions_eq_error (hapart : Apart fs is.length)
    (h : functions symbols first fs is = (js, .error e)) :
    ∃ k f i x j, fs[k]? = some f ∧ Spans f i ∧ is[i]? = some x ∧
      RefusedAt symbols (first + k) x j e ∧
      UpTo symbols first fs (·.Before ⟨first + k, i, j⟩) is js := by
  induction fs generalizing first is with
  | nil => cases h
  | cons f fs ih =>
    have hf := hapart.inside f (.head _)
    have hdisjoint := (List.pairwise_cons.mp hapart.disjoint).1
    have hlength := length_span symbols first f.start f.stop is
    simp only [functions] at h
    split at h
    next is' e' hspan =>
      cases h
      obtain ⟨i, x, j, hi, hx, hrefused, hinside⟩ := of_span_eq_error hf hspan
      refine ⟨0, f, i, x, j, rfl, hi, hx, hrefused, .cons hdisjoint (fun i' x' hi' hx' => ?_)
        (fun i hi => getElem?_of_not_spans hf hspan hi) (.refl (fun s hs => ?_) js)⟩
      · obtain ⟨y', hy', hupTo⟩ := hinside i' x' hi' hx'
        refine ⟨y', hy', hupTo.of_iff fun j' => ?_⟩
        simp [Site.Before]
      · unfold Site.Before at hs
        simp only at hs
        omega
    next is' m hspan =>
      rw [hspan] at hlength
      obtain ⟨hjs, he⟩ := Prod.mk.inj h
      obtain ⟨k, g, i, x, j, hg, hi, hx, hrefused, hrest⟩ :=
        ih (hlength ▸ hapart.tail) (Prod.ext hjs (map_eq_error_iff.mp he))
      have hindex : first + 1 + k = first + (k + 1) := by omega
      have hother : ¬ Spans f i := fun hfi => hdisjoint g (List.mem_of_getElem? hg) i hfi hi
      rw [getElem?_of_not_spans hf hspan hother] at hx
      rw [hindex] at hrefused hrest
      refine ⟨k + 1, g, i, x, j, hg, hi, hx, hrefused, .cons hdisjoint (fun i' x' hi' hx' => ?_)
        (fun i hi => getElem?_of_not_spans hf hspan hi) hrest⟩
      obtain ⟨y', hy', hupTo⟩ := (of_span_eq_ok hf hspan).1 i' x' hi' hx'
      exact ⟨y', hy', hupTo.of_iff fun j' => iff_of_true (Or.inl (by simp only; omega)) trivial⟩

end Functions

/-! ## §5 All sites -/

/-- The operand stands at the site. -/
def Site.Holds (s : Site) (fs : List FunctionSpan) (is : List Instruction) (o : Operand) : Prop :=
  ∃ f x, fs[s.function]? = some f ∧ Spans f s.instruction ∧ is[s.instruction]? = some x ∧
    x.operation.operands[s.position]? = some o

/-- The operands at the sites are what linking gives for them, and nothing else
has changed: the operands at other sites and the instructions in no range are as
they were, and so is all of an instruction but the indices of its references. -/
structure LinkedAt (symbols : SymbolTable) (linked : Site → Prop) (is js : List Instruction) :
    Prop where
  given : ∀ s o, s.Holds symbols.functions.items is o → linked s →
    ∃ o', s.Holds symbols.functions.items js o' ∧ Gives symbols s.function o o'
  kept : ∀ s o, s.Holds symbols.functions.items is o → ¬ linked s →
    s.Holds symbols.functions.items js o
  outside : ∀ i, (∀ f ∈ symbols.functions.items, ¬ Spans f i) → js[i]? = is[i]?
  bare : js.map Instruction.bare = is.map Instruction.bare

variable {symbols : SymbolTable} {linked : Site → Prop} {is js : List Instruction} {e : LinkError}
  {n : Nat}

theorem UpTo.linkedAt (h : UpTo symbols 0 symbols.functions.items linked is js)
    (hbare : js.map Instruction.bare = is.map Instruction.bare) :
    LinkedAt symbols linked is js where
  given := by
    intro s o ⟨f, x, hf, hi, hx, ho⟩ hs
    obtain ⟨y, hy, hupTo⟩ := h.inside _ f _ x hf hi hx
    rw [Nat.zero_add] at hupTo
    obtain ⟨o', ho', hgives⟩ := hupTo.given _ o ho hs
    exact ⟨o', ⟨f, y, hf, hi, hy, ho'⟩, hgives⟩
  kept := by
    intro s o ⟨f, x, hf, hi, hx, ho⟩ hs
    obtain ⟨y, hy, hupTo⟩ := h.inside _ f _ x hf hi hx
    rw [Nat.zero_add] at hupTo
    exact ⟨f, y, hf, hi, hy, hupTo.kept _ o ho hs⟩
  outside := h.outside
  bare := hbare

theorem LinkedAt.known (h : LinkedAt symbols linked is js) {s : Site} {o : Operand}
    (ho : s.Holds symbols.functions.items is o) (hs : linked s) : Known symbols s.function o := by
  obtain ⟨o', _, hgives⟩ := h.given s o ho hs
  exact hgives.known

theorem of_all_eq_ok (hapart : Apart symbols.functions.items is.length)
    (h : all symbols is = (js, .ok n)) :
    n = (symbols.functions.items.flatMap fun f => (range f is).flatMap references).length ∧
      LinkedAt symbols (fun _ => True) is js := by
  have hbare := map_bare_all symbols is
  rw [h] at hbare
  obtain ⟨hupTo, hn⟩ := of_functions_eq_ok hapart h
  exact ⟨hn, hupTo.linkedAt hbare⟩

theorem of_all_eq_error (hapart : Apart symbols.functions.items is.length)
    (h : all symbols is = (js, .error e)) :
    ∃ s o, s.Holds symbols.functions.items is o ∧ ¬ Known symbols s.function o ∧
      undefined? o = some e ∧ LinkedAt symbols (·.Before s) is js := by
  have hbare := map_bare_all symbols is
  rw [h] at hbare
  obtain ⟨k, f, i, x, j, hf, hi, hx, ⟨o, ho, hunknown, hundefined⟩, hupTo⟩ :=
    of_functions_eq_error hapart h
  rw [Nat.zero_add] at hunknown hupTo
  exact ⟨⟨k, i, j⟩, o, ⟨f, x, hf, hi, hx, ho⟩, hunknown, hundefined, hupTo.linkedAt hbare⟩

/-- Linking succeeds exactly when every operand in a range names something. Then
it gives the number of references in all ranges, and every operand in a range is
what linking gives for it. Otherwise the error is that of the first operand that
names nothing, the operands before it are linked, and it and those behind it are
as they were. In both cases nothing else changes. -/
theorem all_exact (hapart : Apart symbols.functions.items is.length) :
    ((∃ n, (all symbols is).2 = .ok n) ↔
      ∀ (s : Site) (o : Operand), s.Holds symbols.functions.items is o →
        Known symbols s.function o) ∧
    (∀ js n, all symbols is = (js, .ok n) →
      n = (symbols.functions.items.flatMap fun f => (range f is).flatMap references).length ∧
      LinkedAt symbols (fun _ => True) is js) ∧
    ∀ js e, all symbols is = (js, .error e) →
      ∃ s o, s.Holds symbols.functions.items is o ∧
        ¬ Known symbols s.function o ∧ undefined? o = some e ∧
        (∀ (t : Site) (o' : Operand), t.Before s → t.Holds symbols.functions.items is o' →
          Known symbols t.function o') ∧
        LinkedAt symbols (·.Before s) is js := by
  refine ⟨⟨?_, ?_⟩, fun js n h => of_all_eq_ok hapart h, fun js e h => ?_⟩
  · intro ⟨n, hn⟩ s o ho
    exact (of_all_eq_ok hapart (Prod.ext rfl hn)).2.known ho trivial
  · intro hknown
    cases hall : (all symbols is).2 with
    | ok n => exact ⟨n, rfl⟩
    | error e =>
      obtain ⟨s, o, ho, hunknown, _⟩ := of_all_eq_error hapart (Prod.ext rfl hall)
      exact absurd (hknown s o ho) hunknown
  · obtain ⟨s, o, ho, hunknown, hundefined, hlinked⟩ := of_all_eq_error hapart h
    exact ⟨s, o, ho, hunknown, hundefined, fun t o' ht ho' => hlinked.known ho' ht, hlinked⟩

/-- Two functions whose ranges stand the other way around. The call, which is first
in the list, is linked last and names nothing; the jump behind it is linked. -/
theorem exact_of_missing_function :
    let call : Instruction := ⟨⟨.call, [.function ⟨['h'], none⟩]⟩, 1, 2⟩
    let jump (index : Option UInt32) : Instruction :=
      ⟨⟨.jnz, [.register 0, .label ⟨['L'], index⟩]⟩, 0, 5⟩
    let symbols : SymbolTable :=
      { labels := { name := "label", capacity := 1, items := [⟨['L'], 2, 0⟩], fits := by decide },
        functions := { name := "function", capacity := 2, fits := by decide,
                       items := [⟨['f'], 1, 2⟩, ⟨['g'], 0, 1⟩] } }
    Apart symbols.functions.items 2 ∧
      all symbols [call, jump none] =
        ([call, jump (some 2)], .error (.undefinedFunction ['h'])) ∧
      ∃ (s : Site) (o : Operand), s.Holds symbols.functions.items [call, jump none] o ∧
        undefined? o = some (.undefinedFunction ['h']) ∧
        LinkedAt symbols (·.Before s) [call, jump none] [call, jump (some 2)] := by
  intro call jump symbols
  have hapart : Apart symbols.functions.items 2 := by
    refine ⟨by decide, ?_⟩
    simp [symbols, Spans]
    omega
  have hall : all symbols [call, jump none] =
      ([call, jump (some 2)], .error (.undefinedFunction ['h'])) := by decide
  obtain ⟨s, o, ho, _, hundefined, _, hlinked⟩ := (all_exact hapart).2.2 _ _ hall
  exact ⟨hapart, hall, s, o, ho, hundefined, hlinked⟩

end SensorScript.Link
