/-
SensorScript.Proofs.Link — what linking changes, and what it gives.

  §1 linking changes the indices of references and nothing else, also when it
     stops early (`map_bare_all`);
  §2 of single operands and instructions that are linked: `Resolves`, `Links`;
  §3 functions that cover the instructions one after the other: linking then
     reaches every instruction, and looks its names up for its owner, and it
     succeeds when every name is found (`Covers.functions_of_links`);
  §4 linking keeps the tables of a draft sound, and the functions of a sound
     draft cover its instructions.
-/
import Mathlib.Data.List.Forall2
import SensorScript.Link
import SensorScript.Proofs.Draft.Invariant
import SensorScript.Proofs.Forall2

namespace SensorScript

/-! ## §1 What linking leaves alone -/

/-- The operand without the index it was resolved to. -/
def Operand.bare : Operand → Operand
  | .label s => .label { s with index := none }
  | .function s => .function { s with index := none }
  | o => o

/-- The instruction without the indices its references were resolved to. -/
def Instruction.bare (x : Instruction) : Instruction :=
  { x with operation := { x.operation with operands := x.operation.operands.map Operand.bare } }

namespace Link

variable {symbols : SymbolTable} {owner : Nat}

/-- What is kept of every item is kept of the list. -/
theorem map_each {α β : Type} {f : α → Linked α} {g : α → β} (h : ∀ a, g (f a).1 = g a)
    (as : List α) : (each f as).1.map g = as.map g := by
  induction as with
  | nil => rfl
  | cons a as ih =>
    have ha := h a
    simp only [each]
    split
    next heq =>
      rw [heq] at ha
      rw [List.map_cons, List.map_cons, ha]
    next heq =>
      rw [heq] at ha
      rw [List.map_cons, List.map_cons, ha, ih]

theorem bare_operand (o : Operand) : (operand symbols owner o).1.bare = o.bare := by
  unfold operand
  cases o with
  | label s => cases h : symbols.findLabel? owner s.name <;> simp [resolve, h, Operand.bare]
  | function s => cases h : symbols.findFunction? s.name <;> simp [resolve, h, Operand.bare]
  | register r => rfl
  | immediate v => rfl
  | memory m => rfl

theorem bare_instruction (x : Instruction) : (instruction symbols owner x).1.bare = x.bare := by
  have h := map_each (f := operand symbols owner) bare_operand x.operation.operands
  simp only [instruction, Instruction.bare, h]

theorem map_bare_span (symbols : SymbolTable) (owner start stop : Nat) (is : List Instruction) :
    (span symbols owner start stop is).1.map Instruction.bare = is.map Instruction.bare := by
  have h := map_each (f := instruction symbols owner) bare_instruction
    ((is.drop start).take (stop - start))
  simp only [span, List.map_append, h]
  rw [List.append_assoc, ← List.map_append, List.take_append_drop, ← List.map_append,
    List.take_append_drop]

theorem map_bare_functions (fs : List FunctionSpan) (is : List Instruction) :
    (functions symbols owner fs is).1.map Instruction.bare = is.map Instruction.bare := by
  induction fs generalizing owner is with
  | nil => rfl
  | cons f fs ih =>
    have h := map_bare_span symbols owner f.start f.stop is
    simp only [functions]
    split
    next heq => rw [heq] at h; exact h
    next heq => rw [heq] at h; exact (ih _).trans h

/-- Linking changes no instruction but for the indices of its references. -/
theorem map_bare_all (symbols : SymbolTable) (is : List Instruction) :
    (all symbols is).1.map Instruction.bare = is.map Instruction.bare := map_bare_functions ..

/-! ## §2 Single instructions -/

/-- The operand with the index that its name has for an instruction of `owner`. -/
inductive Resolves (symbols : SymbolTable) (owner : Nat) : Operand → Operand → Prop
  | label {s label} (found : symbols.findLabel? owner s.name = some label) :
      Resolves symbols owner (.label s)
        (.label { s with index := some (UInt32.ofNat label.index) })
  | function {s i} (found : symbols.findFunction? s.name = some i) :
      Resolves symbols owner (.function s) (.function { s with index := some (UInt32.ofNat i) })
  | value {o} (h : o.symbol? = none) : Resolves symbols owner o o

/-- The instruction with all its references resolved. -/
structure Links (symbols : SymbolTable) (x y : Instruction) : Prop where
  owner_eq : y.owner = x.owner
  line_eq : y.line = x.line
  opcode_eq : y.operation.opcode = x.operation.opcode
  operands : List.Forall₂ (Resolves symbols x.owner) x.operation.operands y.operation.operands

theorem resolves_of_operand {o o' : Operand} {n : Nat}
    (h : operand symbols owner o = (o', .ok n)) : Resolves symbols owner o o' := by
  unfold operand at h
  split at h
  next heq =>
    cases h
    unfold resolve at heq
    split at heq
    · split at heq
      next hfound => cases heq; exact .label hfound
      · cases heq
    · split at heq
      next hfound => cases heq; exact .function hfound
      · cases heq
    next hl hf =>
      cases heq
      refine .value ?_
      cases o with
      | label s => exact absurd rfl (hl s)
      | function s => exact absurd rfl (hf s)
      | _ => rfl
  · cases h

/-- A list is linked when each of its items is. -/
theorem forall₂_each {α : Type} {f : α → Linked α} {as bs : List α} {n : Nat}
    (h : each f as = (bs, .ok n)) : List.Forall₂ (fun a b => ∃ m, f a = (b, .ok m)) as bs := by
  induction as generalizing bs n with
  | nil => cases h; exact .nil
  | cons a as ih =>
    simp only [each] at h
    split at h
    · cases h
    next b m hb =>
      obtain ⟨rfl, hrest⟩ := Prod.mk.inj h
      obtain ⟨k, hk, _⟩ := map_eq_ok_iff.mp hrest
      exact .cons ⟨m, hb⟩ (ih (Prod.ext rfl hk))

theorem links_of_instruction {x y : Instruction} {n : Nat}
    (h : instruction symbols x.owner x = (y, .ok n)) : Links symbols x y := by
  unfold instruction at h
  obtain ⟨rfl, hn⟩ := Prod.mk.inj h
  refine ⟨rfl, rfl, rfl, (forall₂_each (Prod.ext rfl hn)).imp ?_⟩
  intro o o' h
  obtain ⟨m, hm⟩ := h
  exact resolves_of_operand hm

/-! Nothing else is needed for linking to succeed. -/

theorem operand_of_resolves {o o' : Operand} (h : Resolves symbols owner o o') :
    ∃ n, operand symbols owner o = (o', .ok n) := by
  cases h with
  | label found => exact ⟨1, by simp only [operand, resolve, found]⟩
  | function found => exact ⟨1, by simp only [operand, resolve, found]⟩
  | value h =>
    cases o with
    | label s => cases h
    | function s => cases h
    | _ => exact ⟨0, rfl⟩

theorem each_of_forall₂ {α : Type} {f : α → Linked α} {as bs : List α}
    (h : List.Forall₂ (fun a b => ∃ m, f a = (b, .ok m)) as bs) :
    ∃ n, each f as = (bs, .ok n) := by
  induction h with
  | nil => exact ⟨0, rfl⟩
  | cons ha _ ih =>
    obtain ⟨m, ha⟩ := ha
    obtain ⟨n, ih⟩ := ih
    exact ⟨m + n, by simp only [each, ha, ih]; rfl⟩

theorem instruction_of_links {x y : Instruction} (h : Links symbols x y) :
    ∃ n, instruction symbols x.owner x = (y, .ok n) := by
  obtain ⟨n, hn⟩ := each_of_forall₂ (h.operands.imp fun _ _ => operand_of_resolves)
  refine ⟨n, ?_⟩
  obtain ⟨⟨opcode, operands⟩, owner, line⟩ := y
  obtain ⟨rfl, rfl, rfl, _⟩ := h
  simp only [instruction, hn]

/-! ## §3 Functions that cover the instructions -/

/-- The functions, the first of them with the index `owner`, cover the
instructions one after the other from an index on, and own what they cover. -/
inductive Covers : Nat → Nat → List FunctionSpan → List Instruction → Prop
  | nil {owner start} : Covers owner start [] []
  | cons {owner f fs inside rest} (owned : ∀ x ∈ inside, x.owner = owner)
      (stop : f.stop = f.start + inside.length) (others : Covers (owner + 1) f.stop fs rest) :
      Covers owner f.start (f :: fs) (inside ++ rest)

/-- Only the instructions inside a span are linked. -/
theorem span_append {before inside after : List Instruction} {start stop : Nat}
    (hstart : before.length = start) (hstop : stop = start + inside.length) :
    span symbols owner start stop (before ++ (inside ++ after)) =
      (before ++ ((each (instruction symbols owner) inside).1 ++ after),
        (each (instruction symbols owner) inside).2) := by
  have hlen : stop - start = inside.length := by omega
  simp only [span, ← hstart, List.take_left, List.drop_left]
  rw [hstart, hlen, List.take_left, List.drop_left, List.append_assoc]

/-- Functions that cover the instructions link every one of them. -/
theorem Covers.links {start n : Nat} {fs : List FunctionSpan} {is js : List Instruction}
    (hc : Covers owner start fs is) (before : List Instruction) (hstart : before.length = start)
    (h : functions symbols owner fs (before ++ is) = (js, .ok n)) :
    ∃ is', js = before ++ is' ∧ List.Forall₂ (Links symbols) is is' := by
  induction hc generalizing before js n with
  | nil => cases h; exact ⟨[], rfl, .nil⟩
  | @cons owner f fs inside rest howned hstop _ ih =>
    simp only [functions, span_append hstart hstop] at h
    split at h
    · cases h
    next m heq =>
      obtain ⟨rfl, hm⟩ := Prod.mk.inj heq
      obtain ⟨hjs, hk⟩ := Prod.mk.inj h
      obtain ⟨k, hk, _⟩ := map_eq_ok_iff.mp hk
      have hinside := forall₂_each (Prod.ext rfl hm)
      have hlen : (before ++ (each (instruction symbols owner) inside).1).length = f.stop := by
        rw [List.length_append, length_each, hstart, hstop]
      rw [← List.append_assoc] at hjs hk
      obtain ⟨rest', hrest, hlinks⟩ := ih _ hlen (Prod.ext hjs hk)
      refine ⟨(each (instruction symbols owner) inside).1 ++ rest',
        by rw [hrest, List.append_assoc], List.rel_append ?_ hlinks⟩
      refine forall₂_imp_mem hinside ?_
      intro x hx y _ h
      obtain ⟨m, hy⟩ := h
      exact links_of_instruction (howned x hx ▸ hy)

/-- Instructions that can all be linked are linked by functions that cover them. -/
theorem Covers.functions_of_links {start : Nat} {fs : List FunctionSpan}
    {is is' : List Instruction} (hc : Covers owner start fs is) (before : List Instruction)
    (hstart : before.length = start) (h : List.Forall₂ (Links symbols) is is') :
    ∃ n, functions symbols owner fs (before ++ is) = (before ++ is', .ok n) := by
  induction hc generalizing before is' with
  | nil =>
    cases h
    exact ⟨0, rfl⟩
  | @cons owner f fs inside rest howned hstop _ ih =>
    obtain ⟨inside', rest', hinside, hrest, rfl⟩ := exists_append_of_forall₂ h
    obtain ⟨m, hm⟩ : ∃ m, each (instruction symbols owner) inside = (inside', .ok m) := by
      refine each_of_forall₂ (forall₂_imp_mem hinside ?_)
      intro x hx y _ hy
      exact howned x hx ▸ instruction_of_links hy
    have hlen : (before ++ inside').length = f.stop := by
      rw [List.length_append, ← hinside.length_eq, hstart, hstop]
    obtain ⟨n, hn⟩ := ih (before ++ inside') hlen hrest
    rw [List.append_assoc, List.append_assoc] at hn
    refine ⟨m + n, ?_⟩
    simp only [functions, span_append hstart hstop, hm, hn]
    rfl

end Link

/-! ## §4 Drafts -/

namespace Draft.Sound

variable {limits : Limits} {d : Draft}

/-- The functions from the `k`-th on cover the instructions from its start on. -/
theorem covers_from (hd : d.Sound limits) (hcur : d.current = none) {m k start : Nat}
    (hm : k + m = d.symbols.functions.size)
    (hstart : ∀ f, d.symbols.functions.get? k = some f → f.start = start)
    (hend : m = 0 → start = d.instructions.size) :
    Link.Covers k start (d.symbols.functions.items.drop k) (d.instructions.items.drop start) := by
  induction m generalizing k start with
  | zero =>
    have hk : d.symbols.functions.items.length ≤ k := Nat.le_of_eq hm.symm
    have hs : d.instructions.items.length ≤ start := Nat.le_of_eq (hend rfl).symm
    rw [List.drop_eq_nil_of_le hk, List.drop_eq_nil_of_le hs]
    exact .nil
  | succ m ih =>
    obtain ⟨f, hf⟩ := Table.exists_get? (t := d.symbols.functions) (k := k) (by omega)
    obtain ⟨hle, hstop⟩ := hd.ordered k f hf
    have hdrop : d.symbols.functions.items.drop k =
        f :: d.symbols.functions.items.drop (k + 1) := by
      have hf : d.symbols.functions.items[k]? = some f := hf
      rw [List.drop_eq_getElem?_toList_append, hf]
      rfl
    have hothers : Link.Covers (k + 1) f.stop (d.symbols.functions.items.drop (k + 1))
        (d.instructions.items.drop f.stop) :=
      ih (by omega) (fun g hg => hd.next k f g hf hg) fun h0 => hd.closed hcur k f hf (by omega)
    rw [hdrop, ← hstart f hf,
      ← List.take_append_drop (f.stop - f.start) (d.instructions.items.drop f.start),
      List.drop_drop, Nat.add_sub_cancel' hle]
    refine .cons ?_ ?_ hothers
    · intro x hx
      obtain ⟨j, hj⟩ := List.getElem?_of_mem hx
      have hlt := (List.getElem?_eq_some_iff.mp hj).1
      rw [List.getElem?_take_of_lt (by rw [List.length_take] at hlt; omega),
        List.getElem?_drop] at hj
      rw [List.length_take] at hlt
      exact ((hd.owner_unique hcur hj hf).mp ⟨by omega, by omega⟩).symm
    · rw [List.length_take, List.length_drop]
      have : f.stop ≤ d.instructions.items.length := hstop
      omega

/-- With no function open, the functions cover all instructions. -/
theorem covers (hd : d.Sound limits) (hcur : d.current = none) :
    Link.Covers 0 0 d.symbols.functions.items d.instructions.items :=
  hd.covers_from hcur (Nat.zero_add _) hd.first fun h => (hd.empty_of_no_functions h).1.symm

/-- Once a draft is linked, every reference has the index of what it names. -/
theorem links (hd : d.Sound limits) (hcur : d.current = none) {d' : Draft} {n : Nat}
    (h : d.link = (d', .ok n)) :
    d'.symbols = d.symbols ∧
      List.Forall₂ (Link.Links d.symbols) d.instructions.items d'.instructions.items := by
  unfold Draft.link at h
  obtain ⟨rfl, hn⟩ := Prod.mk.inj h
  obtain ⟨is', his, hlinks⟩ := (hd.covers hcur).links [] rfl (Prod.ext rfl hn)
  have his : (Link.all d.symbols d.instructions.items).1 = is' := his
  refine ⟨rfl, ?_⟩
  rw [← his] at hlinks
  exact hlinks

/-- A draft is linked as soon as every reference names something. -/
theorem link_of_links (hd : d.Sound limits) (hcur : d.current = none) {is' : List Instruction}
    (h : List.Forall₂ (Link.Links d.symbols) d.instructions.items is') :
    ∃ d' n, d.link = (d', .ok n) ∧ d'.symbols = d.symbols ∧ d'.instructions.items = is' := by
  obtain ⟨n, hn⟩ := (hd.covers hcur).functions_of_links [] rfl h
  obtain ⟨his, hok⟩ := Prod.mk.inj hn
  exact ⟨_, n, Prod.ext rfl hok, rfl, his⟩

/-- Linking keeps the tables sound, also when it stops early. -/
theorem link (hd : d.Sound limits) : d.link.1.Sound limits := by
  have hsize : d.link.1.instructions.size = d.instructions.size :=
    Link.length_all d.symbols d.instructions.items
  refine { hd with ordered := ?_, closed := ?_, instruction_owner := ?_, label_owner := ?_ }
  · intro k f hf
    rw [hsize]
    exact hd.ordered k f hf
  · intro hcur k f hf hk
    rw [hsize]
    exact hd.closed hcur k f hf hk
  · intro i y hy
    have hbare := congrArg (·[i]?) (Link.map_bare_all d.symbols d.instructions.items)
    have hy : (Link.all d.symbols d.instructions.items).1[i]? = some y := hy
    rw [List.getElem?_map, List.getElem?_map, hy] at hbare
    obtain ⟨x, hx, hxy⟩ := Option.map_eq_some_iff.mp hbare.symm
    have howner : x.bare.owner = y.bare.owner := by rw [hxy]
    rw [show y.owner = x.owner from howner.symm]
    exact hd.instruction_owner i x hx
  · intro l hl
    rw [hsize]
    exact hd.label_owner l hl

end Draft.Sound

end SensorScript
