/-
SensorScript.Proofs.Draft.Invariant — what holds of the tables between lines.

The functions cover the instructions one after the other, and every label and
instruction lies in the function that owns it. While a function is open its
span still stops where it starts, so only closed functions bound what they
own from above; `Sound` says so, and every step preserves it.

  §1 what closing a function does to a look-up;
  §2 `Sound`, and that it holds before the first line;
  §3 one lemma for every step that changes a table, and from them what
     reading preserves;
  §4 the order of the spans, and the one span that an instruction lies in.
-/
import SensorScript.Proofs.Draft.Step
import SensorScript.Proofs.Table

namespace SensorScript

/-! ## §1 Closing -/

namespace SymbolTable

variable {k : Nat} {g : FunctionSpan}

theorem get?_setStop_iff (s : SymbolTable) (i stop : Nat) :
    (s.setStop i stop).functions.get? k = some g ↔
      ∃ f, s.functions.get? k = some f ∧
        g = { f with stop := if i = k then stop else f.stop } := by
  show (s.functions.items.modify i _)[k]? = some g ↔ _
  rw [List.getElem?_modify, Option.map_eq_map, Option.map_eq_some_iff]
  refine exists_congr fun f => and_congr_right fun _ => ?_
  by_cases hk : i = k
  · rw [if_pos hk, if_pos hk]
    exact eq_comm
  · rw [if_neg hk, if_neg hk]
    exact eq_comm

theorem size_setStop (s : SymbolTable) (i stop : Nat) :
    (s.setStop i stop).functions.size = s.functions.size :=
  List.length_modify ..

end SymbolTable

namespace Draft

/-! ## §2 The invariant -/

/-- What holds of the tables of a draft between any two lines. -/
structure Sound (limits : Limits) (d : Draft) : Prop where
  limits_eq : d.limits = limits
  instructions_capacity : d.instructions.capacity = limits.maxInstructions
  labels_capacity : d.symbols.labels.capacity = limits.maxLabels
  functions_capacity : d.symbols.functions.capacity = limits.maxFunctions
  /-- The first function starts at the first instruction. -/
  first : ∀ f, d.symbols.functions.get? 0 = some f → f.start = 0
  /-- Every other function starts where the one before it stops. -/
  next : ∀ k f g, d.symbols.functions.get? k = some f →
    d.symbols.functions.get? (k + 1) = some g → g.start = f.stop
  ordered : ∀ k f, d.symbols.functions.get? k = some f →
    f.start ≤ f.stop ∧ f.stop ≤ d.instructions.size
  /-- Only the last function is ever open. -/
  opened : ∀ k, d.current = some k → k + 1 = d.symbols.functions.size
  /-- Between two functions no instruction is left over. -/
  closed : d.current = none → ∀ k f, d.symbols.functions.get? k = some f →
    k + 1 = d.symbols.functions.size → f.stop = d.instructions.size
  instruction_owner : ∀ i x, d.instructions.get? i = some x →
    ∃ f, d.symbols.functions.get? x.owner = some f ∧ f.start ≤ i ∧
      (d.current ≠ some x.owner → i < f.stop)
  label_owner : ∀ l ∈ d.symbols.labels.items,
    ∃ f, d.symbols.functions.get? l.owner = some f ∧ f.start ≤ l.index ∧
      l.index ≤ d.instructions.size ∧ (d.current ≠ some l.owner → l.index ≤ f.stop)

variable {limits : Limits} {d d' : Draft} {line : Nat} {s : Statement}

theorem Sound.empty (limits : Limits) : (Draft.empty limits).Sound limits where
  limits_eq := rfl
  instructions_capacity := rfl
  labels_capacity := rfl
  functions_capacity := rfl
  first f h := by cases h
  next k f g h := by cases h
  ordered k f h := by cases h
  opened k h := by cases h
  closed _ k f h := by cases h
  instruction_owner i x h := by cases h
  label_owner l h := by cases h

namespace Sound

/-- The open function is in the table. -/
theorem exists_opened (hd : d.Sound limits) {k : Nat} (h : d.current = some k) :
    ∃ f, d.symbols.functions.get? k = some f :=
  Table.exists_get? (by have := hd.opened k h; omega)

theorem current_eq_none (hd : d.Sound limits) (h : d.openName? = none) : d.current = none := by
  cases hc : d.current with
  | none => rfl
  | some k =>
    obtain ⟨f, hf⟩ := hd.exists_opened hc
    simp [openName?, hc, hf] at h

/-- Without functions there is nothing that one of them could own. -/
theorem empty_of_no_functions (hd : d.Sound limits) (h : d.symbols.functions.size = 0) :
    d.instructions.size = 0 ∧ d.symbols.labels.size = 0 := by
  constructor
  · refine Nat.eq_zero_of_not_pos fun hpos => ?_
    obtain ⟨x, hx⟩ := Table.exists_get? hpos
    obtain ⟨f, hf, _⟩ := hd.instruction_owner 0 x hx
    have := Table.lt_size_of_get? hf
    omega
  · refine Nat.eq_zero_of_not_pos fun hpos => ?_
    obtain ⟨l, hl⟩ := Table.exists_get? hpos
    obtain ⟨f, hf, _⟩ := hd.label_owner l (List.mem_of_getElem? hl)
    have := Table.lt_size_of_get? hf
    omega

/-- No table holds more than its limit. -/
theorem within (hd : d.Sound limits) :
    d.instructions.size ≤ limits.maxInstructions ∧ d.symbols.labels.size ≤ limits.maxLabels ∧
      d.symbols.functions.size ≤ limits.maxFunctions :=
  ⟨hd.instructions_capacity ▸ d.instructions.fits, hd.labels_capacity ▸ d.symbols.labels.fits,
    hd.functions_capacity ▸ d.symbols.functions.fits⟩

/-! ## §3 Steps -/

theorem openFunction (hd : d.Sound limits) {name : Text} {functions : Table FunctionSpan}
    (hclosed : d.openName? = none)
    (hpush : d.symbols.functions.push ⟨name, d.instructions.size, d.instructions.size⟩ =
      .ok functions) :
    Sound limits { d with symbols := { d.symbols with functions },
                          current := some d.symbols.functions.size } := by
  have hcur := hd.current_eq_none hclosed
  have hget {k f} := Table.get?_push_iff (k := k) (b := f) hpush
  have hsize := Table.size_of_push hpush
  -- Owners are functions of the old table, so none of them is the new one.
  have hold {k f} (h : d.symbols.functions.get? k = some f) : d.current ≠ some k := by
    rw [hcur]; exact nofun
  refine { hd with
    functions_capacity := (Table.push_eq_ok_iff.mp hpush).capacity_eq.trans hd.functions_capacity,
    first := ?_, next := ?_, ordered := ?_, opened := ?_, closed := nofun,
    instruction_owner := ?_, label_owner := ?_ }
  · intro f hf
    rcases hget.mp hf with hf | ⟨hk, rfl⟩
    · exact hd.first f hf
    · exact (hd.empty_of_no_functions hk.symm).1
  · intro k f g hf hg
    rcases hget.mp hg with hg | ⟨hk, rfl⟩
    · rcases hget.mp hf with hf | ⟨rfl, rfl⟩
      · exact hd.next k f g hf hg
      · have := Table.lt_size_of_get? hg; omega
    · rcases hget.mp hf with hf | ⟨rfl, rfl⟩
      · exact (hd.closed hcur k f hf hk).symm
      · omega
  · intro k f hf
    rcases hget.mp hf with hf | ⟨rfl, rfl⟩
    · exact hd.ordered k f hf
    · exact ⟨Nat.le_refl _, Nat.le_refl _⟩
  · intro k hk
    cases hk
    exact hsize.symm
  · intro i x hx
    obtain ⟨f, hf, hstart, hstop⟩ := hd.instruction_owner i x hx
    exact ⟨f, hget.mpr (Or.inl hf), hstart, fun _ => hstop (hold hf)⟩
  · intro l hl
    obtain ⟨f, hf, hstart, hle, hstop⟩ := hd.label_owner l hl
    exact ⟨f, hget.mpr (Or.inl hf), hstart, hle, fun _ => hstop (hold hf)⟩

theorem closeFunction (hd : d.Sound limits) {i : Nat} (hopen : d.current = some i) :
    Sound limits
      { d with symbols := d.symbols.setStop i d.instructions.size, current := none } := by
  have hlast := hd.opened i hopen
  have hget {k g} := SymbolTable.get?_setStop_iff d.symbols i d.instructions.size (k := k) (g := g)
  refine { hd with
    first := ?_, next := ?_, ordered := ?_, opened := nofun, closed := ?_,
    instruction_owner := ?_, label_owner := ?_ }
  · intro g hg
    obtain ⟨f, hf, rfl⟩ := hget.mp hg
    exact hd.first f hf
  · intro k f' g' hf' hg'
    obtain ⟨f, hf, rfl⟩ := hget.mp hf'
    obtain ⟨g, hg, rfl⟩ := hget.mp hg'
    have hk := Table.lt_size_of_get? hg
    show g.start = if i = k then _ else f.stop
    rw [if_neg (by omega)]
    exact hd.next k f g hf hg
  · intro k g hg
    obtain ⟨f, hf, rfl⟩ := hget.mp hg
    have hle := hd.ordered k f hf
    show f.start ≤ (if i = k then _ else f.stop) ∧ (if i = k then _ else f.stop) ≤ _
    split
    · exact ⟨Nat.le_trans hle.1 hle.2, Nat.le_refl _⟩
    · exact hle
  · intro _ k g hg hk
    obtain ⟨f, hf, rfl⟩ := hget.mp hg
    have hk : k + 1 = d.symbols.functions.size := hk.trans (SymbolTable.size_setStop ..)
    exact if_pos (by omega)
  · intro j x hx
    obtain ⟨f, hf, hstart, hstop⟩ := hd.instruction_owner j x hx
    refine ⟨_, hget.mpr ⟨f, hf, rfl⟩, hstart, fun _ => ?_⟩
    show j < if i = x.owner then d.instructions.size else f.stop
    split
    · exact Table.lt_size_of_get? hx
    next hne => exact hstop (by rw [hopen]; exact fun h => hne (Option.some.inj h))
  · intro l hl
    obtain ⟨f, hf, hstart, hle, hstop⟩ := hd.label_owner l hl
    refine ⟨_, hget.mpr ⟨f, hf, rfl⟩, hstart, hle, fun _ => ?_⟩
    show l.index ≤ if i = l.owner then d.instructions.size else f.stop
    split
    · exact hle
    next hne => exact hstop (by rw [hopen]; exact fun h => hne (Option.some.inj h))

theorem addLabel (hd : d.Sound limits) {owner : Nat} {name : Text} {labels : Table Label}
    (hopen : d.current = some owner)
    (hpush : d.symbols.labels.push ⟨name, d.instructions.size, owner⟩ = .ok labels) :
    Sound limits { d with symbols := { d.symbols with labels } } := by
  refine { hd with
    labels_capacity := (Table.push_eq_ok_iff.mp hpush).capacity_eq.trans hd.labels_capacity, label_owner := ?_ }
  intro l hl
  rcases (Table.mem_push_iff hpush).mp hl with hl | rfl
  · exact hd.label_owner l hl
  · obtain ⟨f, hf⟩ := hd.exists_opened hopen
    have hle := hd.ordered owner f hf
    exact ⟨f, hf, Nat.le_trans hle.1 hle.2, Nat.le_refl _, fun h => absurd hopen h⟩

theorem addInstruction (hd : d.Sound limits) {owner : Nat} {operation : Operation}
    {instructions : Table Instruction} (hopen : d.current = some owner)
    (hpush : d.instructions.push ⟨operation, owner, line⟩ = .ok instructions) :
    Sound limits { d with instructions } := by
  have hsize := Table.size_of_push hpush
  refine { hd with
    instructions_capacity := (Table.push_eq_ok_iff.mp hpush).capacity_eq.trans hd.instructions_capacity,
    ordered := ?_, closed := ?_, instruction_owner := ?_, label_owner := ?_ }
  · intro k f hf
    have hle := hd.ordered k f hf
    exact ⟨hle.1, Nat.le_trans hle.2 (by show _ ≤ instructions.size; omega)⟩
  · intro hcur
    rw [show d.current = none from hcur] at hopen
    cases hopen
  · intro i x hx
    rcases (Table.get?_push_iff hpush).mp hx with hx | ⟨rfl, rfl⟩
    · exact hd.instruction_owner i x hx
    · obtain ⟨f, hf⟩ := hd.exists_opened hopen
      have hle := hd.ordered owner f hf
      exact ⟨f, hf, Nat.le_trans hle.1 hle.2, fun h => absurd hopen h⟩
  · intro l hl
    obtain ⟨f, hf, hstart, hle, hstop⟩ := hd.label_owner l hl
    exact ⟨f, hf, hstart, Nat.le_trans hle (by show _ ≤ instructions.size; omega), hstop⟩

theorem step (h : Step d line s d') (hd : d.Sound limits) : d'.Sound limits := by
  cases h with
  | empty => exact hd
  | openFunction hclosed _ hpush => exact hd.openFunction hclosed hpush
  | closeFunction hopen => exact hd.closeFunction hopen
  | addLabel hopen _ hpush => exact hd.addLabel hopen hpush
  | addInstruction hopen _ hpush => exact hd.addInstruction hopen hpush

theorem readLines (hd : d.Sound limits) (line : Nat)
    (texts : List (Except Source.LineError Text)) : (d.readLines line texts).1.Sound limits :=
  readLines_rec step texts line hd

theorem readSource (hd : d.Sound limits) {source : Bytes} {result : Except Located Unit}
    (h : d.readSource source = (d', result)) : d'.Sound limits := by
  have hlines := readSource_fst d source
  rw [h] at hlines
  rw [show d' = _ from hlines]
  exact hd.readLines 1 _

/-- A source that is read to its end leaves no function open. -/
theorem current_of_readSource (hd : d.Sound limits) {source : Bytes}
    (h : d.readSource source = (d', .ok ())) : d'.current = none := by
  refine (hd.readSource h).current_eq_none ?_
  unfold Draft.readSource at h
  simp only at h
  split at h
  · cases h
  next heq =>
    split at h
    · cases h
    next hnone => cases h; exact hnone

/-! ## §4 Spans -/

/-- A function stops before any later one starts. -/
theorem stop_le_start (hd : d.Sound limits) {j k : Nat} {f g : FunctionSpan} (hjk : j < k)
    (hf : d.symbols.functions.get? j = some f) (hg : d.symbols.functions.get? k = some g) :
    f.stop ≤ g.start := by
  induction k generalizing g with
  | zero => cases hjk
  | succ k ih =>
    obtain ⟨m, hm⟩ := Table.exists_get? (t := d.symbols.functions) (k := k)
      (by have := Table.lt_size_of_get? hg; omega)
    rw [hd.next k m g hm hg]
    rcases Nat.lt_succ_iff_lt_or_eq.mp hjk with hlt | rfl
    · exact Nat.le_trans (ih hlt hm) (hd.ordered k m hm).1
    · cases hf.symm.trans hm
      exact Nat.le_refl _

/-- With no function open, every instruction lies in the span of its owner
and in no other. -/
theorem owner_unique (hd : d.Sound limits) (hcur : d.current = none) {i : Nat} {x : Instruction}
    (hx : d.instructions.get? i = some x) {k : Nat} {f : FunctionSpan}
    (hf : d.symbols.functions.get? k = some f) : f.start ≤ i ∧ i < f.stop ↔ k = x.owner := by
  obtain ⟨g, hg, hstart, hstop⟩ := hd.instruction_owner i x hx
  have hstop := hstop (by rw [hcur]; exact nofun)
  constructor
  · rintro ⟨hle, hlt⟩
    rcases Nat.lt_trichotomy k x.owner with h | h | h
    · have := hd.stop_le_start h hf hg; omega
    · exact h
    · have := hd.stop_le_start h hg hf; omega
  · rintro rfl
    cases hf.symm.trans hg
    exact ⟨hstart, hstop⟩

end Sound

end Draft

end SensorScript
