/-
SensorScript.Proofs.Script.Reading — a source is read exactly when it writes a
script, and then the tables are those of the script.

Rows are carried out one by one. What a draft still has to be given is told by
the grammar: a script when no function is open, and otherwise the rest of the
open block and then a script. One induction over the rows carries both.

  §1 what a row adds to a draft, and what the rest of a source does;
  §2 one row, with no function open and with one;
  §3 all rows, and sources.
-/
import SensorScript.Proofs.Draft.Invariant
import SensorScript.Proofs.Script.Grammar
import SensorScript.Proofs.Statement

namespace SensorScript.Draft

variable {limits : Limits} {d d' d₁ : Draft} {owner : Nat}

/-! ## §1 What is added -/

/-- The other draft has the items as well, and they are in the open function. -/
structure Adds (d : Draft) (owner : Nat) (items : List Item) (d' : Draft) : Prop where
  limits_eq : d'.limits = d.limits
  current_eq : d'.current = d.current
  functions_eq : d'.symbols.functions = d.symbols.functions
  instructions : d.instructions.Grows (Item.instructions owner items) d'.instructions
  labels : d.symbols.labels.Grows (Item.labels owner d.instructions.size items) d'.symbols.labels

/-- The other draft has these as well, and no function is open in it. -/
structure Gains (d : Draft) (instructions : List Instruction) (labels : List Label)
    (functions : List FunctionSpan) (d' : Draft) : Prop where
  limits_eq : d'.limits = d.limits
  current_eq : d'.current = none
  instructions : d.instructions.Grows instructions d'.instructions
  labels : d.symbols.labels.Grows labels d'.symbols.labels
  functions : d.symbols.functions.Grows functions d'.symbols.functions

/-- The other draft has the blocks of the script as well. -/
def Extends (d : Draft) (script : Script) (d' : Draft) : Prop :=
  d.Gains (Script.instructions d.symbols.functions.size script)
    (Script.labels d.symbols.functions.size d.instructions.size script)
    (Script.functions d.instructions.size script) d'

/-- The open function gets the items and is closed after them, and the other
draft has the blocks of the script as well. -/
def Finishes (d : Draft) (owner : Nat) (items : List Item) (script : Script) (d' : Draft) : Prop :=
  let stop := d.instructions.size + Item.count items
  Gains { d with symbols := d.symbols.setStop owner stop }
    (Item.instructions owner items ++ Script.instructions (owner + 1) script)
    (Item.labels owner d.instructions.size items ++ Script.labels (owner + 1) stop script)
    (Script.functions stop script) d'

/-- The draft with a function opened at the next instruction. -/
def opened (d : Draft) (functions : Table FunctionSpan) : Draft :=
  { d with symbols := { d.symbols with functions }, current := some d.symbols.functions.size }

/-- The draft with a function closed before the next instruction. -/
def closed (d : Draft) (owner : Nat) : Draft :=
  { d with symbols := d.symbols.setStop owner d.instructions.size, current := none }

theorem extends_nil_iff (hc : d.current = none) : d.Extends [] d' ↔ d' = d := by
  constructor
  · intro h
    obtain ⟨_, _, ⟨_, _⟩, _⟩ := d
    obtain ⟨_, _, ⟨_, _⟩, _⟩ := d'
    obtain ⟨hl, hn, hi, hlab, hf⟩ := h
    cases Table.grows_nil_iff.mp hi
    cases Table.grows_nil_iff.mp hlab
    cases Table.grows_nil_iff.mp hf
    cases hl
    cases hn
    cases hc
    rfl
  · rintro rfl
    exact ⟨rfl, hc, Table.grows_nil_iff.mpr rfl, Table.grows_nil_iff.mpr rfl,
      Table.grows_nil_iff.mpr rfl⟩

/-- A block is a function that is opened and then finished. -/
theorem extends_cons_iff {name : Text} {items : List Item} {script : Script} :
    d.Extends (⟨name, items⟩ :: script) d' ↔
      ∃ functions, d.symbols.functions.push ⟨name, d.instructions.size, d.instructions.size⟩ =
          .ok functions ∧
        (d.opened functions).Finishes d.symbols.functions.size items script d' := by
  have hstop := Table.push_modify_grows_iff d.symbols.functions d'.symbols.functions
    ⟨name, d.instructions.size, d.instructions.size⟩
    (fun g => { g with stop := d.instructions.size + Item.count items })
    (Script.functions (d.instructions.size + Item.count items) script)
  constructor
  · intro h
    obtain ⟨functions, hpush, hf⟩ := hstop.mpr h.functions
    exact ⟨functions, hpush, h.limits_eq, h.current_eq, h.instructions, h.labels, hf⟩
  · rintro ⟨functions, hpush, h⟩
    exact ⟨h.limits_eq, h.current_eq, h.instructions, h.labels,
      hstop.mp ⟨functions, hpush, h.functions⟩⟩

/-- Nothing more to come in the open function: it is closed. -/
theorem finishes_nil_iff {script : Script} (hlast : owner + 1 = d.symbols.functions.size) :
    d.Finishes owner [] script d' ↔ (d.closed owner).Extends script d' := by
  have hsize : (d.closed owner).symbols.functions.size = owner + 1 :=
    (SymbolTable.size_setStop ..).trans hlast.symm
  unfold Extends
  rw [hsize]
  constructor
  · exact fun h => ⟨h.limits_eq, h.current_eq, h.instructions, h.labels, h.functions⟩
  · exact fun h => ⟨h.limits_eq, h.current_eq, h.instructions, h.labels, h.functions⟩

theorem finishes_cons_iff {item : Item} {items : List Item} {script : Script} :
    d.Finishes owner (item :: items) script d' ↔
      ∃ d₁, d.Adds owner [item] d₁ ∧ d₁.Finishes owner items script d' := by
  simp only [Finishes]
  rw [Item.count_cons, Item.instructions_cons, Item.labels_cons, List.append_assoc,
    List.append_assoc, ← Nat.add_assoc]
  constructor
  · intro h
    obtain ⟨instructions, hi, hi'⟩ := Table.grows_append_iff.mp h.instructions
    obtain ⟨labels, hl, hl'⟩ := Table.grows_append_iff.mp h.labels
    have hsize : instructions.size = d.instructions.size + Item.count [item] := by
      rw [hi.size_eq, Item.length_instructions]
    have hf := h.functions
    rw [← hsize] at hl' hf
    exact ⟨{ d with instructions, symbols := { d.symbols with labels } },
      ⟨rfl, rfl, rfl, hi, hl⟩, h.limits_eq, h.current_eq, hi', hl', hf⟩
  · rintro ⟨d₁, hadds, h⟩
    have hsize : d₁.instructions.size = d.instructions.size + Item.count [item] := by
      rw [hadds.instructions.size_eq, Item.length_instructions]
    rw [← hsize]
    refine ⟨h.limits_eq.trans hadds.limits_eq, h.current_eq,
      Table.grows_append_iff.mpr ⟨_, hadds.instructions, h.instructions⟩,
      Table.grows_append_iff.mpr ⟨_, hadds.labels, h.labels⟩, ?_⟩
    have hf := h.functions
    simp only [SymbolTable.setStop, hadds.functions_eq] at hf
    exact hf

/-! ## §2 One row -/

/-- Between two functions only a row that opens one is carried out. -/
theorem step_closed_iff (hd : d.Sound limits) (hc : d.current = none) {row : Row}
    (hw : row.words ≠ []) :
    Step d row.line (.ofWords row.words) d₁ ↔
      ∃ name functions, row = .opening row.line name ∧
        Operand.readName limits name = .ok name ∧
        d.symbols.functions.push ⟨name, d.instructions.size, d.instructions.size⟩ =
          .ok functions ∧
        d₁ = d.opened functions := by
  constructor
  · intro h
    generalize hs : Statement.ofWords row.words = s at h
    cases h with
    | empty => exact absurd (Statement.ofWords_eq_empty_iff.mp hs) hw
    | @openFunction name functions _ hname hpush =>
      refine ⟨name, functions, ?_, hd.limits_eq ▸ hname, hpush, rfl⟩
      rw [Row.opening, ← Statement.ofWords_eq_directive_iff.mp hs]
    | closeFunction hopen => rw [hc] at hopen; cases hopen
    | addLabel hopen => rw [hc] at hopen; cases hopen
    | addInstruction hopen => rw [hc] at hopen; cases hopen
  · rintro ⟨name, functions, hrow, hname, hpush, rfl⟩
    have hwords : row.words = [Directive.function.name.toList, name] := by rw [hrow]; rfl
    have hnone : d.openName? = none := by simp [openName?, hc]
    rw [Statement.ofWords_eq_directive_iff.mpr hwords]
    exact .openFunction hnone (by rw [hd.limits_eq]; exact hname) hpush

/-- In an open function a row that closes it is carried out, and a row of an item. -/
theorem step_open_iff (hd : d.Sound limits) (hc : d.current = some owner) {row : Row}
    (hw : row.words ≠ []) :
    Step d row.line (.ofWords row.words) d₁ ↔
      (row = .closing row.line ∧ d₁ = d.closed owner) ∨
      ∃ item : Item, item.Written limits row ∧ d.Adds owner [item] d₁ := by
  obtain ⟨line, words⟩ := row
  have hl := hd.limits_eq
  constructor
  · intro h
    generalize hs : Statement.ofWords words = s at h
    cases h with
    | empty => exact absurd (Statement.ofWords_eq_empty_iff.mp hs) hw
    | openFunction hclosed =>
      rw [hd.current_eq_none hclosed] at hc
      cases hc
    | closeFunction hopen =>
      cases hc.symm.trans hopen
      refine Or.inl ⟨?_, rfl⟩
      rw [Row.closing, ← Statement.ofWords_eq_directive_iff.mp hs]
    | @addLabel _ word labels hopen hname hpush =>
      cases hc.symm.trans hopen
      obtain ⟨rfl, hlast⟩ := Statement.ofWords_eq_label_iff.mp hs
      have hword : word.dropLast ++ [':'] = word := List.dropLast_append_getLast? _ hlast
      refine Or.inr ⟨.label word.dropLast, ?_, rfl, rfl, rfl, Table.grows_nil_iff.mpr rfl,
        Table.push_eq_ok_iff.mp hpush⟩
      have hwritten : (Item.label word.dropLast).Written limits ⟨line, [word.dropLast ++ [':']]⟩ :=
        .label (hl ▸ hname)
      rwa [hword] at hwritten
    | addInstruction hopen hread hpush =>
      cases hc.symm.trans hopen
      obtain ⟨mnemonic, rfl, hop⟩ := Statement.ofWords_eq_instruction_iff.mp hs
      obtain ⟨hle, harity, operands, rfl, hos, hfits⟩ := readOperation_eq_ok_iff.mp (hl ▸ hread)
      exact Or.inr ⟨.instruction line _, .instruction hop hle harity hos hfits, rfl, rfl, rfl,
        Table.push_eq_ok_iff.mp hpush, Table.grows_nil_iff.mpr rfl⟩
  · rintro (⟨hrow, rfl⟩ | ⟨item, hitem, hadds⟩)
    · cases hrow
      rw [Statement.ofWords_eq_directive_iff (x := .endFunction).mpr rfl]
      exact .closeFunction hc
    · obtain ⟨limits', instructions', ⟨labels', functions'⟩, current'⟩ := d₁
      obtain ⟨hlim, hcur, hfun, hi, hlab⟩ := hadds
      cases hlim
      cases hcur
      cases hfun
      cases hitem with
      | @label _ name hname =>
        cases Table.grows_nil_iff.mp hi
        have hlast : (name ++ [':']).getLast? = some ':' := List.getLast?_concat
        rw [Statement.ofWords_eq_label_iff.mpr ⟨rfl, hlast⟩]
        have hdrop : (name ++ [':']).dropLast = name := List.dropLast_concat
        exact .addLabel hc (by rw [hdrop, hl]; exact hname)
          (by rw [hdrop]; exact Table.push_eq_ok_iff.mpr hlab)
      | instruction hop hle harity hos hfits =>
        cases Table.grows_nil_iff.mp hlab
        rw [Statement.ofWords_eq_instruction_iff.mpr ⟨_, rfl, hop⟩]
        refine .addInstruction hc ?_ (Table.push_eq_ok_iff.mpr hi)
        rw [hl]
        exact readOperation_eq_ok_iff.mpr ⟨hle, harity, _, rfl, hos, hfits⟩

/-! ## §3 All rows -/

/-- The rows can be carried out one after the other and give the other draft. -/
inductive Run : Draft → List Row → Draft → Prop
  | nil {a} : Run a [] a
  | cons {a b c row rows} (first : Step a row.line (.ofWords row.words) b)
      (others : Run b rows c) : Run a (row :: rows) c

theorem run_nil_iff : Run d [] d' ↔ d' = d := by
  constructor
  · intro h; cases h; rfl
  · rintro rfl; exact .nil

theorem run_cons_iff {row : Row} {rows : List Row} :
    Run d (row :: rows) d' ↔
      ∃ d₁, Step d row.line (.ofWords row.words) d₁ ∧ Run d₁ rows d' := by
  constructor
  · intro h
    cases h with
    | cons first others => exact ⟨_, first, others⟩
  · rintro ⟨d₁, first, others⟩
    exact .cons first others

/-- Rows are carried out to a draft with no function open exactly when they
write what the draft still lacks, and then that is what they add. -/
theorem run_iff {rows : List Row} (hw : ∀ row ∈ rows, row.words ≠ []) (hd : d.Sound limits) :
    (d.current = none → (Run d rows d' ∧ d'.current = none ↔
      ∃ script, Script.Written limits script rows ∧ d.Extends script d')) ∧
    ∀ owner, d.current = some owner → (Run d rows d' ∧ d'.current = none ↔
      ∃ items script, Script.Remains limits items script rows ∧
        d.Finishes owner items script d') := by
  induction rows generalizing d with
  | nil =>
    constructor
    · intro hc
      constructor
      · rintro ⟨h, _⟩
        exact ⟨[], Script.written_nil_iff.mpr rfl, (extends_nil_iff hc).mpr (run_nil_iff.mp h)⟩
      · rintro ⟨script, hs, h⟩
        obtain rfl := Script.written_nil_iff.mp hs
        exact ⟨run_nil_iff.mpr ((extends_nil_iff hc).mp h), h.current_eq⟩
    · intro owner hc
      constructor
      · rintro ⟨h, hnone⟩
        rw [run_nil_iff.mp h, hc] at hnone
        cases hnone
      · rintro ⟨items, script, h, _⟩
        exact absurd h Script.not_remains_nil
  | cons row rows ih =>
    obtain ⟨hrow, hrows⟩ := List.forall_mem_cons.mp hw
    have ih {d₁ : Draft} (h : Step d row.line (.ofWords row.words) d₁) := ih hrows (.step h hd)
    constructor
    · intro hc
      constructor
      · rintro ⟨h, hnone⟩
        obtain ⟨d₁, h₁, h⟩ := run_cons_iff.mp h
        obtain ⟨name, functions, hopening, hname, hpush, rfl⟩ :=
          (step_closed_iff hd hc hrow).mp h₁
        obtain ⟨items, script, hitems, h⟩ := ((ih h₁).2 _ rfl).mp ⟨h, hnone⟩
        exact ⟨_, Script.written_cons_iff.mpr ⟨name, items, script, rfl, hopening, hname, hitems⟩,
          extends_cons_iff.mpr ⟨functions, hpush, h⟩⟩
      · rintro ⟨script, hs, h⟩
        obtain ⟨name, items, rest, rfl, hopening, hname, hitems⟩ := Script.written_cons_iff.mp hs
        obtain ⟨functions, hpush, h⟩ := extends_cons_iff.mp h
        have h₁ := (step_closed_iff hd hc hrow).mpr
          ⟨name, functions, hopening, hname, hpush, rfl⟩
        obtain ⟨h, hnone⟩ := ((ih h₁).2 _ rfl).mpr ⟨items, rest, hitems, h⟩
        exact ⟨run_cons_iff.mpr ⟨_, h₁, h⟩, hnone⟩
    · intro owner hc
      have hlast := hd.opened owner hc
      constructor
      · rintro ⟨h, hnone⟩
        obtain ⟨d₁, h₁, h⟩ := run_cons_iff.mp h
        rcases (step_open_iff hd hc hrow).mp h₁ with ⟨hclosing, rfl⟩ | ⟨item, hitem, hadds⟩
        · obtain ⟨script, hs, h⟩ := ((ih h₁).1 rfl).mp ⟨h, hnone⟩
          exact ⟨[], script, Script.remains_cons_iff.mpr (Or.inl ⟨rfl, hclosing, hs⟩),
            (finishes_nil_iff hlast).mpr h⟩
        · obtain ⟨items, script, hitems, h⟩ :=
            ((ih h₁).2 owner (hadds.current_eq.trans hc)).mp ⟨h, hnone⟩
          exact ⟨item :: items, script,
            Script.remains_cons_iff.mpr (Or.inr ⟨item, items, rfl, hitem, hitems⟩),
            finishes_cons_iff.mpr ⟨d₁, hadds, h⟩⟩
      · rintro ⟨items, script, hs, h⟩
        rcases Script.remains_cons_iff.mp hs with
          ⟨rfl, hclosing, hs⟩ | ⟨item, items, rfl, hitem, hs⟩
        · have h₁ := (step_open_iff hd hc hrow).mpr (Or.inl ⟨hclosing, rfl⟩)
          obtain ⟨h, hnone⟩ := ((ih h₁).1 rfl).mpr ⟨script, hs, (finishes_nil_iff hlast).mp h⟩
          exact ⟨run_cons_iff.mpr ⟨_, h₁, h⟩, hnone⟩
        · obtain ⟨d₁, hadds, h⟩ := finishes_cons_iff.mp h
          have h₁ := (step_open_iff hd hc hrow).mpr (Or.inr ⟨item, hitem, hadds⟩)
          obtain ⟨h, hnone⟩ :=
            ((ih h₁).2 owner (hadds.current_eq.trans hc)).mpr ⟨items, script, hs, h⟩
          exact ⟨run_cons_iff.mpr ⟨_, h₁, h⟩, hnone⟩

/-! ## §4 Sources -/

theorem lineWords_eq_ok_iff {text : Except Source.LineError Text} {words : List Text} :
    lineWords limits text = .ok words ↔
      ∃ t, text = .ok t ∧ Source.splitWords limits t = .ok words := by
  constructor
  · intro h
    obtain ⟨t, ht, h⟩ := bind_eq_ok_iff.mp h
    exact ⟨t, mapError_eq_ok_iff.mp ht, mapError_eq_ok_iff.mp h⟩
  · rintro ⟨t, ht, h⟩
    exact bind_eq_ok_iff.mpr ⟨t, mapError_eq_ok_iff.mpr ht, mapError_eq_ok_iff.mpr h⟩

/-- Lines are read when each has words and their rows can be carried out. -/
theorem readLines_eq_ok_iff {texts : List (Except Source.LineError Text)} {line : Nat} :
    d.readLines line texts = (d', .ok ()) ↔
      ∃ lines, List.Forall₂ (fun text words => lineWords d.limits text = .ok words) texts lines ∧
        Run d (rowsFrom line lines) d' := by
  induction texts generalizing d line with
  | nil =>
    constructor
    · intro h; cases h; exact ⟨[], .nil, .nil⟩
    · rintro ⟨lines, hlines, h⟩
      cases hlines
      rw [run_nil_iff.mp h]
      rfl
  | cons text texts ih =>
    have hrow {words : List Text} {lines : List (List Text)} :
        (∃ d₁, Step d line (.ofWords words) d₁ ∧ Run d₁ (rowsFrom (line + 1) lines) d') ↔
          Run d (rowsFrom line (words :: lines)) d' := by
      cases words with
      | nil =>
        constructor
        · rintro ⟨_, h₁, h⟩; cases h₁; exact h
        · intro h; exact ⟨d, .empty, h⟩
      | cons word words =>
        rw [rowsFrom, run_cons_iff]
    constructor
    · intro h
      cases ht : d.readLine line text with
      | error e => rw [readLines_cons_error ht] at h; cases h
      | ok d₁ =>
        rw [readLines_cons_ok ht] at h
        obtain ⟨words, hwords, h₁⟩ := readLine_eq_ok_iff.mp ht
        obtain ⟨lines, hlines, h⟩ := ih.mp h
        rw [h₁.limits_eq] at hlines
        exact ⟨words :: lines, .cons hwords hlines, hrow.mp ⟨d₁, h₁, h⟩⟩
    · rintro ⟨_, hlines, h⟩
      cases hlines with
      | cons hwords hlines =>
        obtain ⟨d₁, h₁, h⟩ := hrow.mpr h
        rw [readLines_cons_ok (readLine_eq_ok_iff.mpr ⟨_, hwords, h₁⟩)]
        rw [← h₁.limits_eq] at hlines
        exact ih.mpr ⟨_, hlines, h⟩

theorem words_of_mem_rowsFrom {line : Nat} {lines : List (List Text)} :
    ∀ row ∈ rowsFrom line lines, row.words ≠ [] := by
  induction lines generalizing line with
  | nil => exact nofun
  | cons words lines ih =>
    cases words with
    | nil => exact ih
    | cons word words => exact List.forall_mem_cons.mpr ⟨List.cons_ne_nil word words, ih⟩

/-- A source is read when its lines are and no function is left open. -/
theorem readSource_eq_ok_iff (hd : d.Sound limits) {source : Bytes} :
    d.readSource source = (d', .ok ()) ↔
      d.readLines 1 (Source.lines d.limits.maxLineLen source) = (d', .ok ()) ∧
        d'.current = none := by
  constructor
  · intro h
    refine ⟨?_, hd.current_of_readSource h⟩
    unfold readSource at h
    simp only at h
    split at h
    · cases h
    next heq =>
      split at h
      · cases h
      · cases h; exact heq
  · rintro ⟨h, hnone⟩
    unfold readSource
    simp only [h]
    have hname : d'.openName? = none := by simp [openName?, hnone]
    rw [hname]

end SensorScript.Draft

namespace SensorScript.Script

variable {limits : Limits} {script : Script}

/-- The lines of the source are lines of words, and those write the script. -/
def OfSource (limits : Limits) (source : Bytes) (script : Script) : Prop :=
  ∃ lines, List.Forall₂
      (fun line words => ∃ text, line = .ok text ∧ Source.splitWords limits text = .ok words)
      (Source.lines limits.maxLineLen source) lines ∧
    Written limits script (rowsFrom 1 lines)

/-- The script is not larger than the tables. -/
structure Within (limits : Limits) (script : Script) : Prop where
  instructions : script.count ≤ limits.maxInstructions
  labels : (labels 0 0 script).length ≤ limits.maxLabels
  functions : script.length ≤ limits.maxFunctions

/-- The tables of the draft are those of the script, and no function is open. -/
structure Fills (script : Script) (d : Draft) : Prop where
  instructions : d.instructions.items = instructions 0 script
  labels : d.symbols.labels.items = labels 0 0 script
  functions : d.symbols.functions.items = functions 0 script
  current_eq : d.current = none

theorem fills_of_extends {d : Draft} (h : (Draft.empty limits).Extends script d) :
    script.Fills d :=
  ⟨h.instructions.items_eq, h.labels.items_eq, h.functions.items_eq, h.current_eq⟩

theorem exists_extends_iff :
    (∃ d, (Draft.empty limits).Extends script d) ↔ Within limits script := by
  have hi := Table.exists_grows_iff (t := (Draft.empty limits).instructions) (instructions 0 script)
  have hl := Table.exists_grows_iff (t := (Draft.empty limits).symbols.labels) (labels 0 0 script)
  have hf := Table.exists_grows_iff (t := (Draft.empty limits).symbols.functions)
    (functions 0 script)
  -- The empty tables have size zero and the limits as their capacities.
  change _ ↔ 0 + _ ≤ limits.maxInstructions at hi
  change _ ↔ 0 + _ ≤ limits.maxLabels at hl
  change _ ↔ 0 + _ ≤ limits.maxFunctions at hf
  rw [length_instructions, Nat.zero_add] at hi
  rw [Nat.zero_add] at hl
  rw [length_functions, Nat.zero_add] at hf
  constructor
  · rintro ⟨d, h⟩
    exact ⟨hi.mp ⟨_, h.instructions⟩, hl.mp ⟨_, h.labels⟩, hf.mp ⟨_, h.functions⟩⟩
  · intro h
    obtain ⟨is, hi⟩ := hi.mpr h.instructions
    obtain ⟨ls, hl⟩ := hl.mpr h.labels
    obtain ⟨fs, hf⟩ := hf.mpr h.functions
    exact ⟨⟨limits, is, ⟨ls, fs⟩, none⟩, rfl, rfl, hi, hl, hf⟩

/-- A source is read into an empty draft exactly when it is that of a script
within the limits, and then the tables are those of the script. -/
theorem readSource_empty_iff {source : Bytes} {d : Draft} :
    (Draft.empty limits).readSource source = (d, .ok ()) ↔
      ∃ script, OfSource limits source script ∧ (Draft.empty limits).Extends script d := by
  have hd := Draft.Sound.empty limits
  have hrun (lines : List (List Text)) :
      (Draft.empty limits).Run (rowsFrom 1 lines) d ∧ d.current = none ↔
        ∃ script, Written limits script (rowsFrom 1 lines) ∧
          (Draft.empty limits).Extends script d :=
    (Draft.run_iff Draft.words_of_mem_rowsFrom hd).1 rfl
  rw [Draft.readSource_eq_ok_iff hd, Draft.readLines_eq_ok_iff]
  simp only [Draft.lineWords_eq_ok_iff]
  constructor
  · rintro ⟨⟨lines, hlines, h⟩, hnone⟩
    obtain ⟨script, hs, h⟩ := (hrun lines).mp ⟨h, hnone⟩
    exact ⟨script, ⟨lines, hlines, hs⟩, h⟩
  · rintro ⟨script, ⟨lines, hlines, hs⟩, h⟩
    obtain ⟨h, hnone⟩ := (hrun lines).mpr ⟨script, hs, h⟩
    exact ⟨⟨lines, hlines, h⟩, hnone⟩

end SensorScript.Script
