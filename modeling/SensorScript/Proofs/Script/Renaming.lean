/-
SensorScript.Proofs.Script.Renaming — scripts under other names.

The names of a function are those between its directives, so a source is
renamed line by line, and the number of functions closed so far says whose
labels a line can name. The renamed lines write the renamed script, whatever
its new names look like, as long as they can be read as names and stand as
words.

  §1 lines renamed;
  §2 scripts renamed, and their tables;
  §3 names that can be read;
  §4 the rows of a renamed script;
  §5 the texts of a renamed source.
-/
import SensorScript.Proofs.Renaming
import SensorScript.Proofs.Script.Reading
import SensorScript.Proofs.Source.Lines

namespace SensorScript

variable {limits : Limits}

namespace Renaming

variable (ρ : Renaming)

/-! ## §1 Lines -/

/-- The word of an operand with the name in it changed. -/
def argument (context : Context) (owner : Nat) : Text → Text
  | '@' :: name =>
    match context with
    | .plain => '@' :: ρ.label owner name
    | .call => '@' :: ρ.function name
  | word => word

/-- The words of a line with the names in them changed: that of a function which
is opened, that of a label, and those that an instruction refers to. -/
def words (owner : Nat) (ws : List Text) : List Text :=
  match Statement.ofWords ws with
  | .instruction op arguments => ws.take 1 ++ arguments.map (ρ.argument (Draft.contextOf op) owner)
  | .directive .function [name] => ws.take 1 ++ [ρ.function name]
  | .label word [] => [ρ.label owner word.dropLast ++ [':']]
  | _ => ws

/-- Index of the function that the lines after one of these words belong to. -/
def next (owner : Nat) (ws : List Text) : Nat :=
  if ws = [Directive.endFunction.name.toList] then owner + 1 else owner

/-- The texts of lines, the first of them in the function `owner`, with names changed. -/
def texts : Nat → List Text → List Text
  | _, [] => []
  | owner, text :: rest =>
    Source.respell text (ρ.words owner (Source.words text)) ::
      texts (next owner (Source.words text)) rest

def row (owner : Nat) (r : Row) : Row := { r with words := ρ.words owner r.words }

/-- Rows, the first of them in the function `owner`, with names changed. -/
def rows : Nat → List Row → List Row
  | _, [] => []
  | owner, r :: rest => ρ.row owner r :: rows (next owner r.words) rest

@[simp] theorem words_nil (owner : Nat) : ρ.words owner [] = [] := rfl

theorem words_instruction {mnemonic : Text} {op : Opcode}
    (h : Opcode.ofMnemonic? mnemonic = some op) (owner : Nat) (arguments : List Text) :
    ρ.words owner (mnemonic :: arguments) =
      mnemonic :: arguments.map (ρ.argument (Draft.contextOf op) owner) := by
  rw [words, Statement.ofWords_eq_instruction_iff.mpr ⟨mnemonic, rfl, h⟩]
  rfl

theorem words_opening (owner : Nat) (name : Text) :
    ρ.words owner [Directive.function.name.toList, name] =
      [Directive.function.name.toList, ρ.function name] := by
  rw [words, Statement.ofWords_eq_directive_iff.mpr rfl]
  rfl

theorem words_closing (owner : Nat) :
    ρ.words owner [Directive.endFunction.name.toList] = [Directive.endFunction.name.toList] := by
  rw [words, Statement.ofWords_eq_directive_iff (x := .endFunction).mpr rfl]

theorem words_label (owner : Nat) (name : Text) :
    ρ.words owner [name ++ [':']] = [ρ.label owner name ++ [':']] := by
  rw [words, Statement.ofWords_eq_label_iff.mpr ⟨rfl, List.getLast?_concat⟩]
  simp

theorem length_words (owner : Nat) (ws : List Text) : (ρ.words owner ws).length = ws.length := by
  unfold words
  split
  next hs =>
    obtain ⟨mnemonic, rfl, _⟩ := Statement.ofWords_eq_instruction_iff.mp hs
    simp
  next hs =>
    rw [Statement.ofWords_eq_directive_iff.mp hs]
    simp
  next hs =>
    obtain ⟨rfl, _⟩ := Statement.ofWords_eq_label_iff.mp hs
    simp
  next => rfl

/-! ## §2 Scripts -/

def item (owner : Nat) : Item → Item
  | .label name => .label (ρ.label owner name)
  | .instruction line operation => .instruction line (ρ.operation owner operation)

def block (owner : Nat) (b : Block) : Block := ⟨ρ.function b.name, b.items.map (ρ.item owner)⟩

/-- Blocks, the first of which has the index `owner`, with names changed. -/
def script : Nat → Script → Script
  | _, [] => []
  | owner, b :: rest => ρ.block owner b :: script (owner + 1) rest

section Tables

variable (owner index : Nat) (items : List Item) (s : Script)

theorem itemInstructions :
    Item.instructions owner (items.map (ρ.item owner)) =
      (Item.instructions owner items).map ρ.instruction := by
  induction items with
  | nil => rfl
  | cons i items ih =>
    cases i with
    | label name => exact ih
    | instruction line operation =>
      exact congrArg (Instruction.mk (ρ.operation owner operation) owner line :: ·) ih

theorem itemLabels :
    Item.labels owner index (items.map (ρ.item owner)) =
      (Item.labels owner index items).map ρ.labelEntry := by
  induction items generalizing index with
  | nil => rfl
  | cons i items ih =>
    cases i with
    | label name => exact congrArg (Label.mk (ρ.label owner name) index owner :: ·) (ih index)
    | instruction line operation => exact ih (index + 1)

theorem count_block (b : Block) : (ρ.block owner b).count = b.count :=
  Item.count_map (fun i => by cases i <;> rfl) b.items

theorem count_script : (ρ.script owner s).count = s.count := by
  induction s generalizing owner with
  | nil => rfl
  | cons b s ih => rw [script, Script.count_cons, count_block, ih, Script.count_cons]

theorem length_script : (ρ.script owner s).length = s.length := by
  induction s generalizing owner with
  | nil => rfl
  | cons b s ih => rw [script, List.length_cons, ih, List.length_cons]

theorem instructions_script :
    Script.instructions owner (ρ.script owner s) =
      (Script.instructions owner s).map ρ.instruction := by
  induction s generalizing owner with
  | nil => rfl
  | cons b s ih =>
    rw [script, Script.instructions, block, itemInstructions, ih, Script.instructions,
      List.map_append]

theorem labels_script :
    Script.labels owner index (ρ.script owner s) =
      (Script.labels owner index s).map ρ.labelEntry := by
  induction s generalizing owner index with
  | nil => rfl
  | cons b s ih =>
    rw [script, Script.labels, count_block, block, itemLabels, ih, Script.labels, List.map_append]

theorem functions_script :
    Script.functions index (ρ.script owner s) = (Script.functions index s).map ρ.span := by
  induction s generalizing owner index with
  | nil => rfl
  | cons b s ih => rw [script, Script.functions, count_block, ih, Script.functions, List.map_cons]; rfl

theorem within_script {s : Script} (h : s.Within limits) : (ρ.script 0 s).Within limits where
  instructions := by
    rw [count_script]
    exact h.instructions
  labels := by
    rw [labels_script, List.length_map]
    exact h.labels
  functions := by
    rw [length_script]
    exact h.functions

end Tables

end Renaming

/-! ## §3 Names -/

/-- The text is read as a name, and can stand as a word on a line. -/
structure LegalName (limits : Limits) (name : Text) : Prop where
  read : Operand.readName limits name = .ok name
  word : Source.IsWord name

instance (limits : Limits) (name : Text) : Decidable (LegalName limits name) :=
  decidable_of_iff (Operand.readName limits name = .ok name ∧ Source.IsWord name)
    ⟨fun h => ⟨h.1, h.2⟩, fun h => ⟨h.read, h.word⟩⟩

/-- The name in the operand, if there is one, is legal. -/
def Operand.Legal (limits : Limits) (o : Operand) : Prop :=
  ∀ s, o.symbol? = some s → LegalName limits s.name

def Item.Legal (limits : Limits) : Item → Prop
  | .label name => LegalName limits name
  | .instruction _ operation => ∀ o ∈ operation.operands, o.Legal limits

structure Block.Legal (limits : Limits) (b : Block) : Prop where
  name : LegalName limits b.name
  items : ∀ item ∈ b.items, item.Legal limits

/-- All names in the script are legal. -/
def Script.Legal (limits : Limits) (script : Script) : Prop := ∀ b ∈ script, b.Legal limits

theorem Item.legal_of_tables {owner index : Nat} {items : List Item}
    (hi : ∀ x ∈ instructions owner items, ∀ o ∈ x.operation.operands, o.Legal limits)
    (hl : ∀ l ∈ labels owner index items, LegalName limits l.name) :
    ∀ item ∈ items, item.Legal limits := by
  induction items generalizing index with
  | nil => exact nofun
  | cons item items ih =>
    cases item with
    | label name =>
      obtain ⟨hname, hl⟩ := List.forall_mem_cons.mp hl
      exact List.forall_mem_cons.mpr ⟨hname, ih hi hl⟩
    | instruction line operation =>
      obtain ⟨hoperation, hi⟩ := List.forall_mem_cons.mp hi
      exact List.forall_mem_cons.mpr ⟨hoperation, ih hi hl⟩

/-- The names of a script are those in its tables. -/
theorem Script.legal_of_tables {owner index : Nat} {script : Script}
    (hi : ∀ x ∈ instructions owner script, ∀ o ∈ x.operation.operands, o.Legal limits)
    (hl : ∀ l ∈ labels owner index script, LegalName limits l.name)
    (hf : ∀ f ∈ functions index script, LegalName limits f.name) : Legal limits script := by
  induction script generalizing owner index with
  | nil => exact nofun
  | cons b script ih =>
    obtain ⟨hib, hi⟩ := List.forall_mem_append.mp hi
    obtain ⟨hlb, hl⟩ := List.forall_mem_append.mp hl
    obtain ⟨hname, hf⟩ := List.forall_mem_cons.mp hf
    exact List.forall_mem_cons.mpr ⟨⟨hname, Item.legal_of_tables hib hlb⟩, ih hi hl hf⟩

/-! ## §4 Rows -/

/-- An operand is either read from the name of a reference, or it has no name. -/
theorem Operand.reference_or_of_read {context : Context} {word : Text} {o : Operand}
    (h : read limits context word = .ok o) :
    (∃ name, word = '@' :: name ∧ o = reference context name) ∨
      (∀ name, word ≠ '@' :: name) ∧ o.symbol? = none := by
  unfold read at h
  split at h
  · cases h
  split at h
  · obtain ⟨r, _, rfl⟩ := map_eq_ok_iff.mp h
    exact Or.inr ⟨nofun, rfl⟩
  · obtain ⟨v, _, rfl⟩ := map_eq_ok_iff.mp h
    exact Or.inr ⟨nofun, rfl⟩
  · obtain ⟨name, hname, rfl⟩ := map_eq_ok_iff.mp h
    obtain rfl := (readName_eq_ok_iff.mp hname).1
    exact Or.inl ⟨_, rfl, rfl⟩
  · obtain ⟨m, _, rfl⟩ := map_eq_ok_iff.mp h
    exact Or.inr ⟨nofun, rfl⟩
  · cases h

theorem Operand.read_reference {name : Text} (h : LegalName limits name) (context : Context) :
    read limits context ('@' :: name) = .ok (reference context name) := by
  unfold read
  rw [if_neg (Utf8.not_size_cons_lt _ h.word.nonempty)]
  simp only [h.read]
  rfl

/-- A word in front of which, or behind which, a character of words is put. -/
theorem Source.IsWord.cons {w : Text} (h : IsWord w) {c : Char} (hc : isWordChar c = true) :
    IsWord (c :: w) :=
  ⟨List.cons_ne_nil c w, List.forall_mem_cons.mpr ⟨hc, h.chars⟩⟩

theorem Source.IsWord.concat {w : Text} (h : IsWord w) {c : Char} (hc : isWordChar c = true) :
    IsWord (w ++ [c]) :=
  ⟨List.concat_ne_nil c w,
    List.forall_mem_append.mpr ⟨h.chars, List.forall_mem_singleton.mpr hc⟩⟩

/-- Every word of the row can stand on a line. -/
def Row.OfWords (r : Row) : Prop := ∀ w ∈ r.words, Source.IsWord w

namespace Renaming

variable {ρ : Renaming} {owner : Nat}

/-- A renamed operand is read as the operand under its new name, and can stand
on a line if it could before. -/
theorem read_argument {context : Context} {word : Text} {o : Operand}
    (h : Operand.read limits context word = .ok o) (hlegal : (ρ.operand owner o).Legal limits) :
    Operand.read limits context (ρ.argument context owner word) = .ok (ρ.operand owner o) ∧
      (Source.IsWord word → Source.IsWord (ρ.argument context owner word)) := by
  obtain ⟨name, rfl, rfl⟩ | ⟨hword, hvalue⟩ := Operand.reference_or_of_read h
  · cases context with
    | plain =>
      have hname : LegalName limits (ρ.label owner name) := hlegal _ rfl
      exact ⟨Operand.read_reference hname .plain, fun _ => hname.word.cons rfl⟩
    | call =>
      have hname : LegalName limits (ρ.function name) := hlegal _ rfl
      exact ⟨Operand.read_reference hname .call, fun _ => hname.word.cons rfl⟩
  · have hsame : ρ.argument context owner word = word := by
      unfold argument
      split
      next name => exact absurd rfl (hword name)
      next => rfl
    rw [hsame, operand_of_value hvalue]
    exact ⟨h, id⟩

/-- The row of a renamed item writes it, and its words can stand on a line. -/
theorem written_item {i : Item} {r : Row} (h : i.Written limits r)
    (hlegal : (ρ.item owner i).Legal limits) :
    (ρ.item owner i).Written limits (ρ.row owner r) ∧ (r.OfWords → (ρ.row owner r).OfWords) := by
  cases h with
  | @label line name allowed =>
    have hrow : ρ.row owner ⟨line, [name ++ [':']]⟩ = ⟨line, [ρ.label owner name ++ [':']]⟩ :=
      congrArg (Row.mk line) (ρ.words_label owner name)
    rw [hrow]
    exact ⟨.label hlegal.read, fun _ => List.forall_mem_singleton.mpr (hlegal.word.concat rfl)⟩
  | @instruction line mnemonic op arguments operands known within arity read fits =>
    have hrow : ρ.row owner ⟨line, mnemonic :: arguments⟩ =
        ⟨line, mnemonic :: arguments.map (ρ.argument (Draft.contextOf op) owner)⟩ :=
      congrArg (Row.mk line) (ρ.words_instruction known owner arguments)
    rw [hrow]
    have hread := forall₂_imp_mem read fun word _ o ho h =>
      read_argument h (List.forall_mem_map.mp hlegal o ho)
    constructor
    · refine .instruction known ?_ ?_ ?_ ?_
      · rw [List.length_map]
        exact within
      · rw [List.length_map]
        exact arity
      · rw [List.forall₂_map_left_iff, List.forall₂_map_right_iff]
        exact hread.imp fun _ _ h => h.1
      · exact checkShape_eq_ok_iff.mpr (fits_operands (checkShape_eq_ok_iff.mp fits))
    · intro hwords
      obtain ⟨hmnemonic, harguments⟩ := List.forall_mem_cons.mp hwords
      refine List.forall_mem_cons.mpr ⟨hmnemonic, List.forall_mem_map.mpr fun word hword => ?_⟩
      obtain ⟨o, _, _, hkeep⟩ := exists_mem_of_forall₂ hread.flip hword
      exact hkeep (harguments word hword)

/-- No row of an item closes its function. -/
theorem next_of_written {i : Item} {r : Row} (h : i.Written limits r) :
    next owner r.words = owner := by
  refine if_neg fun hclosing => ?_
  cases h with
  | label allowed =>
    have hlast := congrArg List.getLast? (List.head_eq_of_cons_eq hclosing)
    rw [List.getLast?_concat] at hlast
    revert hlast
    decide
  | instruction known within arity read fits =>
    rw [List.head_eq_of_cons_eq hclosing, Directive.ofMnemonic?_name] at known
    cases known

theorem rows_append {items : List Item} {inside : List Row}
    (h : List.Forall₂ (Item.Written limits) items inside) (rest : List Row) :
    ρ.rows owner (inside ++ rest) = inside.map (ρ.row owner) ++ ρ.rows owner rest := by
  induction h with
  | nil => rfl
  | cons hitem _ ih =>
    rw [List.cons_append, rows, next_of_written hitem, ih]
    rfl

/-- The rows of a renamed block write it, and what follows belongs to the next one. -/
theorem written_block {b : Block} {rs : List Row} (h : b.Written limits rs)
    (hlegal : (ρ.block owner b).Legal limits) (rest : List Row) :
    ∃ rs', ρ.rows owner (rs ++ rest) = rs' ++ ρ.rows (owner + 1) rest ∧
      (ρ.block owner b).Written limits rs' ∧
      ((∀ r ∈ rs, r.OfWords) → ∀ r ∈ rs', r.OfWords) := by
  cases h with
  | @mk first last name items inside allowed hinside =>
    have hrows := forall₂_imp_mem hinside fun i hi r _ h =>
      written_item h (List.forall_mem_map.mp hlegal.items i hi)
    refine ⟨.opening first (ρ.function name) :: (inside.map (ρ.row owner) ++ [.closing last]),
      ?_, ?_, ?_⟩
    · have hopening : ρ.row owner (.opening first name) = .opening first (ρ.function name) :=
        congrArg (Row.mk first) (ρ.words_opening owner name)
      have hclosing : ρ.row owner (.closing last) = .closing last :=
        congrArg (Row.mk last) (ρ.words_closing owner)
      have hnext : next owner (Row.opening first name).words = owner := rfl
      have hnext' : next owner (Row.closing last).words = owner + 1 := rfl
      rw [List.cons_append, rows, hopening, hnext, List.append_assoc, rows_append hinside,
        List.singleton_append, rows, hclosing, hnext', List.cons_append, List.append_assoc]
      rfl
    · refine .mk hlegal.name.read ?_
      rw [List.forall₂_map_left_iff, List.forall₂_map_right_iff]
      exact hrows.imp fun _ _ h => h.1
    · intro hwords
      obtain ⟨hopening, hwords⟩ := List.forall_mem_cons.mp hwords
      obtain ⟨hwords, hclosing⟩ := List.forall_mem_append.mp hwords
      obtain ⟨hdirective, _⟩ := List.forall_mem_cons.mp hopening
      refine List.forall_mem_cons.mpr ⟨?_, List.forall_mem_append.mpr ⟨?_, hclosing⟩⟩
      · exact List.forall_mem_cons.mpr ⟨hdirective, List.forall_mem_singleton.mpr hlegal.name.word⟩
      · refine List.forall_mem_map.mpr fun r hr => ?_
        obtain ⟨i, _, _, hkeep⟩ := exists_mem_of_forall₂ hrows hr
        exact hkeep (hwords r hr)

/-- The renamed rows of a script write the renamed script. -/
theorem written_script {s : Script} {rs : List Row} (h : s.Written limits rs)
    (hlegal : (ρ.script owner s).Legal limits) :
    (ρ.script owner s).Written limits (ρ.rows owner rs) ∧
      ((∀ r ∈ rs, r.OfWords) → ∀ r ∈ ρ.rows owner rs, r.OfWords) := by
  obtain ⟨blocks, hblocks, rfl⟩ := h
  induction hblocks generalizing owner with
  | nil => exact ⟨⟨[], .nil, rfl⟩, id⟩
  | cons hblock _ ih =>
    obtain ⟨hlegalBlock, hlegal⟩ := List.forall_mem_cons.mp hlegal
    obtain ⟨rs', hrows, hwritten, hwords⟩ := written_block hblock hlegalBlock _
    obtain ⟨⟨blocks', hblocks', hrest⟩, hwordsRest⟩ := ih hlegal
    rw [List.flatten_cons, hrows]
    constructor
    · rw [hrest]
      exact ⟨rs' :: blocks', .cons hwritten hblocks', rfl⟩
    · intro h
      obtain ⟨hfirst, hrest⟩ := List.forall_mem_append.mp h
      exact List.forall_mem_append.mpr ⟨hwords hfirst, hwordsRest hrest⟩

/-! ## §5 Texts -/

theorem rowsFrom_cons {ws : List Text} (h : ws ≠ []) (line : Nat) (lines : List (List Text)) :
    rowsFrom line (ws :: lines) = ⟨line, ws⟩ :: rowsFrom (line + 1) lines := by
  cases ws with
  | nil => exact absurd rfl h
  | cons word ws => rfl

/-- The rows of renamed texts are the renamed rows, as long as these have words
only; and then the texts have no line ends unless they had some before. -/
theorem rowsFrom_texts {line : Nat} {ts : List Text}
    (hwords : ∀ r ∈ ρ.rows owner (rowsFrom line (ts.map Source.words)), r.OfWords) :
    rowsFrom line ((ρ.texts owner ts).map Source.words) =
        ρ.rows owner (rowsFrom line (ts.map Source.words)) ∧
      ((∀ text ∈ ts, ∀ c ∈ text, Source.isLineChar c = true) →
        ∀ text ∈ ρ.texts owner ts, ∀ c ∈ text, Source.isLineChar c = true) := by
  induction ts generalizing owner line with
  | nil => exact ⟨rfl, id⟩
  | cons text ts ih =>
    rw [List.map_cons] at hwords
    rw [texts, List.map_cons, List.map_cons]
    by_cases hne : Source.words text = []
    · -- A line without words has no row, and it stays as it is.
      have hsame : Source.respell text [] = text := hne ▸ Source.respell_words text
      rw [hne] at hwords ⊢
      obtain ⟨hrows, hchars⟩ := ih hwords
      rw [words_nil, hsame, hne]
      refine ⟨hrows, fun hts => ?_⟩
      obtain ⟨htext, hts⟩ := List.forall_mem_cons.mp hts
      exact List.forall_mem_cons.mpr ⟨htext, hchars hts⟩
    · rw [rowsFrom_cons hne] at hwords ⊢
      obtain ⟨hhead, hrest⟩ := List.forall_mem_cons.mp hwords
      obtain ⟨hrows, hchars⟩ := ih hrest
      have hlength := ρ.length_words owner (Source.words text)
      have hne' : ρ.words owner (Source.words text) ≠ [] := by
        rw [← List.length_pos_iff, hlength]
        exact List.length_pos_iff.mpr hne
      rw [Source.words_respell hlength hhead, rowsFrom_cons hne', hrows]
      refine ⟨rfl, fun hts => ?_⟩
      obtain ⟨htext, hts⟩ := List.forall_mem_cons.mp hts
      refine List.forall_mem_cons.mpr ⟨Source.forall_mem_respell htext ?_, hchars hts⟩
      intro w hw c hc
      exact (Source.isWordChar_iff.mp ((hhead w hw).chars c hc)).2.2

end Renaming

end SensorScript
