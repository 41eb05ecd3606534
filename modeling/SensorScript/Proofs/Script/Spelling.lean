/-
SensorScript.Proofs.Script.Spelling — scripts written in other words.

A number can be spelled in many ways, a double word moved under two mnemonics,
and lines without words may stand anywhere. None of this is in a script: rows
that differ in nothing else write scripts that differ in their line numbers
(`Script.Alike`), and these have the same tables.

  §1 words that mean the same;
  §2 operands read from them;
  §3 scripts alike but for their line numbers;
  §4 the tables of scripts alike;
  §5 rows;
  §6 sources.
-/
import SensorScript.Proofs.Forall2
import SensorScript.Proofs.Script.Reading
import SensorScript.Proofs.Source.Lines
import SensorScript.Proofs.Text.Numeral
import SensorScript.Proofs.Text.Utf8

namespace SensorScript

/-! ## §1 Words -/

/-- Words of one register, or of one immediate. -/
inductive SameScalar : Text → Text → Prop
  | register {s t} (number : Numeral.Same false s t) : SameScalar ('R' :: s) ('R' :: t)
  | immediate {s t} (number : Numeral.Same true s t) : SameScalar ('$' :: s) ('$' :: t)

/-- Operand words that are equal, or that say one number in two ways: that of a
register, of an immediate, or of either inside the brackets of a memory place. -/
inductive SameOperand : Text → Text → Prop
  | same (word : Text) : SameOperand word word
  | scalar {s t} (h : SameScalar s t) : SameOperand s t
  | memory {bank s t} (h : SameScalar s t) :
      SameOperand ('M' :: bank :: '[' :: (s ++ [']'])) ('M' :: bank :: '[' :: (t ++ [']']))

/-- Mnemonics that are equal, or both move a double word. -/
inductive SameMnemonic : Text → Text → Prop
  | same (word : Text) : SameMnemonic word word
  | short : SameMnemonic "MOVDW".toList "MOV".toList
  | long : SameMnemonic "MOV".toList "MOVDW".toList

/-- Words of two lines that are equal, or those of one instruction. -/
inductive SameWords : List Text → List Text → Prop
  | same (words : List Text) : SameWords words words
  | instruction {m m' arguments arguments'} (known : (Opcode.ofMnemonic? m).isSome = true)
      (mnemonic : SameMnemonic m m') (operands : List.Forall₂ SameOperand arguments arguments') :
      SameWords (m :: arguments) (m' :: arguments')

theorem SameScalar.symm {s t : Text} (h : SameScalar s t) : SameScalar t s := by
  cases h with
  | register h => exact .register h.symm
  | immediate h => exact .immediate h.symm

theorem SameOperand.symm {s t : Text} (h : SameOperand s t) : SameOperand t s := by
  cases h with
  | same => exact .same _
  | scalar h => exact .scalar h.symm
  | memory h => exact .memory h.symm

theorem SameMnemonic.ofMnemonic?_eq {m m' : Text} (h : SameMnemonic m m') :
    Opcode.ofMnemonic? m = Opcode.ofMnemonic? m' := by
  cases h with
  | same => rfl
  | short => rfl
  | long => rfl

theorem SameWords.symm {ws vs : List Text} (h : SameWords ws vs) : SameWords vs ws := by
  cases h with
  | same => exact .same _
  | instruction hknown hm hos =>
    refine .instruction (hm.ofMnemonic?_eq ▸ hknown) ?_ (hos.flip.imp fun _ _ h => h.symm)
    cases hm with
    | same => exact .same _
    | short => exact .long
    | long => exact .short

/-! ## §2 Operands -/

namespace Operand

variable {limits : Limits} {context : Context} {token token' s t : Text}

theorem readRegister_of_same (h : Numeral.Same false s t) {r : UInt8}
    (hread : readRegister limits token s = .ok r) : readRegister limits token' t = .ok r := by
  unfold readRegister at hread ⊢
  rw [← h.read?_eq]
  split at hread
  · cases hread
  next index hindex =>
    split at hread
    · cases hread
    next hlt =>
      rw [if_neg hlt]
      exact hread

theorem readImmediate_of_same (h : Numeral.Same true s t) {v : UInt32}
    (hread : readImmediate token s = .ok v) : readImmediate token' t = .ok v := by
  unfold readImmediate at hread ⊢
  rw [← h.read?_eq]
  split at hread
  · cases hread
  · exact hread

theorem readOffset?_of_same (h : SameScalar s t) {offset : Offset}
    (hread : readOffset? limits s = some offset) : readOffset? limits t = some offset := by
  cases h with
  | register h =>
    obtain ⟨r, hr, rfl⟩ := Option.map_eq_some_iff.mp hread
    exact Option.map_eq_some_iff.mpr ⟨r, toOption_eq_some_iff.mpr
      (readRegister_of_same h (toOption_eq_some_iff.mp hr)), rfl⟩
  | immediate h =>
    obtain ⟨v, hv, rfl⟩ := Option.map_eq_some_iff.mp hread
    exact Option.map_eq_some_iff.mpr ⟨v, toOption_eq_some_iff.mpr
      (readImmediate_of_same h (toOption_eq_some_iff.mp hv)), rfl⟩

theorem readMemory_of_same (h : SameScalar s t) {bank : Char} {m : Memory}
    (hread : readMemory limits token (bank :: '[' :: (s ++ [']'])) = .ok m) :
    readMemory limits token' (bank :: '[' :: (t ++ [']'])) = .ok m := by
  simp only [readMemory, insideBrackets?_brackets] at hread ⊢
  split at hread
  next hbank hinside =>
    cases hinside
    rw [hbank]
    simp only
    split at hread
    next hoffset =>
      rw [readOffset?_of_same h hoffset]
      exact hread
    · cases hread
  · cases hread

theorem SameScalar.read (h : SameScalar s t) {o : Operand}
    (hread : read limits context s = .ok o) : read limits context t = .ok o := by
  unfold Operand.read at hread ⊢
  split at hread
  · cases hread
  · cases h with
    | register h =>
      obtain ⟨r, hr, rfl⟩ := map_eq_ok_iff.mp hread
      rw [if_neg (Utf8.not_size_cons_lt _ h.symm.ne_nil)]
      exact map_eq_ok_iff.mpr ⟨r, readRegister_of_same h hr, rfl⟩
    | immediate h =>
      obtain ⟨v, hv, rfl⟩ := map_eq_ok_iff.mp hread
      rw [if_neg (Utf8.not_size_cons_lt _ h.symm.ne_nil)]
      exact map_eq_ok_iff.mpr ⟨v, readImmediate_of_same h hv, rfl⟩

/-- Words that mean the same are read as the same operand. -/
theorem SameOperand.read (h : SameOperand s t) {o : Operand}
    (hread : read limits context s = .ok o) : read limits context t = .ok o := by
  cases h with
  | same => exact hread
  | scalar h => exact SameScalar.read h hread
  | memory h =>
    unfold Operand.read at hread ⊢
    rw [if_neg (Utf8.not_size_cons_lt _ (List.cons_ne_nil _ _))] at hread ⊢
    obtain ⟨m, hm, rfl⟩ := map_eq_ok_iff.mp hread
    exact map_eq_ok_iff.mpr ⟨m, readMemory_of_same h hm, rfl⟩

end Operand

/-! ## §3 Scripts -/

/-- Labels of one name, and instructions that differ at most in their lines. -/
inductive Item.Alike : Item → Item → Prop
  | label (name : Text) : Alike (.label name) (.label name)
  | instruction (line line' : Nat) (operation : Operation) :
      Alike (.instruction line operation) (.instruction line' operation)

/-- Functions of one name with items alike. -/
structure Block.Alike (b b' : Block) : Prop where
  name_eq : b'.name = b.name
  items : List.Forall₂ Item.Alike b.items b'.items

/-- Scripts that differ at most in the lines of their instructions. -/
abbrev Script.Alike : Script → Script → Prop := List.Forall₂ Block.Alike

/-- Instructions that differ at most in their lines. -/
structure Instruction.Alike (x y : Instruction) : Prop where
  operation_eq : y.operation = x.operation
  owner_eq : y.owner = x.owner

/-! ## §4 Tables -/

section Tables

theorem Item.count_alike {items items' : List Item} (h : List.Forall₂ Alike items items') :
    count items' = count items := by
  induction h with
  | nil => rfl
  | cons hitem _ ih =>
    cases hitem with
    | label name => rw [count_label, count_label, ih]
    | instruction line line' operation => rw [count_instruction, count_instruction, ih]

theorem Item.instructions_alike {owner : Nat} {items items' : List Item}
    (h : List.Forall₂ Alike items items') :
    List.Forall₂ Instruction.Alike (instructions owner items) (instructions owner items') := by
  induction h with
  | nil => exact .nil
  | cons hitem _ ih =>
    cases hitem with
    | label name => exact ih
    | instruction line line' operation => exact .cons ⟨rfl, rfl⟩ ih

theorem Item.labels_alike {owner index : Nat} {items items' : List Item}
    (h : List.Forall₂ Alike items items') :
    labels owner index items' = labels owner index items := by
  induction h generalizing index with
  | nil => rfl
  | cons hitem _ ih =>
    cases hitem with
    | label name => exact congrArg (Label.mk name index owner :: ·) ih
    | instruction line line' operation => exact ih

theorem Block.Alike.count_eq {b b' : Block} (h : b.Alike b') : b'.count = b.count :=
  Item.count_alike h.items

namespace Script

variable {a b : Script}

theorem count_alike (h : Alike a b) : count b = count a := by
  induction h with
  | nil => rfl
  | cons hblock _ ih => rw [count_cons, count_cons, hblock.count_eq, ih]

theorem instructions_alike {owner : Nat} (h : Alike a b) :
    List.Forall₂ Instruction.Alike (instructions owner a) (instructions owner b) := by
  induction h generalizing owner with
  | nil => exact .nil
  | cons hblock _ ih => exact List.rel_append (Item.instructions_alike hblock.items) ih

theorem labels_alike {owner index : Nat} (h : Alike a b) :
    labels owner index b = labels owner index a := by
  induction h generalizing owner index with
  | nil => rfl
  | cons hblock _ ih => rw [labels, labels, Item.labels_alike hblock.items, hblock.count_eq, ih]

theorem functions_alike {index : Nat} (h : Alike a b) : functions index b = functions index a := by
  induction h generalizing index with
  | nil => rfl
  | cons hblock _ ih => rw [functions, functions, hblock.name_eq, hblock.count_eq, ih]

theorem Within.alike {limits : Limits} (hw : Within limits a) (h : Alike a b) :
    Within limits b where
  instructions := by
    rw [count_alike h]
    exact hw.instructions
  labels := by
    rw [labels_alike h]
    exact hw.labels
  functions := by
    rw [← h.length_eq]
    exact hw.functions

end Script

end Tables

/-! ## §5 Rows -/

/-- Rows whose words mean the same, on whatever lines. -/
def Row.Same (row row' : Row) : Prop := SameWords row.words row'.words

/-- What does not start with a mnemonic is only written in one way. -/
theorem Row.Same.words_eq {row row' : Row} (h : row.Same row') {word : Text} {rest : List Text}
    (hwords : row.words = word :: rest) (hword : Opcode.ofMnemonic? word = none) :
    row'.words = row.words := by
  unfold Row.Same at h
  generalize row'.words = words' at h ⊢
  rw [hwords] at h ⊢
  cases h with
  | same => rfl
  | instruction hknown _ _ =>
    rw [hword] at hknown
    cases hknown

variable {limits : Limits}

theorem Item.Written.same {item : Item} {row row' : Row} (h : item.Written limits row)
    (hsame : row.Same row') : ∃ item' : Item, item'.Written limits row' ∧ item.Alike item' := by
  obtain ⟨line', words'⟩ := row'
  cases h with
  | @label line name allowed =>
    cases hsame.words_eq rfl (Opcode.ofMnemonic?_of_getLast? List.getLast?_concat)
    exact ⟨.label name, .label allowed, .label name⟩
  | @instruction line mnemonic opcode arguments operands known within arity read fits =>
    have hsame : SameWords (mnemonic :: arguments) words' := hsame
    refine ⟨.instruction line' ⟨opcode, operands⟩, ?_, .instruction ..⟩
    cases hsame with
    | same => exact .instruction known within arity read fits
    | @instruction _ m' _ arguments' _ hm hos =>
      have hlength := hos.length_eq
      refine .instruction (hm.ofMnemonic?_eq ▸ known) (hlength ▸ within) (hlength ▸ arity) ?_ fits
      refine (forall₂_comp hos.flip read).imp ?_
      rintro word operand ⟨w, hw, hread⟩
      exact Operand.SameOperand.read hw hread

/-- The row of a directive is the row of the same directive on its line. -/
theorem Row.Same.eq_mk {line line' : Nat} {x : Directive} {arguments words : List Text}
    (h : Row.Same ⟨line, x.name.toList :: arguments⟩ ⟨line', words⟩) :
    words = x.name.toList :: arguments :=
  h.words_eq rfl x.ofMnemonic?_name

theorem Block.Written.same {b : Block} {rows rows' : List Row} (h : b.Written limits rows)
    (hsame : List.Forall₂ Row.Same rows rows') :
    ∃ b' : Block, b'.Written limits rows' ∧ b.Alike b' := by
  cases h with
  | @mk first last name items inside allowed hinside =>
    obtain _ | @⟨_, opening, _, _, hopening, hsame⟩ := hsame
    obtain ⟨inside', closing, hinside', hclosing, rfl⟩ := exists_append_of_forall₂ hsame
    obtain _ | @⟨_, closing, _, _, hclosing, ⟨⟩⟩ := hclosing
    obtain ⟨first', _⟩ := opening
    obtain ⟨last', _⟩ := closing
    cases hopening.eq_mk (x := .function)
    cases hclosing.eq_mk (x := .endFunction)
    -- Row by row, an item alike is written.
    have hrows : List.Forall₂
        (fun row' item => ∃ item' : Item, item'.Written limits row' ∧ item.Alike item')
        inside' items := by
      refine (forall₂_comp hinside hinside').flip.imp ?_
      rintro row' item ⟨row, hitem, hrow⟩
      exact hitem.same hrow
    obtain ⟨items', hitems', halike⟩ := exists_forall₂ hrows
    exact ⟨⟨name, items'⟩, .mk allowed hitems'.flip, rfl, halike⟩

theorem Script.Written.same {a : Script} {rows rows' : List Row} (h : Written limits a rows)
    (hsame : List.Forall₂ Row.Same rows rows') :
    ∃ b, Written limits b rows' ∧ a.Alike b := by
  obtain ⟨blocks, hblocks, rfl⟩ := h
  induction hblocks generalizing rows' with
  | nil =>
    cases hsame
    exact ⟨[], ⟨[], .nil, rfl⟩, .nil⟩
  | cons hblock _ ih =>
    obtain ⟨first, rest, hfirst, hrest, rfl⟩ := exists_append_of_forall₂ hsame
    obtain ⟨b', hb', halike⟩ := hblock.same hfirst
    obtain ⟨script, ⟨blocks', hblocks', rfl⟩, hscript⟩ := ih hrest
    exact ⟨b' :: script, ⟨first :: blocks', .cons hb' hblocks', rfl⟩, .cons halike hscript⟩

/-! ## §6 Sources -/

/-- The rows of lines are those that have words. -/
theorem map_words_rowsFrom (line : Nat) (lines : List (List Text)) :
    (rowsFrom line lines).map Row.words = lines.filter (· ≠ []) := by
  induction lines generalizing line with
  | nil => rfl
  | cons words lines ih =>
    cases words with
    | nil => exact ih (line + 1)
    | cons word words => exact congrArg ((word :: words) :: ·) (ih (line + 1))

/-- A source whose words mean the same is that of a script alike. -/
theorem Script.OfSource.same {a : Script} {source source' : Bytes} {lines lines' : List (List Text)}
    (h : OfSource limits source a) (hlines : Source.WordsOf limits source lines)
    (hlines' : Source.WordsOf limits source' lines')
    (hsame : List.Forall₂ SameWords (lines.filter (· ≠ [])) (lines'.filter (· ≠ []))) :
    ∃ b, OfSource limits source' b ∧ a.Alike b := by
  obtain ⟨lines₁, hlines₁, hwritten⟩ := h
  cases hlines.unique hlines₁
  rw [← map_words_rowsFrom 1, ← map_words_rowsFrom 1, List.forall₂_map_left_iff,
    List.forall₂_map_right_iff] at hsame
  obtain ⟨b, hb, halike⟩ := hwritten.same hsame
  exact ⟨b, ⟨lines', hlines', hb⟩, halike⟩

end SensorScript
