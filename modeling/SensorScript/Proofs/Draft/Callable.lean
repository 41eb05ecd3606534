/-
SensorScript.Proofs.Draft.Callable — which functions that are opened can be called.

The line that calls a function has as many words as the line that opens it and
not more bytes. But the word that refers to the function is longer than its name,
by the `@` in front of it. So a function can be called under the limits it was
opened under, unless its name is as long as a word may be (`callable_of_opened`);
and limits that fit together allow such a name when they are equal.

  §1 lines of two words;
  §2 the line that opens a function;
  §3 the line that calls one;
  §4 functions that are opened.
-/
import SensorScript.Proofs.Script.Renaming
import SensorScript.Proofs.Source.Lines
import SensorScript.Proofs.Statement

namespace SensorScript

/-! ## §1 Lines of two words -/

namespace Source

variable {v w : Text}

/-- A line of two words. -/
def pair (v w : Text) : Text := v ++ ' ' :: w

theorem words_pair (hv : IsWord v) (hw : IsWord w) : words (pair v w) = [v, w] := by
  have hspace : ∀ c ∈ [' '], isSeparator c = true := List.forall_mem_singleton.mpr rfl
  have hwords := words_word hv.nonempty hv.not_isBreak (List.cons_ne_nil ' ' []) hspace w
  rw [List.singleton_append] at hwords
  rw [pair, hwords, words_of_not_isBreak hw.nonempty hw.not_isBreak]

theorem isLineChar_pair (hv : IsWord v) (hw : IsWord w) : ∀ c ∈ pair v w, isLineChar c = true := by
  have hchars {u : Text} (hu : IsWord u) : ∀ c ∈ u, isLineChar c = true :=
    fun c hc => (isWordChar_iff.mp (hu.chars c hc)).2.2
  exact List.forall_mem_append.mpr ⟨hchars hv, List.forall_mem_cons.mpr ⟨rfl, hchars hw⟩⟩

end Source

/-- The line that opens the function of a name. -/
def openingLine (name : Text) : Text := Source.pair Directive.function.name.toList name

/-- The line that calls the function of a name. -/
def callLine (name : Text) : Text := Source.pair Opcode.call.mnemonic.toList ('@' :: name)

section

variable {name : Text} (h : Source.IsWord name)
include h

theorem words_openingLine :
    Source.words (openingLine name) = [Directive.function.name.toList, name] :=
  Source.words_pair (by decide) h

theorem isLineChar_openingLine : ∀ c ∈ openingLine name, Source.isLineChar c = true :=
  Source.isLineChar_pair (by decide) h

theorem words_callLine :
    Source.words (callLine name) = [Opcode.call.mnemonic.toList, '@' :: name] :=
  Source.words_pair (by decide) (h.cons rfl)

theorem isLineChar_callLine : ∀ c ∈ callLine name, Source.isLineChar c = true :=
  Source.isLineChar_pair (by decide) (h.cons rfl)

end

/-- The mnemonic with the `@` is shorter than the directive. -/
theorem size_callLine_le (name : Text) :
    Utf8.size (callLine name) ≤ Utf8.size (openingLine name) := by
  have hmnemonic : Utf8.size Opcode.call.mnemonic.toList = 4 := by decide
  have hdirective : Utf8.size Directive.function.name.toList = 9 := by decide
  have hsigil : (Utf8.encodeChar '@').length = 1 := by decide
  rw [callLine, openingLine, Source.pair, Source.pair, Utf8.size_append, Utf8.size_append,
    Utf8.size_cons, Utf8.size_cons, Utf8.size_cons, hmnemonic, hdirective, hsigil]
  omega

/-! ## §2 Opening a function -/

namespace Draft

/-- The bytes of the text are one line, and reading it after the draft gives `result`. -/
def ReadsLine (d : Draft) (line : Nat) (text : Text) (result : Except ParseError Draft) : Prop :=
  ∃ read, Source.lines d.limits.maxLineLen (Source.write [text]) = [read] ∧
    d.readLine line read = result

variable {d d' : Draft} {line : Nat} {text name : Text}

theorem ReadsLine.unique {result result' : Except ParseError Draft}
    (h : d.ReadsLine line text result) (h' : d.ReadsLine line text result') : result = result' := by
  obtain ⟨read, hlines, rfl⟩ := h
  obtain ⟨read', hlines', rfl⟩ := h'
  rw [hlines] at hlines'
  cases hlines'
  rfl

theorem readsLine_of_size (line : Nat) (hchars : ∀ c ∈ text, Source.isLineChar c = true)
    (hsize : Utf8.size text ≤ d.limits.maxLineLen) :
    d.ReadsLine line text (d.readLine line (.ok text)) :=
  ⟨.ok text, Source.lines_write hchars hsize, rfl⟩

theorem readLine_of_splitWords_eq_error {e : Source.WordError}
    (h : Source.splitWords d.limits text = .error e) :
    d.readLine line (.ok text) = .error (.words e) := by
  have hsplit :
      (Source.splitWords d.limits text).mapError ParseError.words = .error (.words e) := by
    rw [h]
    rfl
  exact congrArg (· >>= fun words => d.apply line (.ofWords words)) hsplit

/-- The text of a line that is read. -/
theorem ReadsLine.exists_text (h : d.ReadsLine line text (.ok d')) :
    ∃ t, Source.TextsOf (Source.write [text]) [t] ∧ Source.Readable d.limits t ∧
      Step d line (.ofWords (Source.words t)) d' := by
  obtain ⟨read, hlines, hread⟩ := h
  obtain ⟨words, hwords, hstep⟩ := readLine_eq_ok_iff.mp hread
  obtain ⟨t, ht, hsplit⟩ := bind_eq_ok_iff.mp hwords
  obtain rfl := mapError_eq_ok_iff.mp ht
  have hsplit := mapError_eq_ok_iff.mp hsplit
  obtain rfl := Source.enforce_eq_ok hsplit
  rw [Source.lines, List.map_eq_singleton_iff] at hlines
  obtain ⟨s, hs, hline⟩ := hlines
  obtain ⟨hdecode, hsize⟩ := Source.readLine_eq_ok_iff.mp hline
  refine ⟨t, ?_, ⟨hsize, hsplit⟩, hstep⟩
  rw [Source.TextsOf, hs]
  exact .cons hdecode .nil

/-- Only the directive that opens a function leaves one open where there was none. -/
theorem Step.of_opens {s : Statement} (h : Step d line s d') (hclosed : d.current = none)
    (hopened : d'.openName? = some name) :
    s = .directive .function [name] ∧ Operand.readName d.limits name = .ok name := by
  have hnone : d.openName? = none := by simp [openName?, hclosed]
  cases h with
  | empty =>
    rw [hnone] at hopened
    cases hopened
  | closeFunction _ => cases hopened
  | addLabel hopen _ _ =>
    rw [hclosed] at hopen
    cases hopen
  | addInstruction hopen _ _ =>
    rw [hclosed] at hopen
    cases hopen
  | openFunction _ hallowed hpushed =>
    simp only [openName?, Option.bind_eq_bind, Option.bind_some, Table.get?,
      Table.items_of_push hpushed, Table.size, List.getElem?_concat_length] at hopened
    cases hopened
    exact ⟨rfl, hallowed⟩

/-- When the line that opens a function of this name is read and does that, it is
within the limits, and the name is legal. -/
theorem readable_of_opened (h : d.ReadsLine line (openingLine name) (.ok d'))
    (hclosed : d.current = none) (hopened : d'.openName? = some name) :
    LegalName d.limits name ∧ Source.Readable d.limits (openingLine name) := by
  obtain ⟨t, ht, hreadable, hstep⟩ := h.exists_text
  obtain ⟨hstatement, hname⟩ := hstep.of_opens hclosed hopened
  have hwords := Statement.ofWords_eq_directive_iff.mp hstatement
  have hword : Source.IsWord name := by
    refine Source.isWord_of_mem_words (Source.isLineChar_of_textsOf ht t (.head _)) name ?_
    rw [hwords]
    exact .tail _ (.head _)
  have hline : Source.TextsOf (Source.write [openingLine name]) [openingLine name] :=
    Source.textsOf_write (List.forall_mem_singleton.mpr (isLineChar_openingLine hword))
  obtain rfl : t = openingLine name := List.head_eq_of_cons_eq (ht.unique hline)
  exact ⟨⟨hname, hword⟩, hreadable⟩

/-- The line that opens a function of a legal name does that, when it is within the
limits and there is room for the function. -/
theorem opened_of_readable (line : Nat) (hname : LegalName d.limits name)
    (hreadable : Source.Readable d.limits (openingLine name)) (hclosed : d.current = none)
    (hroom : d.symbols.functions.isFull = false) :
    ∃ d', d.ReadsLine line (openingLine name) (.ok d') ∧ d'.openName? = some name ∧
      d'.current = some d.symbols.functions.size ∧ d'.instructions = d.instructions ∧
      d'.limits = d.limits := by
  have hnone : d.openName? = none := by simp [openName?, hclosed]
  obtain ⟨functions, hpush, hitems, _⟩ := Table.push_of_room
    (⟨name, d.instructions.size, d.instructions.size⟩ : FunctionSpan)
    (Nat.lt_of_not_le (of_decide_eq_false hroom))
  have hread : d.ReadsLine line (openingLine name) (d.readLine line (.ok (openingLine name))) :=
    readsLine_of_size _ (isLineChar_openingLine hname.word) hreadable.length
  have hline : d.readLine line (.ok (openingLine name)) = .ok
      { d with symbols := { d.symbols with functions },
               current := some d.symbols.functions.size } := by
    refine readLine_eq_ok_iff.mpr ⟨_, bind_eq_ok_iff.mpr ⟨_, rfl,
      mapError_eq_ok_iff.mpr hreadable.words⟩, ?_⟩
    rw [words_openingLine hname.word, Statement.ofWords_eq_directive_iff.mpr rfl]
    exact .openFunction hnone hname.read hpush
  rw [hline] at hread
  refine ⟨_, hread, ?_, rfl, rfl, rfl⟩
  simp [openName?, Table.get?, hitems, Table.size]

end Draft

/-! ## §3 Calling a function -/

variable {limits : Limits} {name : Text}

theorem Limits.Valid.maxOperands_pos (h : limits.Valid) : 0 < limits.maxOperands := by
  simpa [Limits.entries] using
    h.pos ⟨"max_operands", maxOperands, fun n l => { l with maxOperands := n }⟩

theorem LegalName.length_le (h : LegalName limits name) : name.length ≤ limits.maxNameLen :=
  (readName_eq_ok_iff.mp h.read).2.2.2

/-- What the limits allow for the line that opens a function. -/
theorem Source.Readable.of_openingLine (h : Readable limits (openingLine name))
    (hword : IsWord name) :
    9 ≤ limits.maxWordLen ∧ name.length ≤ limits.maxWordLen ∧ 2 ≤ limits.maxWordsPerLine := by
  have hsplit := h.words
  rw [splitWords, words_openingLine hword, enforce_eq_ok_iff] at hsplit
  obtain ⟨hlengths, hroom⟩ := hsplit
  obtain ⟨hdirective, hname⟩ := List.forall_mem_cons.mp hlengths
  exact ⟨hdirective, hname name (.head _), hroom⟩

/-- The words of a call are within the limits that the opening line is within,
unless the name is as long as a word may be. -/
theorem Source.Readable.splitWords_callLine (h : Readable limits (openingLine name))
    (hword : IsWord name) :
    (name.length < limits.maxWordLen →
      splitWords limits (callLine name) = .ok [Opcode.call.mnemonic.toList, '@' :: name]) ∧
    (limits.maxWordLen ≤ name.length →
      splitWords limits (callLine name) = .error (.tooLong ('@' :: name) limits.maxWordLen)) := by
  obtain ⟨hdirective, hname, hroom⟩ := h.of_openingLine hword
  have hmnemonic : Opcode.call.mnemonic.toList.length ≤ limits.maxWordLen := by
    have hlength : Opcode.call.mnemonic.toList.length = 4 := rfl
    omega
  rw [splitWords, words_callLine hword]
  constructor
  · intro hlt
    exact enforce_eq_ok_iff.mpr ⟨List.forall_mem_cons.mpr
      ⟨hmnemonic, List.forall_mem_singleton.mpr hlt⟩, hroom⟩
  · intro hle
    have hlong : limits.maxWordLen < ('@' :: name).length := Nat.lt_succ_of_le hle
    rw [enforce, if_neg (Nat.not_lt.mpr hmnemonic), if_neg (by omega), enforce, if_pos hlong]
    rfl

/-- A legal name is the operand of a call. -/
theorem readOperation_call (h : LegalName limits name) (hoperands : 0 < limits.maxOperands) :
    Draft.readOperation limits .call ['@' :: name] = .ok ⟨.call, [.function ⟨name, none⟩]⟩ :=
  Draft.readOperation_eq_ok_iff.mpr ⟨hoperands, rfl, _, rfl,
    .cons (Operand.read_reference h .call) .nil, rfl⟩

namespace Draft

variable {c d d' : Draft} {line line' owner : Nat}

/-! ## §4 Functions that are opened -/

/-- A function that is opened under limits that fit together can be called in every
function that has room for an instruction, when its name is shorter than a word may
be. When it is not, the limits of names and words are equal, and the line of the
call is refused because of its second word. -/
theorem callable_of_opened (hv : c.limits.Valid) (hlimits : d.limits = c.limits)
    (hclosed : d.current = none) (h : d.ReadsLine line (openingLine name) (.ok d'))
    (hopened : d'.openName? = some name) (hcurrent : c.current = some owner)
    (hroom : c.instructions.isFull = false) :
    (name.length < c.limits.maxWordLen →
      ∃ c', c.ReadsLine line' (callLine name) (.ok c') ∧
        c'.instructions.items =
          c.instructions.items ++ [⟨⟨.call, [.function ⟨name, none⟩]⟩, owner, line'⟩] ∧
        c'.symbols = c.symbols ∧ c'.current = c.current ∧ c'.limits = c.limits) ∧
    (c.limits.maxWordLen ≤ name.length →
      name.length = c.limits.maxNameLen ∧ c.limits.maxNameLen = c.limits.maxWordLen ∧
      c.ReadsLine line' (callLine name)
        (.error (.words (.tooLong ('@' :: name) c.limits.maxWordLen)))) := by
  obtain ⟨hname, hreadable⟩ := readable_of_opened h hclosed hopened
  rw [hlimits] at hname hreadable
  have hsize : Utf8.size (callLine name) ≤ c.limits.maxLineLen :=
    Nat.le_trans (size_callLine_le name) hreadable.length
  have hread : c.ReadsLine line' (callLine name) (c.readLine line' (.ok (callLine name))) :=
    readsLine_of_size _ (isLineChar_callLine hname.word) hsize
  obtain ⟨hshort, hlong⟩ := hreadable.splitWords_callLine hname.word
  constructor
  · intro hlt
    have hspace : c.instructions.items.length < c.instructions.capacity :=
      Nat.lt_of_not_le (of_decide_eq_false hroom)
    obtain ⟨instructions, hpush, hitems, _⟩ := Table.push_of_room
      (⟨⟨.call, [.function ⟨name, none⟩]⟩, owner, line'⟩ : Instruction) hspace
    have hstep : Step c line' (.ofWords [Opcode.call.mnemonic.toList, '@' :: name])
        { c with instructions } := by
      rw [Statement.ofWords_mnemonic]
      exact .addInstruction hcurrent (readOperation_call hname hv.maxOperands_pos) hpush
    have hline : c.readLine line' (.ok (callLine name)) = .ok { c with instructions } :=
      readLine_eq_ok_iff.mpr ⟨_, bind_eq_ok_iff.mpr ⟨_, rfl,
        mapError_eq_ok_iff.mpr (hshort hlt)⟩, hstep⟩
    rw [hline] at hread
    exact ⟨_, hread, hitems, rfl, rfl, rfl⟩
  · intro hle
    have hnames := hv.names
    have hlength := hname.length_le
    rw [readLine_of_splitWords_eq_error (hlong hle)] at hread
    exact ⟨by omega, by omega, hread⟩

/-- A name of twelve characters, one less than a word may have. -/
theorem callable_of_shorter_name :
    let limits : Limits := { maxWordLen := 13, maxNameLen := 12 }
    let name := "abcdefghijkl".toList
    ∃ d c, (empty limits).ReadsLine 1 (openingLine name) (.ok d) ∧
      d.ReadsLine 2 (callLine name) (.ok c) ∧
      c.instructions.items = [⟨⟨.call, [.function ⟨name, none⟩]⟩, 0, 2⟩] := by
  intro limits name
  have hv : limits.Valid := Limits.check_eq_ok_iff.mp (by decide)
  have hname : LegalName (empty limits).limits name := by decide
  obtain ⟨d, hd, hopened, hcurrent, hinstructions, hlimits⟩ :=
    opened_of_readable 1 hname (by decide) rfl (by decide)
  have hroom : d.instructions.isFull = false := by
    rw [hinstructions]
    decide
  obtain ⟨hcallable, _⟩ :=
    callable_of_opened (hlimits ▸ hv) hlimits.symm rfl hd hopened hcurrent hroom
  have hlt : name.length < d.limits.maxWordLen := by
    rw [hlimits]
    decide
  obtain ⟨c, hc, hitems, _⟩ := hcallable hlt
  rw [hinstructions] at hitems
  exact ⟨d, c, hd, hc, hitems⟩

/-- Not every function that is opened can be called: limits that fit together allow a
name of twelve characters and no word of thirteen. -/
theorem opened_not_callable :
    ¬ ∀ (c d d' : Draft) (line line' owner : Nat) (name : Text),
      c.limits.Valid → d.limits = c.limits → d.current = none →
      d.ReadsLine line (openingLine name) (.ok d') → d'.openName? = some name →
      c.current = some owner → c.instructions.isFull = false →
      ∃ c', c.ReadsLine line' (callLine name) (.ok c') := by
  intro h
  let limits : Limits := { maxWordLen := 12, maxNameLen := 12 }
  let name := "abcdefghijkl".toList
  have hv : limits.Valid := Limits.check_eq_ok_iff.mp (by decide)
  have hname : LegalName (empty limits).limits name := by decide
  obtain ⟨d, hd, hopened, hcurrent, hinstructions, hlimits⟩ :=
    opened_of_readable 1 hname (by decide) rfl (by decide)
  have hroom : d.instructions.isFull = false := by
    rw [hinstructions]
    decide
  obtain ⟨c, hc⟩ := h d (empty limits) d 1 2 _ name (hlimits ▸ hv) hlimits.symm rfl hd hopened
    hcurrent hroom
  have hsize : Utf8.size (callLine name) ≤ d.limits.maxLineLen := by
    rw [hlimits]
    decide
  have hsplit :
      Source.splitWords d.limits (callLine name) = .error (.tooLong ('@' :: name) 12) := by
    rw [hlimits]
    decide
  have hrefused := readsLine_of_size 2 (isLineChar_callLine hname.word) hsize
  rw [readLine_of_splitWords_eq_error hsplit] at hrefused
  cases hc.unique hrefused

end Draft

end SensorScript
