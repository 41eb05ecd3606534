/-
SensorScript.Proofs.Instruction.Text — operations written out and read back.

The text of an operand is one of its forms (§1), and the text of an operation is
its mnemonic and those of its operands, told apart by separators (§2). So the
line with this text adds the operation to the open function, its references not
resolved yet (§3).
-/
import SensorScript.Proofs.Draft.Step
import SensorScript.Proofs.Instruction.Shape
import SensorScript.Proofs.Link
import SensorScript.Proofs.MachineWord.Overflow
import SensorScript.Proofs.Operand.Form
import SensorScript.Proofs.Source.Words
import SensorScript.Proofs.Statement
import SensorScript.Proofs.Table

namespace SensorScript

variable {limits : Limits} {context : Context} {o : Operand}

/-! ## §1 Operands -/

theorem Memory.text_eq (m : Memory) :
    m.text = 'M' :: m.bank.digit :: '[' :: (m.offset.text ++ [']']) := by
  have hdigit : Numeral.decimal m.bank.index = [m.bank.digit] := by
    cases m.bank <;> decide
  simp [Memory.text, hdigit]

namespace Operand

/-- The operand can be written as one word: its registers are those of the machine,
and its name can be read and has no character that ends a word. -/
structure Writable (limits : Limits) (o : Operand) : Prop where
  registers : o.RegistersBelow limits.maxRegisters
  allowed : ∀ s, o.symbol? = some s → readName limits s.name = .ok s.name
  unbroken : ∀ s, o.symbol? = some s → ∀ c ∈ s.name, c ∉ [' ', '\t', ',', ';']

theorem kind_bare (o : Operand) : o.bare.kind = o.kind := by
  cases o <;> rfl

/-- The only context that the operand is read in, if it is not read in every one. -/
def context? : Operand → Option Context
  | .label _ => some .plain
  | .function _ => some .call
  | _ => none

/-- The text of an operand is a form of it without an index. -/
theorem Writable.form (h : o.Writable limits) (hcontext : ∀ c ∈ o.context?, c = context) :
    Form limits context o.text o.bare := by
  rcases o with r | v | ⟨bank, offset⟩ | s | s
  case register => exact .scalar (.register (Numeral.spells_decimal false _) h.registers)
  case immediate => exact .scalar (.immediate (Numeral.spells_decimal true _))
  case memory =>
    rw [text, Memory.text_eq]
    refine .memory ?_
    cases offset with
    | register r => exact .register (Numeral.spells_decimal false _) h.registers
    | immediate v => exact .immediate (Numeral.spells_decimal true _)
  case label =>
    cases hcontext _ rfl
    exact .label (readName_eq_ok_iff_isName.mp (h.allowed s rfl))
  case function =>
    cases hcontext _ rfl
    exact .function (readName_eq_ok_iff_isName.mp (h.allowed s rfl))

end Operand

/-! ## §2 Words -/

/-- No digit ends a word. -/
theorem Source.isBreak_of_isDigit {c : Char} (h : c.isDigit = true) : isBreak c = false := by
  refine Bool.eq_false_iff.mpr fun hbreak => ?_
  have hc := isBreak_iff.mp hbreak
  simp only [List.mem_cons, List.not_mem_nil, or_false] at hc
  rcases hc with rfl | rfl | rfl | rfl
  all_goals revert h; decide

theorem Offset.not_isBreak (offset : Offset) : ∀ c ∈ offset.text, Source.isBreak c = false := by
  have hdigits (n : Nat) : ∀ c ∈ Numeral.decimal n, Source.isBreak c = false := fun _ hc =>
    Source.isBreak_of_isDigit (Numeral.isDigit_of_mem_decimal hc)
  cases offset with
  | register r => exact List.forall_mem_cons.mpr ⟨rfl, hdigits _⟩
  | immediate v => exact List.forall_mem_cons.mpr ⟨rfl, hdigits _⟩

namespace Operand

theorem text_ne_nil (o : Operand) : o.text ≠ [] := by
  cases o <;> exact List.cons_ne_nil _ _

theorem Writable.not_isBreak (h : o.Writable limits) : ∀ c ∈ o.text, Source.isBreak c = false := by
  have hname {s : Symbol} (hs : o.symbol? = some s) :
      ∀ c ∈ '@' :: s.name, Source.isBreak c = false :=
    List.forall_mem_cons.mpr ⟨rfl, fun c hc =>
      Bool.eq_false_iff.mpr (mt Source.isBreak_iff.mp (h.unbroken s hs c hc))⟩
  cases o with
  | register r => exact (Offset.register r).not_isBreak
  | immediate v => exact (Offset.immediate v).not_isBreak
  | memory m =>
    have hbank : Source.isBreak m.bank.digit = false := by cases m.bank <;> rfl
    have hinside : ∀ c ∈ m.offset.text ++ [']'], Source.isBreak c = false :=
      List.forall_mem_append.mpr ⟨m.offset.not_isBreak, List.forall_mem_singleton.mpr rfl⟩
    rw [text, Memory.text_eq]
    exact List.forall_mem_cons.mpr ⟨rfl, List.forall_mem_cons.mpr
      ⟨hbank, List.forall_mem_cons.mpr ⟨rfl, hinside⟩⟩⟩
  | label s => exact hname rfl
  | function s => exact hname rfl

end Operand

namespace Operation

variable {x : Operation}

theorem words_operandsText {os : List Operand} (h : ∀ o ∈ os, o.Writable limits) :
    Source.words (operandsText os) = os.map Operand.text := by
  induction os with
  | nil => rfl
  | cons o os ih =>
    obtain ⟨ho, hos⟩ := List.forall_mem_cons.mp h
    cases os with
    | nil => exact Source.words_of_not_isBreak o.text_ne_nil ho.not_isBreak
    | cons o' os =>
      show Source.words (o.text ++ [',', ' '] ++ operandsText (o' :: os)) = _
      have hgap : ∀ c ∈ [',', ' '], Source.isSeparator c = true := by simp [Source.isSeparator]
      rw [List.append_assoc,
        Source.words_word o.text_ne_nil ho.not_isBreak (List.cons_ne_nil _ _) hgap, ih hos]
      rfl

/-- The words of an operation are its mnemonic and the texts of its operands. -/
theorem words_text (h : ∀ o ∈ x.operands, o.Writable limits) :
    Source.words x.text = x.opcode.mnemonic.toList :: x.operands.map Operand.text := by
  have hmnemonic : ∀ c ∈ x.opcode.mnemonic.toList, Source.isBreak c = false := by
    have hall : x.opcode.mnemonic.toList.all (fun c => !Source.isBreak c) = true := by
      cases x.opcode <;> rfl
    simpa using hall
  have hne : x.opcode.mnemonic.toList ≠ [] := by
    cases x.opcode <;> exact List.cons_ne_nil _ _
  have hgap : ∀ c ∈ [' '], Source.isSeparator c = true := by simp [Source.isSeparator]
  unfold text
  by_cases hx : x.operands = []
  · rw [if_pos hx, List.append_nil, hx]
    exact Source.words_of_not_isBreak hne hmnemonic
  · rw [if_neg hx, ← List.singleton_append,
      Source.words_word hne hmnemonic (List.cons_ne_nil _ _) hgap, words_operandsText h]

/-! ## §3 Reading back -/

/-- References stand in the operations that their kind is read in. -/
theorem context?_of_check (h : x.check = .ok ()) :
    ∀ o ∈ x.operands, ∀ c ∈ o.context?, c = Draft.contextOf x.opcode := by
  refine (checkShape_eq_ok_iff.mp h).forall_mem (fun o ho c hc => ?_) (fun hshape l c hc => ?_)
    (fun hshape f c hc => ?_)
  · cases o with
    | label s => cases ho
    | function s => cases ho
    | _ => cases hc
  · cases hc
    rw [Draft.contextOf, hshape]
  · cases hc
    rw [Draft.contextOf, hshape]

/-- The words of a written operation are read as it was before its references
were resolved. -/
theorem readOperation_words (hcheck : x.check = .ok ())
    (harity : x.opcode.arity ≤ limits.maxOperands) (h : ∀ o ∈ x.operands, o.Writable limits) :
    Draft.readOperation limits x.opcode (x.operands.map Operand.text) =
      .ok ⟨x.opcode, x.operands.map Operand.bare⟩ := by
  have hlength : (x.operands.map Operand.text).length = x.opcode.arity := by
    rw [List.length_map]
    exact (checkShape_eq_ok_iff_forall₂.mp hcheck).length_eq.symm
  refine Draft.readOperation_eq_ok_iff.mpr
    ⟨hlength ▸ harity, hlength, x.operands.map Operand.bare, rfl, ?_, ?_⟩
  · rw [List.forall₂_map_left_iff, List.forall₂_map_right_iff, List.forall₂_same]
    exact fun o ho => ((h o ho).form (context?_of_check hcheck o ho)).read
  · refine checkShape_eq_ok_iff.mpr ((checkShape_eq_ok_iff.mp hcheck).of_kinds ?_)
    rw [List.forall₂_map_right_iff, List.forall₂_same]
    exact fun o _ => o.kind_bare

/-- The text of an operation that can be written, if its words are within the limits,
is the mnemonic and one word for every operand. In a draft with an open function
and with room for an instruction, these words append the operation as it was
before its references were resolved. -/
theorem text_reads_back (hcheck : x.check = .ok ()) (harity : x.opcode.arity ≤ limits.maxOperands)
    (hoperands : ∀ o ∈ x.operands, o.Writable limits) {words : List Text}
    (hsplit : Source.splitWords limits x.text = .ok words) :
    words = x.opcode.mnemonic.toList :: x.operands.map Operand.text ∧
      ∀ (d : Draft) (owner line : Nat), d.limits = limits → d.current = some owner →
        d.instructions.isFull = false →
        ∃ instructions, d.apply line (.ofWords words) = .ok { d with instructions } ∧
          d.instructions.Grows [⟨⟨x.opcode, x.operands.map Operand.bare⟩, owner, line⟩]
            instructions := by
  have hwords : words = x.opcode.mnemonic.toList :: x.operands.map Operand.text := by
    rw [Source.enforce_eq_ok hsplit, words_text hoperands]
  refine ⟨hwords, ?_⟩
  rintro d owner line rfl hcurrent hroom
  obtain ⟨instructions, hgrows⟩ :=
    (d.instructions.exists_grows_iff [⟨⟨x.opcode, x.operands.map Operand.bare⟩, owner, line⟩]).mpr
      (Nat.succ_le_of_lt (by simpa [Table.isFull] using hroom))
  refine ⟨instructions, ?_, hgrows⟩
  rw [hwords, Statement.ofWords_mnemonic]
  exact Draft.apply_eq_ok_iff.mpr (.addInstruction hcurrent
    (readOperation_words hcheck harity hoperands) (Table.push_eq_ok_iff.mpr hgrows))

/-- A jump to a resolved label, under a name that is not all ASCII, read back in an
open function. -/
theorem jump_reads_back :
    let x : Operation := ⟨.jnz, [.register 15, .label ⟨"größe".toList, some 7⟩]⟩
    let words := ["JNZ", "R15", "@größe"].map String.toList
    x.check = .ok () ∧ Source.splitWords {} x.text = .ok words ∧
      ∃ d d', (Draft.empty {}).apply 1 (.directive .function ["main".toList]) = .ok d ∧
        d.apply 2 (.ofWords words) = .ok d' ∧
        d'.instructions.items =
          [⟨⟨.jnz, [.register 15, .label ⟨"größe".toList, none⟩]⟩, 0, 2⟩] := by
  intro x words
  have hcheck : x.check = .ok () := by decide
  have hoperands : ∀ o ∈ x.operands, o.Writable {} := by
    refine List.forall_mem_cons.mpr ⟨⟨(by decide : 15 < 16), nofun, nofun⟩,
      List.forall_mem_singleton.mpr ⟨trivial, ?_, ?_⟩⟩
    · intro s hs
      cases hs
      rfl
    · intro s hs
      cases hs
      simp
  have htext : x.text = "JNZ R15, @größe".toList := by decide
  have hsplit : Source.splitWords {} x.text = .ok words := by
    rw [htext]
    rfl
  obtain ⟨_, hread⟩ := text_reads_back hcheck (by decide) hoperands hsplit
  have hopen : ∃ d, (Draft.empty {}).apply 1 (.directive .function ["main".toList]) = .ok d ∧
      d.limits = {} ∧ d.current = some 0 ∧ d.instructions.items = [] ∧
        d.instructions.isFull = false :=
    ⟨_, rfl, rfl, rfl, rfl, rfl⟩
  obtain ⟨d, hd, hlimits, hcurrent, hitems, hroom⟩ := hopen
  obtain ⟨instructions, happly, hgrows⟩ := hread d 0 2 hlimits hcurrent hroom
  refine ⟨hcheck, hsplit, d, _, hd, happly, ?_⟩
  rw [hgrows.items_eq, hitems]
  rfl

end Operation

end SensorScript
