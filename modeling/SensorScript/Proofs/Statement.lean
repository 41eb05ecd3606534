/-
SensorScript.Proofs.Statement — which lines ask for which statement.

No word is a mnemonic, a directive and a label at once, so what the words of a
line ask for tells what they are.
-/
import Mathlib.Data.List.Forall2
import SensorScript.Draft
import SensorScript.Proofs.Except

namespace SensorScript

/-! ## §1 First words -/

theorem Opcode.getLast?_of_ofMnemonic? {word : Text} {op : Opcode}
    (h : ofMnemonic? word = some op) : word.getLast? ≠ some ':' := by
  unfold ofMnemonic? at h
  split at h
  next hw => subst hw; decide
  next =>
    have hw := List.find?_some h
    simp only [decide_eq_true_eq] at hw
    subst hw
    cases op <;> decide

theorem Directive.ofWord?_eq_some_iff {word : Text} {x : Directive} :
    ofWord? word = some x ↔ word = x.name.toList := by
  unfold ofWord?
  split
  next h =>
    subst h
    cases x <;> decide
  next h =>
    split
    next h' =>
      subst h'
      cases x <;> decide
    next h' =>
      constructor
      · intro hx; cases hx
      · rintro rfl
        cases x with
        | function => exact absurd rfl h
        | endFunction => exact absurd rfl h'

/-- No directive is a mnemonic. -/
theorem Directive.ofMnemonic?_name (x : Directive) : Opcode.ofMnemonic? x.name.toList = none := by
  cases x <;> decide

/-- No mnemonic ends in a colon. -/
theorem Opcode.ofMnemonic?_of_getLast? {word : Text} (h : word.getLast? = some ':') :
    ofMnemonic? word = none :=
  Option.eq_none_iff_forall_ne_some.mpr fun _ hop => getLast?_of_ofMnemonic? hop h

namespace Statement

variable {words arguments : List Text} {word : Text}

/-- What a line with words asks for. -/
theorem ofWords_cons (word : Text) (arguments : List Text) :
    (∃ op, Opcode.ofMnemonic? word = some op ∧
      ofWords (word :: arguments) = .instruction op arguments) ∨
    (∃ x, word = x.name.toList ∧ ofWords (word :: arguments) = .directive x arguments) ∨
    (word.getLast? = some ':' ∧ ofWords (word :: arguments) = .label word arguments) ∨
    ofWords (word :: arguments) = .unknownDirective word ∨
    ofWords (word :: arguments) = .unknownMnemonic word := by
  simp only [ofWords]
  split
  next hop => exact Or.inl ⟨_, hop, rfl⟩
  next hx => exact Or.inr (Or.inl ⟨_, Directive.ofWord?_eq_some_iff.mp hx, rfl⟩)
  next =>
    split
    next hlast => exact Or.inr (Or.inr (Or.inl ⟨hlast, rfl⟩))
    next =>
      split
      · exact Or.inr (Or.inr (Or.inr (Or.inl rfl)))
      · exact Or.inr (Or.inr (Or.inr (Or.inr rfl)))

theorem ofWords_eq_empty_iff : ofWords words = .empty ↔ words = [] := by
  cases words with
  | nil => exact iff_of_true rfl rfl
  | cons word rest =>
    refine iff_of_false (fun h => ?_) (List.cons_ne_nil word rest)
    rcases ofWords_cons word rest with ⟨_, _, h'⟩ | ⟨_, _, h'⟩ | ⟨_, h'⟩ | h' | h'
    all_goals rw [h'] at h; cases h

theorem ofWords_eq_instruction_iff {op : Opcode} :
    ofWords words = .instruction op arguments ↔
      ∃ word, words = word :: arguments ∧ Opcode.ofMnemonic? word = some op := by
  constructor
  · intro h
    cases words with
    | nil => cases h
    | cons word rest =>
      rcases ofWords_cons word rest with ⟨_, hop, h'⟩ | ⟨_, _, h'⟩ | ⟨_, h'⟩ | h' | h'
      all_goals rw [h'] at h; cases h
      exact ⟨word, rfl, hop⟩
  · rintro ⟨_, rfl, hop⟩
    simp only [ofWords, hop]

theorem ofWords_eq_directive_iff {x : Directive} :
    ofWords words = .directive x arguments ↔ words = x.name.toList :: arguments := by
  constructor
  · intro h
    cases words with
    | nil => cases h
    | cons word rest =>
      rcases ofWords_cons word rest with ⟨_, _, h'⟩ | ⟨_, hx, h'⟩ | ⟨_, h'⟩ | h' | h'
      all_goals rw [h'] at h; cases h
      rw [hx]
  · rintro rfl
    simp only [ofWords, Directive.ofMnemonic?_name, Directive.ofWord?_eq_some_iff.mpr rfl]

theorem ofWords_eq_label_iff :
    ofWords words = .label word arguments ↔
      words = word :: arguments ∧ word.getLast? = some ':' := by
  constructor
  · intro h
    cases words with
    | nil => cases h
    | cons word' rest =>
      rcases ofWords_cons word' rest with ⟨_, _, h'⟩ | ⟨_, _, h'⟩ | ⟨hlast, h'⟩ | h' | h'
      all_goals rw [h'] at h; cases h
      exact ⟨rfl, hlast⟩
  · rintro ⟨rfl, hlast⟩
    have hop := Opcode.ofMnemonic?_of_getLast? hlast
    have hx : Directive.ofWord? word = none :=
      Option.eq_none_iff_forall_ne_some.mpr fun x h => by
        rw [Directive.ofWord?_eq_some_iff.mp h] at hlast
        revert hlast
        cases x <;> decide
    simp only [ofWords, hop, hx, hlast, if_true]

end Statement

/-! ## §2 Instructions -/

theorem Draft.readOperands_eq_ok_iff {limits : Limits} {context : Context} {words : List Text}
    {operands : List Operand} :
    readOperands limits context words = .ok operands ↔
      List.Forall₂ (fun word operand => Operand.read limits context word = .ok operand)
        words operands := by
  induction words generalizing operands with
  | nil =>
    rw [List.forall₂_nil_left_iff]
    constructor
    · intro h; cases h; rfl
    · rintro rfl; rfl
  | cons word words ih =>
    rw [List.forall₂_cons_left_iff]
    constructor
    · intro h
      obtain ⟨o, ho, h⟩ := bind_eq_ok_iff.mp h
      obtain ⟨os, hos, h⟩ := bind_eq_ok_iff.mp h
      cases h
      exact ⟨o, os, ho, ih.mp hos, rfl⟩
    · rintro ⟨o, os, ho, hos, rfl⟩
      exact bind_eq_ok_iff.mpr ⟨o, ho, bind_eq_ok_iff.mpr ⟨os, ih.mpr hos, rfl⟩⟩

/-- An instruction line is read exactly when a row of the grammar writes it. -/
theorem Draft.readOperation_eq_ok_iff {limits : Limits} {op : Opcode} {arguments : List Text}
    {operation : Operation} :
    readOperation limits op arguments = .ok operation ↔
      arguments.length ≤ limits.maxOperands ∧ arguments.length = op.arity ∧
        ∃ operands, operation = ⟨op, operands⟩ ∧
          List.Forall₂ (fun word operand => Operand.read limits (contextOf op) word = .ok operand)
            arguments operands ∧
          checkShape op operands = .ok () := by
  unfold readOperation
  constructor
  · intro h
    split at h
    · cases h
    next hle =>
      split at h
      · cases h
      next harity =>
        obtain ⟨operands, hread, h⟩ := bind_eq_ok_iff.mp h
        obtain ⟨_, hcheck, h⟩ := bind_eq_ok_iff.mp h
        cases h
        exact ⟨Nat.le_of_not_lt hle, Decidable.not_not.mp harity, operands, rfl,
          readOperands_eq_ok_iff.mp (mapError_eq_ok_iff.mp hread), mapError_eq_ok_iff.mp hcheck⟩
  · rintro ⟨hle, harity, operands, rfl, hread, hcheck⟩
    rw [if_neg (Nat.not_lt.mpr hle), if_neg (Decidable.not_not.mpr harity)]
    exact bind_eq_ok_iff.mpr ⟨operands,
      mapError_eq_ok_iff.mpr (readOperands_eq_ok_iff.mpr hread),
      bind_eq_ok_iff.mpr ⟨(), mapError_eq_ok_iff.mpr hcheck, rfl⟩⟩

end SensorScript
