/-
SensorScript.Proofs.Draft.InPlace — in place nothing is written before an error.

Every guard of a statement stands before its first write. So the statements
that change a draft in place leave what `Draft.apply` gives, and after an error
they leave the draft that they found (`analyze_eq`). Reading lines in place is
then reading them one draft after the other, also when it stops early.
-/
import SensorScript.Draft.InPlace

namespace SensorScript.Draft.InPlace

/-- What is left of a draft by a statement that gives a new one or refuses. -/
def settle (d : Draft) : Except ParseError Draft → EStateM.Result ParseError Draft Unit
  | .ok d' => .ok () d'
  | .error e => .error e d

/-- What lines leave, with their error if there is one. -/
def stopped : Draft × Except Located Unit → EStateM.Result Located Draft Unit
  | (d, .ok ()) => .ok () d
  | (d, .error e) => .error e d

/-! ## §1 Statements -/

variable {α : Type} (d : Draft)

/-- The draft is looked at, and nothing changes. -/
theorem get_bind {ε : Type} (f : Draft → EStateM ε Draft α) : (get >>= f) d = f d d := rfl

/-- A guard that comes before every write. -/
theorem guard_bind (x : Except ParseError α) {f : α → Edit Unit} {g : α → Except ParseError Draft}
    (h : ∀ a, f a d = settle d (g a)) : (ofExcept x >>= f) d = settle d (x >>= g) := by
  cases x with
  | error e => rfl
  | ok a => exact h a

theorem openFunction_eq (word : Text) : openFunction word d = settle d (d.openFunction word) := by
  unfold openFunction Draft.openFunction
  rw [get_bind]
  cases d.openName? with
  | some opened => rfl
  | none =>
    refine guard_bind d _ fun name => ?_
    show ((ofExcept _ >>= _) >>= _ : Edit Unit) d = _
    -- The table's guard is the last one; it stands inside the push.
    rw [bind_assoc]
    exact guard_bind d _ fun symbols => rfl

theorem closeFunction_eq : closeFunction d = settle d d.closeFunction := by
  unfold closeFunction Draft.closeFunction
  rw [get_bind]
  cases d.current with
  | none => rfl
  | some i => rfl

theorem addLabel_eq (word : Text) : addLabel word d = settle d (d.addLabel word) := by
  unfold addLabel Draft.addLabel
  rw [get_bind]
  cases hc : d.current with
  | none => rfl
  | some owner =>
    refine guard_bind d _ fun name => ?_
    exact guard_bind d _ fun symbols => by rw [← hc]; rfl

theorem addInstruction_eq (line : Nat) (op : Opcode) (arguments : List Text) :
    addInstruction line op arguments d = settle d (d.addInstruction line op arguments) := by
  unfold addInstruction Draft.addInstruction
  rw [get_bind]
  cases hc : d.current with
  | none => rfl
  | some owner =>
    refine guard_bind d _ fun operation => ?_
    rw [pushInstruction, get_bind, hc]
    exact guard_bind d _ fun instructions => by rw [← hc]; rfl

/-- A line leaves the draft that it gives, or the draft as it was. -/
theorem analyze_eq (line : Nat) (words : List Text) :
    analyze line words d = settle d (d.apply line (.ofWords words)) := by
  unfold analyze apply
  cases Statement.ofWords words with
  | empty => rfl
  | instruction op arguments => exact addInstruction_eq d line op arguments
  | directive x arguments =>
    match x, arguments with
    | .function, [] => rfl
    | .function, [word] => exact openFunction_eq d word
    | .function, _ :: _ :: _ => rfl
    | .endFunction, [] => exact closeFunction_eq d
    | .endFunction, _ :: _ => rfl
  | label word arguments =>
    cases arguments with
    | nil => exact addLabel_eq d word
    | cons _ _ => rfl
  | unknownDirective word => rfl
  | unknownMnemonic word => rfl

/-- After an error the draft is what it was before the line. -/
theorem eq_of_analyze_eq_error {d d' : Draft} {line : Nat} {words : List Text} {e : ParseError}
    (h : analyze line words d = .error e d') : d' = d := by
  rw [analyze_eq] at h
  cases hs : d.apply line (.ofWords words) with
  | ok _ => rw [hs] at h; cases h
  | error _ => rw [hs] at h; cases h; rfl

/-! ## §2 Lines and sources -/

theorem readLine_eq (line : Nat) (text : Except Source.LineError Text) :
    readLine line text d = settle d (d.readLine line text) := by
  refine guard_bind d _ fun text => ?_
  exact guard_bind d _ fun words => analyze_eq d line words

theorem readLines_eq (line : Nat) (texts : List (Except Source.LineError Text)) :
    readLines line texts d = stopped (d.readLines line texts) := by
  induction texts generalizing d line with
  | nil => rfl
  | cons text texts ih =>
    rw [readLines]
    show EStateM.bind (EStateM.adaptExcept (Located.mk line) (readLine line text))
      (fun _ => readLines (line + 1) texts) d = _
    rw [EStateM.bind, EStateM.adaptExcept, readLine_eq]
    cases h : d.readLine line text with
    | error e => rw [readLines_cons_error h]; rfl
    | ok d' =>
      rw [readLines_cons_ok h]
      exact ih d' (line + 1)

theorem readSource_eq (source : Bytes) : readSource source d = stopped (d.readSource source) := by
  unfold readSource Draft.readSource
  rw [get_bind]
  show EStateM.bind (readLines 1 (Source.lines d.limits.maxLineLen source)) _ d = _
  rw [EStateM.bind, readLines_eq]
  simp only
  cases d.readLines 1 (Source.lines d.limits.maxLineLen source) with
  | mk d' result =>
    cases result with
    | error e => rfl
    | ok _ =>
      simp only [stopped, get_bind]
      cases d'.openName? with
      | some name => rfl
      | none => rfl

end SensorScript.Draft.InPlace
