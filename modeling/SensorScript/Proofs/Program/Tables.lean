/-
SensorScript.Proofs.Program.Tables — the tables of every program there is.

A program is reached by calls, in whatever order and whether they succeed or
not, and while it parses it passes a state between any two lines. In all of
them the tables are sound; once it is parsed no function is open, and then the
functions cover the instructions.
-/
import SensorScript.Program
import SensorScript.Proofs.Link

namespace SensorScript

/-- A call and what it is made with. -/
inductive Request where
  | parse (source : Bytes)
  | link
  | encode

namespace Program

/-! ## §1 States -/

/-- The program after a call. -/
def after (p : Program) : Request → Program
  | .parse source => (p.parse source).1
  | .link => p.link.1
  | .encode => p.encode.1

/-- Programs that calls make of a new one. -/
inductive Reachable (limits : Limits) : Program → Prop
  | new {p} (h : new limits = .ok p) : Reachable limits p
  | call {p} (request : Request) (h : Reachable limits p) : Reachable limits (p.after request)

/-- The program while it parses a source, before line `n + 1`. -/
def between (p : Program) (source : Bytes) (n : Nat) : Program :=
  let lines := Source.lines p.draft.limits.maxLineLen source
  { p with draft := (p.draft.readLines 1 (lines.take n)).1, stage := .parsing }

/-- Programs before and after every call and between the lines of a source. -/
inductive Visited (limits : Limits) : Program → Prop
  | reached {p} (h : Reachable limits p) : Visited limits p
  | parsing {p} (h : Reachable limits p) (empty : p.stage = .empty) (source : Bytes) (n : Nat) :
      Visited limits (p.between source n)

/-! ## §2 Calls -/

variable {limits : Limits} {p p' : Program}

/-- What a new program is, and that its limits fit together. -/
theorem new_eq_ok_iff : new limits = .ok p ↔ limits.Valid ∧ p = { draft := .empty limits } := by
  constructor
  · intro h
    obtain ⟨_, hc, h⟩ := bind_eq_ok_iff.mp h
    cases h
    exact ⟨Limits.check_eq_ok_iff.mp (mapError_eq_ok_iff.mp hc), rfl⟩
  · rintro ⟨hv, rfl⟩
    exact bind_eq_ok_iff.mpr ⟨(), mapError_eq_ok_iff.mpr (Limits.check_eq_ok_iff.mpr hv), rfl⟩

/-- A call keeps what its stage makes of the program and what a failure does. -/
theorem inStage_rec {α : Type} {P : Program → Prop} {call : Call} {run : Program → Outcome α}
    (hfail : ∀ error, P { p with stage := .failed, lastError := some error })
    (hrun : p.stage = call.stage → P (run p).1) : P (p.inStage call run).1 := by
  unfold inStage
  split
  next h => exact hrun h
  next => exact hfail _

/-- The tables are sound, and no function is open once the source is parsed. -/
structure Sound (limits : Limits) (p : Program) : Prop where
  tables : p.draft.Sound limits
  closed : p.stage = .parsed ∨ p.stage = .linked ∨ p.stage = .encoded → p.draft.current = none

/-- A failed program keeps its tables. -/
theorem Sound.failed {d : Draft} (h : d.Sound limits) (error : Option AssembleError) :
    Sound limits { draft := d, stage := .failed, lastError := error } :=
  ⟨h, by rintro (h | h | h) <;> cases h⟩

theorem Sound.parse (hp : p.Sound limits) (source : Bytes) : (p.parse source).1.Sound limits := by
  refine inStage_rec (fun _ => .failed hp.tables _) fun _ => ?_
  simp only
  split
  next heq =>
    exact ⟨hp.tables.readSource heq, fun _ => hp.tables.current_of_readSource heq⟩
  next heq => exact .failed (hp.tables.readSource heq) _

theorem Sound.link (hp : p.Sound limits) : p.link.1.Sound limits := by
  refine inStage_rec (fun _ => .failed hp.tables _) fun hstage => ?_
  have htables := hp.tables.link
  have hcurrent : p.draft.link.1.current = none := hp.closed (Or.inl hstage)
  split
  next heq =>
    rw [heq] at htables hcurrent
    exact ⟨htables, fun _ => hcurrent⟩
  next heq =>
    rw [heq] at htables
    exact .failed htables _

theorem Sound.encode (hp : p.Sound limits) : p.encode.1.Sound limits := by
  refine inStage_rec (fun _ => .failed hp.tables _) fun hstage => ?_
  split
  · exact ⟨hp.tables, fun _ => hp.closed (Or.inr (Or.inl hstage))⟩
  · exact .failed hp.tables _

/-! ## §3 Every program -/

theorem Reachable.sound (h : Reachable limits p) : p.Sound limits := by
  induction h with
  | new h =>
    obtain ⟨_, rfl⟩ := new_eq_ok_iff.mp h
    exact ⟨.empty limits, fun _ => rfl⟩
  | call request _ ih =>
    cases request with
    | parse source => exact ih.parse source
    | link => exact ih.link
    | encode => exact ih.encode

theorem Visited.sound (h : Visited limits p) : p.Sound limits := by
  cases h with
  | reached h => exact h.sound
  | parsing h _ source n =>
    exact ⟨h.sound.tables.readLines 1 _, by rintro (h | h | h) <;> cases h⟩

/-- In every program, before and after every call and between the lines of a
source, the tables are sound and within their limits. Once a source is parsed,
every span is a range of the instruction table, every instruction lies in the
span of its owner and in no other, and linking resolves each of them for its
owner. -/
theorem tables_of_visited (h : Visited limits p) :
    p.draft.Sound limits ∧
    (p.draft.instructions.size ≤ limits.maxInstructions ∧
      p.draft.symbols.labels.size ≤ limits.maxLabels ∧
      p.draft.symbols.functions.size ≤ limits.maxFunctions) ∧
    (p.draft.symbols.functions.size = 0 →
      p.draft.instructions.size = 0 ∧ p.draft.symbols.labels.size = 0) ∧
    (p.stage = .parsed →
      (∀ i x, p.draft.instructions.get? i = some x →
        (∃ f, p.draft.symbols.functions.get? x.owner = some f ∧ f.start ≤ i ∧ i < f.stop) ∧
        ∀ k f, p.draft.symbols.functions.get? k = some f →
          f.start ≤ i → i < f.stop → k = x.owner) ∧
      ∀ d n, p.draft.link = (d, .ok n) →
        List.Forall₂ (Link.Links p.draft.symbols) p.draft.instructions.items
          d.instructions.items) := by
  have hp := h.sound
  refine ⟨hp.tables, hp.tables.within, hp.tables.empty_of_no_functions, fun hstage => ?_⟩
  have hcur := hp.closed (Or.inl hstage)
  constructor
  · intro i x hx
    have hspan {k f} := hp.tables.owner_unique hcur hx (k := k) (f := f)
    obtain ⟨f, hf, _⟩ := hp.tables.instruction_owner i x hx
    exact ⟨⟨f, hf, (hspan hf).mpr rfl⟩, fun k f hf hstart hstop => (hspan hf).mp ⟨hstart, hstop⟩⟩
  · intro d n hlink
    exact (hp.tables.links hcur hlink).2

/-- While the second of two functions is open, before its instruction: the
first is closed and the second stops where it starts. -/
theorem tables_between_lines :
    let source := Utf8.encode ".function f\nSHL R0 $1\n.endfunction\n.function g\nL:\n".toList
    let p : Program := between { draft := .empty {} } source 5
    (p.draft.current, p.draft.instructions.size,
      p.draft.symbols.functions.items.map fun f => (f.start, f.stop)) =
        (some 1, 1, [(0, 1), (1, 1)]) ∧
      p.draft.Sound {} := by
  refine ⟨by decide +kernel, ?_⟩
  exact (tables_of_visited (.parsing (.new (new_eq_ok_iff.mpr
    ⟨Limits.check_eq_ok_iff.mp (by decide), rfl⟩)) rfl _ 5)).1

end Program

end SensorScript
