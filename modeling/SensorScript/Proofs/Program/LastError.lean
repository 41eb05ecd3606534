/-
SensorScript.Proofs.Program.LastError — which error a failed program holds.

The call that fails a program leaves its error there, and its line when it was a
source that could not be read. But every later call is refused and leaves its
refusal in the place of that error, so a failed program tells why it failed up to
the next call and not any longer (`lastError_of_run`).
-/
import SensorScript.Proofs.Program.Pipeline

namespace SensorScript.Program

variable {limits : Limits} {p p' : Program} {request : Request} {a : Answer}

/-! ## §1 Calls -/

theorem Transition.of_error {e : AssembleError} (h : Transition p request p' (.error e)) :
    p'.stage = .failed ∧ p'.lastError = some e := by
  cases h with
  | refused _ => exact ⟨rfl, rfl⟩
  | failed _ => exact ⟨rfl, rfl⟩

/-- A call fails the program exactly when it answers with an error. -/
theorem Transition.stage_eq_failed_iff (h : Transition p request p' a) :
    p'.stage = .failed ↔ ∃ e, a = .error e := by
  cases h with
  | refused _ => exact iff_of_true rfl ⟨_, rfl⟩
  | failed _ => exact iff_of_true rfl ⟨_, rfl⟩
  | advanced _ _ =>
    constructor
    · intro hfailed
      cases request <;> cases hfailed
    · rintro ⟨_, herror⟩
      cases herror

theorem exists_of_after_failed (h : (p.after request).stage = .failed) :
    ∃ e, p.answer request = .error e ∧ (p.after request).lastError = some e := by
  obtain ⟨e, he⟩ := (transition p request).stage_eq_failed_iff.mp h
  have htransition := transition p request
  rw [he] at htransition
  exact ⟨e, he, htransition.of_error.2⟩

/-- A call of a failed program is refused, and the refusal is what it holds then. -/
theorem lastError_of_failed (h : p.stage = .failed) (request : Request) :
    (p.after request).stage = .failed ∧
      (p.after request).lastError = some (.invalidStage request.call .failed) := by
  have hother : p.stage ≠ request.call.stage := by
    rw [h]
    cases request <;> exact nofun
  obtain ⟨hstage, _, hanswer⟩ := (transition p request).of_ne hother
  have htransition := transition p request
  rw [hanswer, h] at htransition
  exact ⟨hstage, htransition.of_error.2⟩

/-! ## §2 Errors with a line -/

/-- An error of a call is a refusal, or that of what the call does in its stage. -/
theorem of_inStage_eq_error {α : Type} {call : Call} {run : Program → Outcome α}
    {e : AssembleError} (h : (p.inStage call run).2 = .error e) :
    (p.stage ≠ call.stage ∧ e = .invalidStage call p.stage) ∨
      (p.stage = call.stage ∧ (run p).2 = .error e) := by
  unfold inStage at h
  split at h
  next hstage => exact Or.inr ⟨hstage, h⟩
  next hstage =>
    cases h
    exact Or.inl ⟨hstage, rfl⟩

/-- A call answers with an error of a line only when it parses an empty program, and
every error of that call has one. -/
theorem isSome_line?_iff {e : AssembleError} (h : p.answer request = .error e) :
    e.line?.isSome = true ↔ p.stage = .empty ∧ ∃ source, request = .parse source := by
  cases request with
  | parse source =>
    rcases of_inStage_eq_error (map_eq_error_iff.mp h) with ⟨hstage, rfl⟩ | ⟨hstage, hrun⟩
    · exact iff_of_false nofun fun h => hstage h.1
    · simp only at hrun
      split at hrun
      next => cases hrun
      next =>
        cases hrun
        exact iff_of_true rfl ⟨hstage, source, rfl⟩
  | link =>
    refine iff_of_false ?_ (by simp)
    rcases of_inStage_eq_error (map_eq_error_iff.mp h) with ⟨_, rfl⟩ | ⟨_, hrun⟩
    · exact nofun
    · split at hrun
      next => cases hrun
      next => cases hrun; exact nofun
  | encode =>
    refine iff_of_false ?_ (by simp)
    rcases of_inStage_eq_error (map_eq_error_iff.mp h) with ⟨_, rfl⟩ | ⟨_, hrun⟩
    · exact nofun
    · split at hrun
      next => cases hrun
      next => cases hrun; exact nofun

/-- Only a program of which nothing was asked is empty. -/
theorem History.of_empty {requests : List Request} {answers : List Answer}
    {e : Option AssembleError} (h : History requests answers .empty e) : requests = [] := by
  cases h
  rfl

theorem run_stage_eq_empty_iff (h : new limits = .ok p) {requests : List Request} :
    (p.run requests).stage = .empty ↔ requests = [] := by
  constructor
  · intro hstage
    have hhistory := history h requests
    rw [hstage] at hhistory
    exact hhistory.of_empty
  · rintro rfl
    obtain ⟨_, rfl⟩ := new_eq_ok_iff.mp h
    rfl

/-! ## §3 Runs -/

/-- The call that fails a program leaves its error, and a line with it exactly when
it is the first call and its source could not be read. After any calls that follow
the program holds the refusal of the latest of them, and no line. -/
theorem lastError_of_run (hv : limits.Valid) :
    ∃ p, new limits = .ok p ∧ ∀ (before : List Request) (request : Request),
      (p.run before).stage ≠ .failed → (p.run (before ++ [request])).stage = .failed →
      (∃ e, (p.run before).answer request = .error e ∧
        (p.run (before ++ [request])).lastError = some e ∧
        (p.run (before ++ [request])).errorLine? = e.line? ∧
        (e.line?.isSome = true ↔ before = [] ∧ ∃ source, request = .parse source)) ∧
      ∀ (later : List Request) (last : Request),
        (p.run (before ++ request :: later ++ [last])).stage = .failed ∧
        (p.run (before ++ request :: later ++ [last])).lastError =
          some (.invalidStage last.call .failed) ∧
        (p.run (before ++ request :: later ++ [last])).errorLine? = none := by
  obtain ⟨p, hp⟩ : ∃ p, new limits = .ok p := ⟨_, new_eq_ok_iff.mpr ⟨hv, rfl⟩⟩
  refine ⟨p, hp, fun before request _ hfailed => ⟨?_, fun later last => ?_⟩⟩
  · rw [run_concat] at hfailed ⊢
    obtain ⟨e, hanswer, herror⟩ := exists_of_after_failed hfailed
    refine ⟨e, hanswer, herror, ?_, ?_⟩
    · rw [errorLine?, herror]
      rfl
    · rw [isSome_line?_iff hanswer, run_stage_eq_empty_iff hp]
  · have hsplit : before ++ request :: later = (before ++ [request]) ++ later := by simp
    have hstage : (p.run (before ++ request :: later)).stage = .failed := by
      rw [hsplit, run_append]
      exact (run_of_failed hfailed later).1
    obtain ⟨hlast, herror⟩ := lastError_of_failed hstage last
    rw [run_concat]
    refine ⟨hlast, herror, ?_⟩
    rw [errorLine?, herror]
    rfl

/-- A source that closes a function before one is open: its line is known until the
program is asked to link. -/
theorem lastError_of_stray_end :
    let source := Utf8.encode ".endfunction\n".toList
    ∃ p, new {} = .ok p ∧ (p.run []).stage ≠ .failed ∧ (p.run [.parse source]).stage = .failed ∧
      (p.run [.parse source]).lastError = some (.parse 1 .noOpenFunction) ∧
      (p.run [.parse source]).errorLine? = some 1 ∧
      (p.run [.parse source, .link]).lastError = some (.invalidStage .link .failed) ∧
      (p.run [.parse source, .link]).errorLine? = none := by
  intro source
  have hv : ({} : Limits).Valid := Limits.check_eq_ok_iff.mp (by decide)
  obtain ⟨p, hp, hrun⟩ := lastError_of_run hv
  obtain ⟨_, rfl⟩ := new_eq_ok_iff.mp hp
  have hanswer : answer { draft := .empty {} } (.parse source) =
      .error (.parse 1 .noOpenFunction) := by
    decide +kernel
  have hstage : (run { draft := .empty {} } [.parse source]).stage = .failed := by decide +kernel
  obtain ⟨⟨e, he, herror, hline, _⟩, hlater⟩ := hrun [] (.parse source) nofun hstage
  cases hanswer.symm.trans he
  obtain ⟨_, hlast, hnone⟩ := hlater [] .link
  exact ⟨_, hp, nofun, hstage, herror, hline, hlast, hnone⟩

/-- Not every error is kept: that of a source which closes a function before one is
open is gone after a call to link. -/
theorem lost_after_refusal :
    ¬ ∀ (limits : Limits) (p : Program), new limits = .ok p →
      ∀ (before : List Request) (request : Request) (later : List Request) (e : AssembleError),
        (p.run before).stage ≠ .failed → (p.run before).answer request = .error e →
        (p.run (before ++ request :: later)).lastError = some e ∧
        (p.run (before ++ request :: later)).errorLine? = e.line? := by
  intro h
  have hkept := h {} { draft := .empty {} } rfl [] (.parse (Utf8.encode ".endfunction\n".toList))
    [.link] (.parse 1 .noOpenFunction) nofun (by decide +kernel)
  revert hkept
  decide +kernel

end SensorScript.Program
