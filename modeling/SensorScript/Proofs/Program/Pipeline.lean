/-
SensorScript.Proofs.Program.Pipeline — the stages of a program, over any calls.

A call either refuses the stage that the program is in, or fails in its own
stage, or takes the program to the next stage: `Transition` has a case for
each. Three calls in the right order are the only way to the last stage, so
the stage of a program tells which calls were made of it (`History`), until
one of them fails. A failed program fails every call and keeps its tables.

  §1 calls, and what each of them can do;
  §2 runs of any length;
  §3 the history of a stage, and that images come from one place in a run.
-/
import Mathlib.Data.List.Induction
import SensorScript.Proofs.Program.Tables

namespace SensorScript

/-- The call that is made. -/
def Request.call : Request → Call
  | .parse _ => .parse
  | .link => .link
  | .encode => .encode

/-- The stage that a call takes the program to. -/
def Call.next : Call → Stage
  | .parse => .parsed
  | .link => .linked
  | .encode => .encoded

namespace Program

/-! ## §1 Calls -/

/-- What a call answers when it succeeds is an image or nothing. -/
abbrev Answer := Except AssembleError (Option Image)

/-- What the program answers to a call. -/
def answer (p : Program) : Request → Answer
  | .parse source => (p.parse source).2.map fun _ => none
  | .link => p.link.2.map fun _ => none
  | .encode => p.encode.2.map some

/-- What a call can make of the program, and what it answers then. -/
inductive Transition (p : Program) (request : Request) : Program → Answer → Prop
  | refused (stage : p.stage ≠ request.call.stage) :
      Transition p request
        { p with stage := .failed,
                 lastError := some (.invalidStage request.call p.stage) }
        (.error (.invalidStage request.call p.stage))
  | failed {d e} (stage : p.stage = request.call.stage) :
      Transition p request { draft := d, stage := .failed, lastError := some e } (.error e)
  | advanced {d image} (stage : p.stage = request.call.stage)
      (encoding : image.isSome = true ↔ request.call = .encode) :
      Transition p request { p with draft := d, stage := request.call.next } (.ok image)

variable {limits : Limits} {p p' : Program} {request : Request} {a : Answer}

/-- A call that is a transition in its own stage is one in every stage. -/
theorem transition_inStage {α : Type} {run : Program → Outcome α} {image : α → Option Image}
    (hrun : p.stage = request.call.stage → Transition p request (run p).1 ((run p).2.map image)) :
    Transition p request (p.inStage request.call run).1
      ((p.inStage request.call run).2.map image) := by
  unfold inStage
  split
  next h => exact hrun h
  next h => exact .refused h

/-- Every call is one of the transitions. -/
theorem transition (p : Program) (request : Request) :
    Transition p request (p.after request) (p.answer request) := by
  cases request with
  | parse source =>
    refine transition_inStage fun h => ?_
    simp only
    split
    · exact .advanced h (by simp [Request.call])
    · exact .failed h
  | link =>
    refine transition_inStage fun h => ?_
    split
    · exact .advanced h (by simp [Request.call])
    · exact .failed h
  | encode =>
    refine transition_inStage fun h => ?_
    split
    · exact .advanced h (by simp [Request.call])
    · exact .failed h

/-- A call made in another stage than its own is refused and fails the program. -/
theorem Transition.of_ne (h : Transition p request p' a) (hp : p.stage ≠ request.call.stage) :
    p'.stage = .failed ∧ p'.draft = p.draft ∧
      a = .error (.invalidStage request.call p.stage) := by
  cases h with
  | refused _ => exact ⟨rfl, rfl, rfl⟩
  | failed hstage => exact absurd hstage hp
  | advanced hstage _ => exact absurd hstage hp

/-- Only encoding a linked program gives an image. -/
theorem Transition.of_image {image : Image} (h : Transition p request p' (.ok (some image))) :
    request = .encode ∧ p.stage = .linked := by
  cases h with
  | advanced hstage hencoding =>
    cases request with
    | parse source => cases hencoding.mp rfl
    | link => cases hencoding.mp rfl
    | encode => exact ⟨rfl, hstage⟩

/-! ## §2 Runs -/

/-- The program after some calls. -/
def run (p : Program) (requests : List Request) : Program := requests.foldl after p

/-- What some calls answer, one after the other. -/
def answers (p : Program) : List Request → List Answer
  | [] => []
  | request :: rest => p.answer request :: (p.after request).answers rest

theorem run_append (p : Program) (requests rest : List Request) :
    p.run (requests ++ rest) = (p.run requests).run rest := List.foldl_append ..

@[simp] theorem run_concat (p : Program) (requests : List Request) (request : Request) :
    p.run (requests ++ [request]) = (p.run requests).after request := by
  simp [run]

theorem answers_append (p : Program) (requests rest : List Request) :
    p.answers (requests ++ rest) = p.answers requests ++ (p.run requests).answers rest := by
  induction requests generalizing p with
  | nil => rfl
  | cons request requests ih => simp [answers, ih, run]

@[simp] theorem length_answers (p : Program) (requests : List Request) :
    (p.answers requests).length = requests.length := by
  induction requests generalizing p with
  | nil => rfl
  | cons request requests ih => simp [answers, ih]

/-- The answer at a place is that of the program which the calls before it left. -/
theorem exists_of_getElem?_answers {requests : List Request} {i : Nat} {a : Answer}
    (h : (p.answers requests)[i]? = some a) :
    ∃ before request rest, requests = before ++ request :: rest ∧ before.length = i ∧
      a = (p.run before).answer request := by
  have hi : i < requests.length := by
    simpa using (List.getElem?_eq_some_iff.mp h).1
  have hsplit : requests = requests.take i ++ requests[i] :: requests.drop (i + 1) := by
    rw [List.getElem_cons_drop, List.take_append_drop]
  have hlen : (requests.take i).length = i := List.length_take_of_le (Nat.le_of_lt hi)
  refine ⟨_, _, _, hsplit, hlen, ?_⟩
  rw [hsplit, answers_append, List.getElem?_append_right (by simp [hlen])] at h
  simpa [answers, hlen] using h.symm

/-- A failed program fails every call and keeps its tables. -/
theorem run_of_failed (h : p.stage = .failed) (requests : List Request) :
    (p.run requests).stage = .failed ∧ (p.run requests).draft = p.draft ∧
      ∀ a ∈ p.answers requests, ∃ e, a = .error e := by
  induction requests generalizing p with
  | nil => exact ⟨h, rfl, List.forall_mem_nil _⟩
  | cons request requests ih =>
    have hother : p.stage ≠ request.call.stage := by
      rw [h]
      cases request <;> exact nofun
    obtain ⟨hstage, hdraft, hanswer⟩ := (transition p request).of_ne hother
    obtain ⟨hstage', hdraft', hanswers⟩ := ih hstage
    exact ⟨hstage', hdraft'.trans hdraft, List.forall_mem_cons.mpr ⟨⟨_, hanswer⟩, hanswers⟩⟩

/-! ## §3 Histories -/

/-- What was asked and answered on the way to a stage, and the error that is kept. -/
inductive History : List Request → List Answer → Stage → Option AssembleError → Prop
  | new : History [] [] .empty none
  | parsed {source} : History [.parse source] [.ok none] .parsed none
  | linked {source} : History [.parse source, .link] [.ok none, .ok none] .linked none
  | encoded {source image} :
      History [.parse source, .link, .encode] [.ok none, .ok none, .ok (some image)] .encoded none
  | failed {requests answers e} (last : answers.getLast? = some (.error e)) :
      History requests answers .failed (some e)

theorem History.of_linked {requests : List Request} {answers : List Answer}
    {e : Option AssembleError} (h : History requests answers .linked e) :
    (∃ source, requests = [.parse source, .link]) ∧ answers = [.ok none, .ok none] := by
  cases h
  exact ⟨⟨_, rfl⟩, rfl⟩

/-- An error is kept by failed programs alone, and is the latest answer. -/
theorem History.of_lastError {requests : List Request} {answers : List Answer} {stage : Stage}
    {e : Option AssembleError} (h : History requests answers stage e) :
    (e.isSome = true ↔ stage = .failed) ∧
      ∀ error, e = some error → answers.getLast? = some (.error error) := by
  cases h with
  | failed last => simp [last]
  | _ => simp

theorem History.stage_ne_parsing {requests : List Request} {answers : List Answer} {stage : Stage}
    {e : Option AssembleError} (h : History requests answers stage e) : stage ≠ .parsing := by
  cases h <;> exact nofun

/-- A call goes on with the history of the stage it is made in. -/
theorem History.concat {requests : List Request} {answers : List Answer}
    (h : History requests answers p.stage p.lastError) (ht : Transition p request p' a) :
    History (requests ++ [request]) (answers ++ [a]) p'.stage p'.lastError := by
  cases ht with
  | refused _ => exact .failed (by simp)
  | failed _ => exact .failed (by simp)
  | @advanced d image hstage hencoding =>
    show History _ _ request.call.next p.lastError
    rw [hstage] at h
    cases request with
    | parse source =>
      have hnone : image = none := by simpa [Request.call] using hencoding
      rw [hnone]
      generalize p.lastError = e at h ⊢
      cases h
      exact .parsed
    | link =>
      have hnone : image = none := by simpa [Request.call] using hencoding
      rw [hnone]
      generalize p.lastError = e at h ⊢
      cases h
      exact .linked
    | encode =>
      obtain ⟨image, rfl⟩ := Option.isSome_iff_exists.mp (hencoding.mpr rfl)
      generalize p.lastError = e at h ⊢
      cases h
      exact .encoded

/-- Every run of a new program has the history of the stage it leads to. -/
theorem history (h : new limits = .ok p) (requests : List Request) :
    History requests (p.answers requests) (p.run requests).stage (p.run requests).lastError := by
  induction requests using List.reverseRecOn with
  | nil =>
    obtain ⟨_, rfl⟩ := new_eq_ok_iff.mp h
    exact .new
  | append_singleton requests request ih =>
    rw [answers_append, run_concat]
    exact ih.concat (transition (p.run requests) request)

/-- An image is the answer to the third call of a run that parsed and linked before. -/
theorem image_of_answers (h : new limits = .ok p) {requests : List Request} {i : Nat}
    {image : Image} (hi : (p.answers requests)[i]? = some (.ok (some image))) :
    i = 2 ∧ ∃ source rest, requests = .parse source :: .link :: .encode :: rest ∧
      (p.answers requests).take 2 = [.ok none, .ok none] := by
  obtain ⟨before, request, rest, rfl, rfl, hanswer⟩ := exists_of_getElem?_answers hi
  have htransition := transition (p.run before) request
  rw [← hanswer] at htransition
  obtain ⟨rfl, hstage⟩ := htransition.of_image
  have hhistory := history h before
  rw [hstage] at hhistory
  obtain ⟨⟨source, rfl⟩, hanswers⟩ := hhistory.of_linked
  refine ⟨rfl, source, rest, rfl, ?_⟩
  rw [answers_append, hanswers]
  rfl

/-- Programs with limits that fit together can be made, and whatever is asked of one:

* an image is the answer to one call at most, the third of the run, which is
  encoding after parsing and linking succeeded;
* a call in another stage than its own is refused for that stage, and leaves a
  failed program with the tables and the open function as they were;
* a failed program fails every later call, and its tables never change again;
* between calls no program is being parsed;
* an error is kept exactly by failed programs, and it is the latest answer. -/
theorem stages_of_run (hv : limits.Valid) :
    ∃ p, new limits = .ok p ∧ ∀ requests : List Request,
      (∀ i image, (p.answers requests)[i]? = some (.ok (some image)) →
        i = 2 ∧ ∃ source rest, requests = .parse source :: .link :: .encode :: rest ∧
          (p.answers requests).take 2 = [.ok none, .ok none]) ∧
      (∀ request, (p.run requests).stage ≠ request.call.stage →
        (p.run (requests ++ [request])).stage = .failed ∧
        (p.run (requests ++ [request])).draft = (p.run requests).draft ∧
        p.answers (requests ++ [request]) =
          p.answers requests ++ [.error (.invalidStage request.call (p.run requests).stage)]) ∧
      ((p.run requests).stage = .failed → ∀ later,
        (p.run (requests ++ later)).draft = (p.run requests).draft ∧
        ∀ a ∈ (p.answers (requests ++ later)).drop requests.length, ∃ e, a = .error e) ∧
      (p.run requests).stage ≠ .parsing ∧
      ((p.run requests).lastError.isSome = true ↔ (p.run requests).stage = .failed) ∧
      ∀ e, (p.run requests).lastError = some e →
        (p.answers requests).getLast? = some (.error e) := by
  obtain ⟨p, hp⟩ : ∃ p, new limits = .ok p := ⟨_, new_eq_ok_iff.mpr ⟨hv, rfl⟩⟩
  refine ⟨p, hp, fun requests => ?_⟩
  have hhistory := history hp requests
  obtain ⟨hfailed, hlast⟩ := hhistory.of_lastError
  refine ⟨fun _ _ => image_of_answers hp, ?_, ?_, hhistory.stage_ne_parsing, hfailed, hlast⟩
  · intro request hstage
    obtain ⟨hstage', hdraft, hanswer⟩ := (transition (p.run requests) request).of_ne hstage
    rw [run_concat, answers_append]
    exact ⟨hstage', hdraft, by simp [answers, hanswer]⟩
  · intro hstage later
    obtain ⟨_, hdraft, hanswers⟩ := run_of_failed hstage later
    rw [run_append, answers_append, List.drop_left' (length_answers p requests)]
    exact ⟨hdraft, hanswers⟩

/-- Encoding twice: the first call gives the image, and the second fails the program. -/
theorem refused_after_image :
    let source := Utf8.encode ".function f\nSHL R0 $1\n.endfunction".toList
    let image : Image := ⟨[⟨0x14001000, 1⟩], [⟨['f'], 0, 1⟩]⟩
    ∃ p, new {} = .ok p ∧
      p.answers [.parse source, .link, .encode, .encode] =
        [.ok none, .ok none, .ok (some image), .error (.invalidStage .encode .encoded)] ∧
      (p.run [.parse source, .link, .encode, .encode]).stage = .failed := by
  intro source image
  have hlimits : ({} : Limits).Valid := Limits.check_eq_ok_iff.mp (by decide)
  obtain ⟨p, hp, hrun⟩ := stages_of_run hlimits
  obtain ⟨_, rfl⟩ := new_eq_ok_iff.mp hp
  obtain ⟨_, hother, _⟩ := hrun [.parse source, .link, .encode]
  have hstage : (run { draft := .empty {} } [.parse source, .link, .encode]).stage = .encoded := by
    decide +kernel
  have hanswers : answers { draft := .empty {} } [.parse source, .link, .encode] =
      [.ok none, .ok none, .ok (some image)] := by
    decide +kernel
  rw [hstage, hanswers] at hother
  obtain ⟨hfailed, _, hanswer⟩ := hother .encode nofun
  simp only [List.cons_append, List.nil_append] at hfailed hanswer
  exact ⟨_, hp, hanswer, hfailed⟩

end Program

end SensorScript
