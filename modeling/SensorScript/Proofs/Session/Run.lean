/-
SensorScript.Proofs.Session.Run — a registry over any calls.

A call that is refused changes nothing, and any other one reads, puts or drops
the session of its own sensor: `Transition` has a case for each. The history
of a run is its calls, each with its answer.

  §1 sessions by id;
  §2 calls, and what each of them can do;
  §3 runs and their histories.
-/
import SensorScript.Session

namespace SensorScript

/-- A call of a registry. A load comes with the time at which it is made. -/
inductive SessionCall where
  | openSensor (id : SensorId) (name : Text)
  | closeSensor (id : SensorId)
  | loadScript (id : SensorId) (source : Bytes) (time : Nat)

/-- The sensor that a call is about. -/
def SessionCall.id : SessionCall → SensorId
  | .openSensor id _ | .closeSensor id | .loadScript id _ _ => id

/-- What a successful call gives: a session, or the image of a load. -/
inductive SessionReply where
  | session (s : Session)
  | image (image : Image)
  deriving DecidableEq

namespace Registry

/-! ## §1 Sessions by id -/

/-- The registry with one more session, or another one of the same sensor. -/
def put (r : Registry) (s : Session) : Registry := { r with sessions := insert s r.sessions }

/-- The registry without the session of a sensor. -/
def drop (r : Registry) (id : SensorId) : Registry := { r with sessions := erase id r.sessions }

theorem id_of_session? {r : Registry} {id : SensorId} {s : Session}
    (h : r.session? id = some s) : s.id = id := by
  simpa using List.find?_some h

theorem find?_insert (s : Session) (ts : List Session) (id : SensorId) :
    ((insert s ts).find? fun t => t.id = id) =
      if s.id = id then some s else ts.find? fun t => t.id = id := by
  induction ts with
  | nil => by_cases h : s.id = id <;> simp [insert, h]
  | cons t ts ih =>
    unfold insert
    split
    next heq => by_cases h : s.id = id <;> simp [← heq, h]
    next hne =>
      split
      · by_cases h : s.id = id <;> simp [h]
      · -- The session goes further down, past one of another sensor.
        by_cases ht : t.id = id
        · simp [ht, show s.id ≠ id from fun h => hne (h.trans ht.symm)]
        · simp [ht, ih]

theorem session?_put (r : Registry) (s : Session) (id : SensorId) :
    (r.put s).session? id = if s.id = id then some s else r.session? id :=
  find?_insert s r.sessions id

theorem session?_put_eq_some_iff {r : Registry} {s t : Session} {id : SensorId} :
    (r.put s).session? id = some t ↔ s.id = id ∧ s = t ∨ s.id ≠ id ∧ r.session? id = some t := by
  rw [session?_put]
  by_cases h : s.id = id <;> simp [h]

theorem session?_drop (r : Registry) (id id' : SensorId) :
    (r.drop id).session? id' = if id = id' then none else r.session? id' := by
  simp only [session?, drop, erase, List.find?_filter]
  by_cases h : id = id'
  · simp [h]
  · simp only [h, if_false]
    congr 1
    funext t
    by_cases ht : t.id = id'
    · simp [ht, Ne.symm h]
    · simp [ht]

theorem session?_drop_eq_some_iff {r : Registry} {id id' : SensorId} {t : Session} :
    (r.drop id).session? id' = some t ↔ id ≠ id' ∧ r.session? id' = some t := by
  rw [session?_drop]
  by_cases h : id = id' <;> simp [h]

/-! ## §2 Calls -/

abbrev Answer := Except SessionError SessionReply

/-- The registry after a call. -/
def after (r : Registry) : SessionCall → Registry
  | .openSensor id name => (r.openSensor id name).1
  | .closeSensor id => (r.closeSensor id).1
  | .loadScript id source time => (r.loadScript id source time).1

/-- What the registry answers to a call. -/
def answer (r : Registry) : SessionCall → Answer
  | .openSensor id name => (r.openSensor id name).2.map .session
  | .closeSensor id => (r.closeSensor id).2.map .session
  | .loadScript id source time => (r.loadScript id source time).2.map .image

/-- Why a call is refused. -/
inductive Refusal (r : Registry) : SessionCall → SessionError → Prop
  | alreadyOpen {id name s} (present : r.session? id = some s) :
      Refusal r (.openSensor id name) (.alreadyOpen id)
  | registryFull {id name} (absent : r.session? id = none) (full : r.maxSessions ≤ r.size) :
      Refusal r (.openSensor id name) (.registryFull r.maxSessions)
  | close {id} (absent : r.session? id = none) : Refusal r (.closeSensor id) (.notOpen id)
  | load {id source time} (absent : r.session? id = none) :
      Refusal r (.loadScript id source time) (.notOpen id)
  | script {id source time s e} (present : r.session? id = some s)
      (fresh : cached? s (Blake3.hash source) = none) (failed : assemble source r.limits = .error e) :
      Refusal r (.loadScript id source time) (.script id e)

/-- What a call can make of the registry, and what it answers then. -/
inductive Transition (r : Registry) : SessionCall → Registry → Answer → Prop
  | refused {call e} (cause : Refusal r call e) : Transition r call r (.error e)
  | opened {id name} (absent : r.session? id = none) (room : r.size < r.maxSessions) :
      Transition r (.openSensor id name) (r.put { id, name }) (.ok (.session { id, name }))
  | closed {id s} (present : r.session? id = some s) :
      Transition r (.closeSensor id) (r.drop id) (.ok (.session s))
  | cached {id source time s image} (present : r.session? id = some s)
      (hit : cached? s (Blake3.hash source) = some image) :
      Transition r (.loadScript id source time) r (.ok (.image image))
  | loaded {id source time s image} (present : r.session? id = some s)
      (fresh : cached? s (Blake3.hash source) = none) (compiled : assemble source r.limits = .ok image) :
      Transition r (.loadScript id source time)
        (r.put (s.load ⟨image, Blake3.hash source, time⟩)) (.ok (.image image))

/-- Every call is one of the transitions. -/
theorem transition (r : Registry) (call : SessionCall) :
    Transition r call (r.after call) (r.answer call) := by
  cases call with
  | openSensor id name =>
    simp only [after, answer, openSensor]
    cases h : r.session? id with
    | some s => exact .refused (.alreadyOpen h)
    | none =>
      simp only [Option.isSome_none, Bool.false_eq_true, if_false]
      split
      next hfull => exact .refused (.registryFull h hfull)
      next hroom => exact .opened h (Nat.lt_of_not_le hroom)
  | closeSensor id =>
    simp only [after, answer, closeSensor]
    cases h : r.session? id with
    | none => exact .refused (.close h)
    | some s => exact .closed h
  | loadScript id source time =>
    simp only [after, answer, loadScript]
    cases h : r.session? id with
    | none => exact .refused (.load h)
    | some s =>
      simp only
      cases hcached : cached? s (Blake3.hash source) with
      | some image => exact .cached h hcached
      | none =>
        simp only
        cases hcompiled : assemble source r.limits with
        | error e => exact .refused (.script h hcached hcompiled)
        | ok image => exact .loaded h hcached hcompiled

/-- A transition of a call is what the call does. -/
theorem Transition.eq {r r' : Registry} {call : SessionCall} {a : Answer}
    (h : Transition r call r' a) : r.after call = r' ∧ r.answer call = a := by
  cases h with
  | refused cause =>
    cases cause with
    | alreadyOpen present => simp [after, answer, openSensor, present, Except.map]
    | registryFull absent full => simp [after, answer, openSensor, absent, full, Except.map]
    | close absent => simp [after, answer, closeSensor, absent, Except.map]
    | load absent => simp [after, answer, loadScript, absent, Except.map]
    | script present fresh failed =>
      simp [after, answer, loadScript, present, fresh, failed, Except.map]
  | opened absent room =>
    simp [after, answer, openSensor, absent, Nat.not_le.mpr room, put, Except.map]
  | closed present => simp [after, answer, closeSensor, present, drop, Except.map]
  | cached present hit => simp [after, answer, loadScript, present, hit, Except.map]
  | loaded present fresh compiled =>
    simp [after, answer, loadScript, present, fresh, compiled, put, Except.map]

/-- A call leaves the sessions of all other sensors. -/
theorem Transition.session?_eq {r r' : Registry} {call : SessionCall} {a : Answer} {id : SensorId}
    (h : Transition r call r' a) (hid : call.id ≠ id) : r'.session? id = r.session? id := by
  cases h with
  | refused _ => rfl
  | opened _ _ => exact (session?_put _ _ _).trans (if_neg hid)
  | closed _ => exact (session?_drop _ _ _).trans (if_neg hid)
  | cached _ _ => rfl
  | loaded present _ _ =>
    rw [← id_of_session? present] at hid
    exact (session?_put _ _ _).trans (if_neg hid)

/-- No call changes the limits. -/
theorem Transition.limits_eq {r r' : Registry} {call : SessionCall} {a : Answer}
    (h : Transition r call r' a) :
    r'.limits = r.limits := by
  cases h <;> rfl

/-- No call changes the number of sessions there may be. -/
theorem Transition.maxSessions_eq {r r' : Registry} {call : SessionCall} {a : Answer}
    (h : Transition r call r' a) :
    r'.maxSessions = r.maxSessions := by
  cases h <;> rfl

/-! ## §3 Runs -/

/-- The registry after some calls. -/
def run (r : Registry) (calls : List SessionCall) : Registry := calls.foldl after r

/-- A call and what was answered to it. -/
abbrev Event := SessionCall × Answer

/-- Some calls and what is answered to them, one after the other. -/
def history (r : Registry) : List SessionCall → List Event
  | [] => []
  | call :: calls => (call, r.answer call) :: (r.after call).history calls

@[simp] theorem run_concat (r : Registry) (calls : List SessionCall) (call : SessionCall) :
    r.run (calls ++ [call]) = (r.run calls).after call := by
  simp [run]

theorem maxSessions_run (r : Registry) (calls : List SessionCall) :
    (r.run calls).maxSessions = r.maxSessions := by
  induction calls generalizing r with
  | nil => rfl
  | cons call calls ih => exact (ih _).trans (transition r call).maxSessions_eq

theorem history_concat (r : Registry) (calls : List SessionCall) (call : SessionCall) :
    r.history (calls ++ [call]) = r.history calls ++ [(call, (r.run calls).answer call)] := by
  induction calls generalizing r with
  | nil => rfl
  | cons first calls ih => simp [history, run, ih]

end Registry

end SensorScript
