/-
SensorScript.Proofs.Session.Isolation — sensors do not interfere.

The calls on one sensor can be made alone, in a new registry: each of them is
answered as it was among the calls on the other sensors, and the session of the
sensor ends up the same. The two registries differ in what else is open, which
a call can only see when the registry is full, and in the times of the loads,
which no call looks at. `Agree` relates them, and every call preserves it.

  §1 without times;
  §2 registries that agree on a sensor;
  §3 calls;
  §4 runs.
-/
import SensorScript.Proofs.Session.Run

namespace SensorScript

/-! ## §1 Without times -/

def Loaded.untimed (l : Loaded) : Loaded := { l with time := 0 }

def Session.untimed (s : Session) : Session := { s with loaded := s.loaded.map Loaded.untimed }

def SessionCall.untimed : SessionCall → SessionCall
  | .loadScript id source _ => .loadScript id source 0
  | call => call

namespace SessionCall

variable {call : SessionCall} {id : SensorId} {name : Text} {source : Bytes} {time : Nat}

theorem eq_of_untimed_openSensor (h : call.untimed = untimed (.openSensor id name)) :
    call = .openSensor id name := by
  cases call <;> simp_all [untimed]

theorem eq_of_untimed_closeSensor (h : call.untimed = untimed (.closeSensor id)) :
    call = .closeSensor id := by
  cases call <;> simp_all [untimed]

theorem exists_of_untimed_loadScript (h : call.untimed = untimed (.loadScript id source time)) :
    ∃ time', call = .loadScript id source time' := by
  cases call <;> simp_all [untimed]

end SessionCall

def SessionReply.untimed : SessionReply → SessionReply
  | .session s => .session s.untimed
  | .image i => .image i

/-- A call and its answer, without the times in them. -/
def Registry.Event.untimed (event : Registry.Event) : Registry.Event :=
  (event.1.untimed, event.2.map SessionReply.untimed)

namespace Registry

variable {s s' : Session}

/-- Whether a digest is found in a session does not depend on times. -/
theorem cached?_untimed (s : Session) (digest : Bytes) :
    cached? s.untimed digest = cached? s digest := by
  cases h : s.loaded <;> simp [cached?, Session.untimed, h, Loaded.untimed]

theorem cached?_eq (h : s'.untimed = s.untimed) (digest : Bytes) :
    cached? s' digest = cached? s digest := by
  rw [← cached?_untimed s', h, cached?_untimed]

theorem untimed_load (h : s'.untimed = s.untimed) (image : Image) (digest : Bytes) (time time' : Nat) :
    (s'.load ⟨image, digest, time'⟩).untimed = (s.load ⟨image, digest, time⟩).untimed := by
  cases s
  cases s'
  simp_all [Session.untimed, Session.load, Loaded.untimed]

/-! ## §2 Registries that agree on a sensor -/

/-- A registry has the session that another one has of a sensor, and no other session. -/
structure Agree (id : SensorId) (r r' : Registry) : Prop where
  limits_eq : r'.limits = r.limits
  maxSessions_eq : r'.maxSessions = r.maxSessions
  session?_eq : (r'.session? id).map Session.untimed = (r.session? id).map Session.untimed
  alone : ∀ other, other ≠ id → r'.session? other = none

namespace Agree

variable {id : SensorId} {r r' : Registry}

theorem session?_none (h : Agree id r r') (hs : r.session? id = none) : r'.session? id = none := by
  simpa [hs] using h.session?_eq

theorem session?_some (h : Agree id r r') (hs : r.session? id = some s) :
    ∃ s', r'.session? id = some s' ∧ s'.untimed = s.untimed := by
  simpa [hs] using h.session?_eq

/-- While the sensor is not open, nothing is. -/
theorem size_eq_zero (h : Agree id r r') (hs : r.session? id = none) : r'.size = 0 := by
  cases hsessions : r'.sessions with
  | nil => simp [size, hsessions]
  | cons t ts =>
    have hsome : r'.session? t.id = some t := by simp [session?, hsessions]
    by_cases ht : t.id = id
    · rw [ht, h.session?_none hs] at hsome
      cases hsome
    · rw [h.alone _ ht] at hsome
      cases hsome

theorem put (h : Agree id r r') (hid : s.id = id) (hs : s'.untimed = s.untimed) :
    Agree id (r.put s) (r'.put s') where
  limits_eq := h.limits_eq
  maxSessions_eq := h.maxSessions_eq
  session?_eq := by
    have hid' : s'.id = id := (congrArg Session.id hs).trans hid
    rw [session?_put, session?_put, if_pos hid, if_pos hid', Option.map_some, hs, Option.map_some]
  alone other hne := by
    have hid' : s'.id = id := (congrArg Session.id hs).trans hid
    rw [session?_put, if_neg (hid' ▸ hne.symm), h.alone other hne]

theorem drop (h : Agree id r r') : Agree id (r.drop id) (r'.drop id) where
  limits_eq := h.limits_eq
  maxSessions_eq := h.maxSessions_eq
  session?_eq := by simp [session?_drop]
  alone other hne := by rw [session?_drop, if_neg hne.symm, h.alone other hne]

/-! ## §3 Calls -/

variable {call call' : SessionCall} {r₁ : Registry} {a : Answer}

/-- A call on another sensor is not seen. -/
theorem other (h : Agree id r r') (ht : Transition r call r₁ a) (hid : call.id ≠ id) :
    Agree id r₁ r' where
  limits_eq := h.limits_eq.trans ht.limits_eq.symm
  maxSessions_eq := h.maxSessions_eq.trans ht.maxSessions_eq.symm
  session?_eq := by rw [ht.session?_eq hid, h.session?_eq]
  alone := h.alone

/-- A call that is refused, but not for a full registry, is refused alone for the same reason. -/
theorem refusal {e : SessionError} (h : Agree id r r') (cause : Refusal r call e)
    (hid : call.id = id) (hcall : call'.untimed = call.untimed)
    (hroom : ∀ name capacity, call = .openSensor id name → e ≠ .registryFull capacity) :
    Refusal r' call' e := by
  cases cause with
  | alreadyOpen present =>
    obtain rfl := SessionCall.eq_of_untimed_openSensor hcall
    obtain rfl := hid
    obtain ⟨s', present', _⟩ := h.session?_some present
    exact .alreadyOpen present'
  | registryFull _ _ =>
    obtain rfl := hid
    exact absurd rfl (hroom _ _ rfl)
  | close absent =>
    obtain rfl := SessionCall.eq_of_untimed_closeSensor hcall
    obtain rfl := hid
    exact .close (h.session?_none absent)
  | load absent =>
    obtain ⟨time', rfl⟩ := SessionCall.exists_of_untimed_loadScript hcall
    obtain rfl := hid
    exact .load (h.session?_none absent)
  | script present fresh failed =>
    obtain ⟨time', rfl⟩ := SessionCall.exists_of_untimed_loadScript hcall
    obtain rfl := hid
    obtain ⟨s', present', hs⟩ := h.session?_some present
    exact .script present' ((cached?_eq hs _).trans fresh) (h.limits_eq ▸ failed)

/-- A call on the sensor does alone, perhaps at another time, what it did among the others. -/
theorem own (h : Agree id r r') (ht : Transition r call r₁ a) (hid : call.id = id)
    (hcall : call'.untimed = call.untimed)
    (hroom : ∀ name capacity, call = .openSensor id name → a ≠ .error (.registryFull capacity)) :
    ∃ r₁' a', Transition r' call' r₁' a' ∧ Agree id r₁ r₁' ∧
      a'.map SessionReply.untimed = a.map SessionReply.untimed := by
  cases ht with
  | refused cause =>
    have cause' := h.refusal cause hid hcall fun name capacity hopen he =>
      hroom name capacity hopen (he ▸ rfl)
    exact ⟨r', _, .refused cause', h, rfl⟩
  | opened absent room =>
    obtain rfl := SessionCall.eq_of_untimed_openSensor hcall
    obtain rfl := hid
    have room' : r'.size < r'.maxSessions := by
      rw [h.size_eq_zero absent, h.maxSessions_eq]
      exact Nat.zero_lt_of_lt room
    exact ⟨_, _, .opened (h.session?_none absent) room', h.put rfl rfl, rfl⟩
  | closed present =>
    obtain rfl := SessionCall.eq_of_untimed_closeSensor hcall
    obtain rfl := hid
    obtain ⟨s', present', hs⟩ := h.session?_some present
    exact ⟨_, _, .closed present', h.drop, by simp [Except.map, SessionReply.untimed, hs]⟩
  | cached present hit =>
    obtain ⟨time', rfl⟩ := SessionCall.exists_of_untimed_loadScript hcall
    obtain rfl := hid
    obtain ⟨s', present', hs⟩ := h.session?_some present
    exact ⟨r', _, .cached present' ((cached?_eq hs _).trans hit), h, rfl⟩
  | @loaded loaded _ _ s _ present fresh compiled =>
    obtain ⟨time', rfl⟩ := SessionCall.exists_of_untimed_loadScript hcall
    obtain rfl : loaded = id := hid
    have hs : s.id = loaded := id_of_session? present
    obtain ⟨s', present', hs'⟩ := h.session?_some present
    exact ⟨_, _, .loaded present' ((cached?_eq hs' _).trans fresh) (h.limits_eq ▸ compiled),
      h.put hs (untimed_load hs' _ _ _ _), rfl⟩

/-! ## §4 Runs -/

/-- Calls on the sensor alone are answered as they were among the others, and leave its
session as it was left. -/
theorem run (h : Agree id r r') {calls replay : List SessionCall}
    (hroom : ∀ name capacity,
      (.openSensor id name, .error (.registryFull capacity)) ∉ r.history calls)
    (hreplay : replay.map SessionCall.untimed =
      (calls.filter (·.id = id)).map SessionCall.untimed) :
    Agree id (r.run calls) (r'.run replay) ∧
      (r'.history replay).map Event.untimed =
        ((r.history calls).filter (·.1.id = id)).map Event.untimed := by
  induction calls generalizing r r' replay with
  | nil =>
    obtain rfl : replay = [] := by simpa using hreplay
    exact ⟨h, rfl⟩
  | cons call calls ih =>
    have ht := transition r call
    have hrest : ∀ name capacity,
        (.openSensor id name, .error (.registryFull capacity)) ∉ (r.after call).history calls :=
      fun name capacity hmem => hroom name capacity (List.mem_cons_of_mem _ hmem)
    by_cases hid : call.id = id
    · -- The replay goes on with the same call.
      have hfilter : (call :: calls).filter (·.id = id) = call :: calls.filter (·.id = id) := by
        simp [hid]
      rw [hfilter, List.map_cons] at hreplay
      obtain ⟨call', replay, rfl, hcall, hreplay⟩ := List.map_eq_cons_iff.mp hreplay
      have hanswer : ∀ name capacity, call = .openSensor id name →
          r.answer call ≠ .error (.registryFull capacity) := by
        rintro name capacity rfl hfull
        exact hroom name capacity (by simp [history, hfull])
      obtain ⟨r₁', a', ht', hagree, ha⟩ := h.own ht hid hcall hanswer
      obtain ⟨rfl, rfl⟩ := ht'.eq
      obtain ⟨hagree, hhistory⟩ := ih hagree hrest hreplay
      exact ⟨hagree, by simp [history, hid, Event.untimed, hcall, ha, hhistory]⟩
    · have hskip : replay.map SessionCall.untimed =
          (calls.filter (·.id = id)).map SessionCall.untimed := by simpa [hid] using hreplay
      obtain ⟨hagree, hhistory⟩ := ih (h.other ht hid) hrest hskip
      exact ⟨hagree, by simpa [history, hid] using hhistory⟩

end Agree

theorem agree_new (id : SensorId) (limits : Limits) (maxSessions : Nat) :
    Agree id { limits, maxSessions } { limits, maxSessions } where
  limits_eq := rfl
  maxSessions_eq := rfl
  session?_eq := rfl
  alone _ _ := rfl

/-- For any calls of a new registry, whatever the limits and the number of sessions, and a sensor
that was never refused for a full registry: when the calls on it are made alone in a new registry,
at whatever times, each of them is answered as before, and they leave the same session of it. -/
theorem replayed_alone (limits : Limits) (maxSessions : Nat) (calls replay : List SessionCall)
    (id : SensorId)
    (hroom : ∀ name capacity, (.openSensor id name, .error (.registryFull capacity)) ∉
      ({ limits, maxSessions } : Registry).history calls)
    (hreplay : replay.map SessionCall.untimed =
      (calls.filter (·.id = id)).map SessionCall.untimed) :
    let new : Registry := { limits, maxSessions }
    (new.history replay).map Event.untimed =
        ((new.history calls).filter (·.1.id = id)).map Event.untimed ∧
      ((new.run replay).session? id).map Session.untimed =
        ((new.run calls).session? id).map Session.untimed := by
  intro new
  obtain ⟨hagree, hhistory⟩ := (agree_new id limits maxSessions).run hroom hreplay
  exact ⟨hhistory, hagree.session?_eq⟩

/-- The calls on a sensor whose script does not compile, beside one that is refused since there
are sessions enough and one that is closed in between. -/
theorem replayed_alone_beside_others :
    let id : SensorId := ⟨1⟩
    let new : Registry := { limits := {}, maxSessions := 2 }
    let calls : List SessionCall :=
      [.openSensor ⟨0⟩ ['a'], .openSensor id ['b'], .openSensor ⟨2⟩ ['c'], .loadScript id [65] 5,
        .closeSensor ⟨0⟩]
    let replay : List SessionCall := [.openSensor id ['b'], .loadScript id [65] 9]
    (∀ name capacity,
      (.openSensor id name, .error (.registryFull capacity)) ∉ new.history calls) ∧
    (.openSensor ⟨2⟩ ['c'], .error (.registryFull 2)) ∈ new.history calls ∧
    replay.map SessionCall.untimed = (calls.filter (·.id = id)).map SessionCall.untimed ∧
    (new.history replay).map Event.untimed =
      ((new.history calls).filter (·.1.id = id)).map Event.untimed ∧
    ((new.run replay).session? id).map Session.untimed =
      ((new.run calls).session? id).map Session.untimed := by
  intro id new calls replay
  have hbad : assemble [65] {} = .error (.parse 1 (.unknownMnemonic ['A'])) := rfl
  have hhistory : new.history calls = calls.zip [
      .ok (.session { id := ⟨0⟩, name := ['a'] }), .ok (.session { id, name := ['b'] }),
      .error (.registryFull 2), .error (.script id (.parse 1 (.unknownMnemonic ['A']))),
      .ok (.session { id := ⟨0⟩, name := ['a'] })] := by
    simp [calls, new, history, answer, after, openSensor, loadScript, closeSensor, session?, size,
      insert, SensorId.before, cached?, hbad, id, Except.map]
  have hroom : ∀ name capacity,
      (.openSensor id name, .error (.registryFull capacity)) ∉ new.history calls := by
    simp [hhistory, calls, id]
  have hreplay : replay.map SessionCall.untimed =
      (calls.filter (·.id = id)).map SessionCall.untimed := by
    simp [replay, calls, id, SessionCall.id, SessionCall.untimed]
  exact ⟨hroom, by simp [hhistory, calls], hreplay,
    replayed_alone {} 2 calls replay id hroom hreplay⟩

end Registry

end SensorScript
