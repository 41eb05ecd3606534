/-
SensorScript.Proofs.Session.Invariant — what holds of a registry after any calls.

The sessions of a registry stand in the order of their ids, there are not more
of them than it may have, and one of them has something loaded exactly when
scripts were loaded into it. `Sound` says so, and every call preserves it. The
name of a session is the one that its sensor was opened with last.

  §1 ids;
  §2 sessions in order;
  §3 the invariant;
  §4 names.
-/
import Mathlib.Data.List.Induction
import SensorScript.Proofs.Session.Run

namespace SensorScript

/-! ## §1 Ids -/

namespace SensorId

variable {a b c : SensorId}

theorem before_iff : a.before b = true ↔ a.number.toNat < b.number.toNat := by
  simp [before]

theorem before_trans (hab : a.before b) (hbc : b.before c) : a.before c := by
  rw [before_iff] at *
  omega

theorem ne_of_before (h : a.before b) : a ≠ b := by
  rintro rfl
  simp [before] at h

theorem toNat_inj : a.number.toNat = b.number.toNat ↔ a = b := by
  cases a
  cases b
  simp [UInt32.toNat_inj]

/-- An id that is another one, and not before it, is behind it. -/
theorem before_of_not_before (hne : a ≠ b) (h : ¬ a.before b) : b.before a := by
  rw [before_iff] at *
  have hnumber : a.number.toNat ≠ b.number.toNat := fun heq => hne (toNat_inj.mp heq)
  omega

end SensorId

namespace Registry

/-! ## §2 Sessions in order -/

/-- The ids of some sessions are strictly increasing. -/
def Ordered (ts : List Session) : Prop := ts.Pairwise fun s t => s.id.before t.id

variable {s t : Session} {ts : List Session} {id : SensorId}

theorem erase_eq_self (h : ∀ t ∈ ts, t.id ≠ id) : erase id ts = ts :=
  List.filter_eq_self.mpr (by simpa using h)

theorem erase_cons_of_ne (h : t.id ≠ id) : erase id (t :: ts) = t :: erase id ts := by
  simp [erase, h]

namespace Ordered

theorem erase (h : Ordered ts) : Ordered (erase id ts) := List.Pairwise.filter _ h

theorem ne_of_mem (h : Ordered (t :: ts)) (hs : s ∈ ts) : t.id ≠ s.id :=
  SensorId.ne_of_before ((List.pairwise_cons.mp h).1 s hs)

/-- The first of some sessions is the only one of its id. -/
theorem erase_head (h : Ordered (t :: ts)) : Registry.erase t.id (t :: ts) = ts := by
  simpa [Registry.erase] using fun u hu => (h.ne_of_mem hu).symm

/-- A session goes in for the one of its id, if there is one. -/
theorem insert_perm (h : Ordered ts) : (insert s ts).Perm (s :: Registry.erase s.id ts) := by
  induction ts with
  | nil => exact .refl _
  | cons t ts ih =>
    have hcons := List.pairwise_cons.mp h
    unfold insert
    split
    next heq => rw [heq, h.erase_head]
    next hne =>
      rw [erase_cons_of_ne (Ne.symm hne)]
      split
      next hbefore =>
        rw [erase_eq_self fun u hu =>
          (SensorId.ne_of_before (SensorId.before_trans hbefore (hcons.1 u hu))).symm]
      next => exact ((ih hcons.2).cons t).trans (.swap s t _)

theorem mem_of_mem_insert (h : Ordered ts) (ht : t ∈ insert s ts) : t = s ∨ t ∈ ts := by
  obtain rfl | ht := List.mem_cons.mp (h.insert_perm.mem_iff.mp ht)
  · exact .inl rfl
  · exact .inr (List.mem_filter.mp ht).1

theorem insert (h : Ordered ts) : Ordered (insert s ts) := by
  induction ts with
  | nil => simp [Registry.insert, Ordered]
  | cons t ts ih =>
    have hcons := List.pairwise_cons.mp h
    unfold Registry.insert
    split
    next heq => exact List.pairwise_cons.mpr ⟨fun u hu => heq ▸ hcons.1 u hu, hcons.2⟩
    next hne =>
      split
      next hbefore =>
        refine List.pairwise_cons.mpr ⟨fun u hu => ?_, h⟩
        obtain rfl | hu := List.mem_cons.mp hu
        · exact hbefore
        · exact SensorId.before_trans hbefore (hcons.1 u hu)
      next hbehind =>
        refine List.pairwise_cons.mpr ⟨fun u hu => ?_, ih hcons.2⟩
        obtain rfl | hu := mem_of_mem_insert hcons.2 hu
        · exact SensorId.before_of_not_before hne hbehind
        · exact hcons.1 u hu

/-- A session of an ordered list is found by its id. -/
theorem find?_eq_some (h : Ordered ts) (hs : s ∈ ts) : (ts.find? fun t => t.id = s.id) = some s := by
  induction ts with
  | nil => cases hs
  | cons t ts ih =>
    obtain rfl | hs := List.mem_cons.mp hs
    · simp
    · simp [h.ne_of_mem hs, ih (List.pairwise_cons.mp h).2 hs]

theorem eq_of_id_eq (h : Ordered ts) (hs : s ∈ ts) (ht : t ∈ ts) (hid : s.id = t.id) : s = t := by
  have hfound := h.find?_eq_some hs
  rw [hid, h.find?_eq_some ht] at hfound
  exact (Option.some.inj hfound).symm

/-- Without one of its sessions an ordered list is shorter by one. -/
theorem length_erase (h : Ordered ts) (hs : s ∈ ts) :
    (Registry.erase s.id ts).length + 1 = ts.length := by
  induction ts with
  | nil => cases hs
  | cons t ts ih =>
    obtain rfl | hs := List.mem_cons.mp hs
    · rw [h.erase_head, List.length_cons]
    · rw [erase_cons_of_ne (h.ne_of_mem hs), List.length_cons, ih (List.pairwise_cons.mp h).2 hs,
        List.length_cons]

end Ordered

variable {r r' : Registry} {call : SessionCall} {a : Answer}

theorem mem_of_session? (h : r.session? id = some s) : s ∈ r.sessions :=
  List.mem_of_find?_eq_some h

theorem size_drop (h : Ordered r.sessions) (hs : r.session? id = some s) :
    (r.drop id).size + 1 = r.size :=
  id_of_session? hs ▸ h.length_erase (mem_of_session? hs)

theorem size_put_of_none (h : Ordered r.sessions) (hs : r.session? s.id = none) :
    (r.put s).size = r.size + 1 := by
  have hother : ∀ t ∈ r.sessions, t.id ≠ s.id := by simpa [session?] using hs
  rw [size, put, h.insert_perm.length_eq, erase_eq_self hother, List.length_cons, size]

/-- A load leaves as many sessions as there were. -/
theorem size_put_load (h : Ordered r.sessions) (hs : r.session? id = some s) (l : Loaded) :
    (r.put (s.load l)).size = r.size := by
  obtain rfl : s.id = id := id_of_session? hs
  rw [size, put, h.insert_perm.length_eq, List.length_cons]
  exact size_drop h hs

/-! ## §3 The invariant -/

/-- The sessions are in order, not too many, and loaded exactly when they counted a load. -/
structure Sound (r : Registry) : Prop where
  ordered : Ordered r.sessions
  size_le : r.size ≤ r.maxSessions
  loaded_iff : ∀ id s, r.session? id = some s → (s.loaded.isSome ↔ 0 < s.reloads)

/-- Every call keeps a registry sound. -/
theorem Sound.step (h : Sound r) (ht : Transition r call r' a) : Sound r' where
  ordered := by
    cases ht with
    | refused _ => exact h.ordered
    | opened _ _ => exact h.ordered.insert
    | closed _ => exact h.ordered.erase
    | cached _ _ => exact h.ordered
    | loaded _ _ _ => exact h.ordered.insert
  size_le := by
    rw [ht.maxSessions_eq]
    cases ht with
    | refused _ => exact h.size_le
    | opened absent room =>
      rw [size_put_of_none h.ordered absent]
      exact room
    | closed present =>
      have hdrop := size_drop h.ordered present
      have hle := h.size_le
      omega
    | cached _ _ => exact h.size_le
    | loaded present _ _ =>
      rw [size_put_load h.ordered present]
      exact h.size_le
  loaded_iff id s hs := by
    cases ht with
    | refused _ => exact h.loaded_iff id s hs
    | opened _ _ =>
      obtain ⟨_, rfl⟩ | ⟨_, hs⟩ := session?_put_eq_some_iff.mp hs
      · simp
      · exact h.loaded_iff id s hs
    | closed _ => exact h.loaded_iff id s (session?_drop_eq_some_iff.mp hs).2
    | cached _ _ => exact h.loaded_iff id s hs
    | loaded _ _ _ =>
      obtain ⟨_, rfl⟩ | ⟨_, hs⟩ := session?_put_eq_some_iff.mp hs
      · simp [Session.load]
      · exact h.loaded_iff id s hs

theorem sound_new (limits : Limits) (maxSessions : Nat) : Sound { limits, maxSessions } where
  ordered := .nil
  size_le := Nat.zero_le _
  loaded_iff := nofun

theorem Sound.run (h : Sound r) (calls : List SessionCall) : Sound (r.run calls) := by
  induction calls generalizing r with
  | nil => exact h
  | cons call calls ih => exact ih (h.step (transition r call))

/-! ## §4 Names -/

/-- The name that a sensor is open with, after one more call and its answer. -/
def nameAfter {α : Type} (id : SensorId) (last : Option Text) :
    SessionCall × Except SessionError α → Option Text
  | (.openSensor id' name, .ok _) => if id' = id then some name else last
  | (.closeSensor id', .ok _) => if id' = id then none else last
  | _ => last

/-- The name that a sensor was opened with last, if it was not closed since. -/
def openName? {α : Type} (id : SensorId) (history : List (SessionCall × Except SessionError α)) :
    Option Text :=
  history.foldl (nameAfter id) none

/-- Names do not depend on what the calls gave. -/
theorem openName?_map {α β : Type} (f : α → β) (id : SensorId)
    (history : List (SessionCall × Except SessionError α)) :
    openName? id (history.map fun event => (event.1, event.2.map f)) = openName? id history := by
  unfold openName?
  rw [List.foldl_map]
  congr
  funext last event
  obtain ⟨call, a⟩ := event
  cases call <;> cases a <;> rfl

/-- A call names the sessions that it opens, and leaves all other names. -/
theorem Transition.name_eq (ht : Transition r call r' a) (id : SensorId) :
    (r'.session? id).map (·.name) = nameAfter id ((r.session? id).map (·.name)) (call, a) := by
  cases ht with
  | refused _ => cases call <;> rfl
  | @opened opened name _ _ =>
    rw [session?_put, nameAfter]
    split <;> rfl
  | @closed closed s _ =>
    rw [session?_drop, nameAfter]
    split <;> rfl
  | cached _ _ => rfl
  | @loaded loaded _ _ s image present _ _ =>
    have hs : s.id = loaded := id_of_session? present
    show _ = (r.session? id).map (·.name)
    rw [session?_put]
    split
    next hid =>
      -- A load changes nothing of the name.
      obtain rfl : loaded = id := hs.symm.trans hid
      rw [present]
      rfl
    next => rfl

/-- An open session has the name that its sensor was opened with last. -/
theorem name_run (limits : Limits) (maxSessions : Nat) (calls : List SessionCall) (id : SensorId) :
    let new : Registry := { limits, maxSessions }
    ((new.run calls).session? id).map (·.name) = openName? id (new.history calls) := by
  intro new
  induction calls using List.reverseRecOn with
  | nil => rfl
  | append_singleton calls call ih =>
    rw [run_concat, history_concat, openName?, List.foldl_append, List.foldl_cons, List.foldl_nil,
      ← openName?, ← ih]
    exact (transition _ call).name_eq id

end Registry

end SensorScript
