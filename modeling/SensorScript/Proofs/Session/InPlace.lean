/-
SensorScript.Proofs.Session.InPlace — a table of sessions is a registry.

Every guard of a call stands before its first write, so a call that is refused
leaves the table as it was. `Shows` ties a table to the registry with the same
sessions: the same calls get the same answers from both, and what holds of the
registry holds of the table.

  §1 what a call does to the table;
  §2 calls and their answers;
  §3 the registry that a table shows;
  §4 the sessions of the table;
  §5 runs.
-/
import SensorScript.Session.InPlace
import SensorScript.Proofs.Session.Invariant

namespace SensorScript

/-- The session after a load, with all that belongs to it set. -/
def OpenSession.load (s : OpenSession) (l : Loaded) : OpenSession :=
  { s with
    image? := some l.image
    digest? := some l.digest
    loadedAt? := some l.time
    reloads := s.reloads + 1 }

/-- The image of a session that has one with this digest. -/
def OpenSession.cached? (s : OpenSession) (digest : Bytes) : Option Image :=
  if s.digest? = some digest then s.image? else none

namespace SessionTable

/-! ## §1 What a call does to the table -/

section
variable (t : SessionTable) (id id' : SensorId)

/-- The table with a session under an id that has none. -/
def withNew (s : OpenSession) : SessionTable := { t with entries := t.entries.insertIfNew id s }

def without : SessionTable := { t with entries := t.entries.erase id }

/-- The table with one session changed. -/
def changed (f : OpenSession → OpenSession) : SessionTable :=
  { t with entries := t.entries.modify id f }

/-- The table after all writes of a load. -/
def withLoaded (l : Loaded) : SessionTable :=
  t.changed id (fun s => { s with image? := some l.image })
    |>.changed id (fun s => { s with digest? := some l.digest })
    |>.changed id (fun s => { s with loadedAt? := some l.time })
    |>.changed id (fun s => { s with reloads := s.reloads + 1 })

theorem mem_entries_iff : id ∈ t.entries ↔ (t.session? id).isSome :=
  Std.HashMap.mem_iff_isSome_getElem?

theorem session?_withNew (s : OpenSession) (h : t.session? id = none) :
    (t.withNew id s).session? id' = if id = id' then some s else t.session? id' := by
  have hmem : ¬ id ∈ t.entries := by simp [mem_entries_iff, h]
  show (t.entries.insertIfNew id s)[id']? = _
  rw [Std.HashMap.getElem?_insertIfNew]
  simp only [beq_iff_eq, hmem, not_false_eq_true, and_true]
  rfl

theorem session?_without :
    (t.without id).session? id' = if id = id' then none else t.session? id' := by
  simp [session?, without, Std.HashMap.getElem?_erase]

theorem session?_changed (f : OpenSession → OpenSession) :
    (t.changed id f).session? id' = if id = id' then (t.session? id).map f else t.session? id' := by
  simp [session?, changed, Std.HashMap.getElem?_modify]

theorem session?_withLoaded (l : Loaded) :
    (t.withLoaded id l).session? id' =
      if id = id' then (t.session? id).map (·.load l) else t.session? id' := by
  by_cases h : id = id'
  · subst h
    simp [withLoaded, session?_changed, OpenSession.load, Function.comp_def]
  · simp [withLoaded, session?_changed, h]

theorem limits_withLoaded (l : Loaded) : (t.withLoaded id l).limits = t.limits := by
  simp only [withLoaded, changed]

theorem maxSessions_withLoaded (l : Loaded) : (t.withLoaded id l).maxSessions = t.maxSessions := by
  simp only [withLoaded, changed]

theorem size_withLoaded (l : Loaded) : (t.withLoaded id l).size = t.size := by
  simp [withLoaded, changed, size, Std.HashMap.size_modify]

/-- The table is looked at, and nothing changes. -/
theorem get_bind {α : Type} (f : SessionTable → Edit α) : (get >>= f) t = f t t := rfl

theorem openSensor_eq (name : Text) :
    openSensor id name t =
      if (t.session? id).isSome then .error (.alreadyOpen id) t
      else if t.maxSessions ≤ t.size then .error (.registryFull t.maxSessions) t
      else .ok { id, name } (t.withNew id { id, name }) := by
  show (if t.entries.contains id then _ else if t.maxSessions ≤ t.size then _ else _ : Edit _) t = _
  rw [Std.HashMap.contains_eq_isSome_getElem?]
  show (if (t.session? id).isSome then _ else _ : Edit _) t = _
  split
  next => rfl
  next habsent =>
    split
    next => rfl
    next =>
      have h : t.entries[id]? = none := by simpa [session?] using habsent
      show EStateM.Result.ok ((t.entries.getThenInsertIfNew? id { id, name }).1.getD { id, name })
        { t with entries := (t.entries.getThenInsertIfNew? id { id, name }).2 } = _
      rw [Std.HashMap.getThenInsertIfNew?_fst, Std.HashMap.getThenInsertIfNew?_snd, h]
      rfl

theorem remove?_eq :
    remove? id t =
      match t.session? id with
      | none => .ok none t
      | some s => .ok (some s) (t.without id) := by
  rw [remove?, get_bind]
  cases t.session? id <;> rfl

theorem closeSensor_eq :
    closeSensor id t =
      match t.session? id with
      | none => .error (.notOpen id) t
      | some s => .ok s (t.without id) := by
  show EStateM.bind (remove? id) _ t = _
  rw [EStateM.bind, remove?_eq]
  cases t.session? id <;> rfl

theorem loadedImage_eq (image : Image) (h : t.image? id = some image) :
    loadedImage id t = .ok image t := by
  rw [loadedImage, get_bind, h]
  rfl

theorem store_eq (image : Image) (digest : Bytes) (time : Nat) :
    store id image digest time t = .ok () (t.withLoaded id ⟨image, digest, time⟩) := rfl

theorem loadScript_eq (source : Bytes) (time : Nat) :
    loadScript id source time t =
      match t.session? id with
      | none => .error (.notOpen id) t
      | some s =>
        match s.cached? (Blake3.hash source) with
        | some image => .ok image t
        | none =>
          match assemble source t.limits with
          | .error e => .error (.script id e) t
          | .ok image => .ok image (t.withLoaded id ⟨image, Blake3.hash source, time⟩) := by
  rw [loadScript, get_bind]
  cases hs : t.session? id with
  | none => rfl
  | some s =>
    simp only
    generalize Blake3.hash source = digest
    by_cases hhit : s.digest? = some digest ∧ s.image?.isSome
    · obtain ⟨image, himage⟩ := Option.isSome_iff_exists.mp hhit.2
      have hc : s.cached? digest = some image := by rw [OpenSession.cached?, if_pos hhit.1, himage]
      rw [if_pos hhit, hc]
      exact loadedImage_eq t id image (by simp [image?, hs, himage])
    · have hc : s.cached? digest = none := by
        by_cases hd : s.digest? = some digest
        · simpa [OpenSession.cached?, hd] using hhit
        · simp [OpenSession.cached?, hd]
      rw [if_neg hhit, hc]
      cases assemble source t.limits with
      | error e => rfl
      | ok image =>
        show EStateM.bind (store id image digest time) (fun _ => loadedImage id) t = _
        rw [EStateM.bind, store_eq]
        exact loadedImage_eq _ id image (by simp [image?, session?_withLoaded, hs, OpenSession.load])

end

/-! ## §2 Calls and their answers -/

/-- What a successful call gives: a session, or the image of a load. -/
inductive Reply where
  | session (s : OpenSession)
  | image (image : Image)
  deriving DecidableEq

abbrev Answer := Except SessionError Reply

/-- Carries out a call. -/
def call : SessionCall → Edit Reply
  | .openSensor id name => .session <$> openSensor id name
  | .closeSensor id => .session <$> closeSensor id
  | .loadScript id source time => .image <$> loadScript id source time

/-- The table after a call. -/
def after (t : SessionTable) (c : SessionCall) : SessionTable :=
  match call c t with
  | .ok _ t' | .error _ t' => t'

/-- What is answered to a call. -/
def answer (t : SessionTable) (c : SessionCall) : Answer :=
  match call c t with
  | .ok reply _ => .ok reply
  | .error e _ => .error e

/-- The table after some calls. -/
def run (t : SessionTable) (calls : List SessionCall) : SessionTable := calls.foldl after t

/-- Some calls and what is answered to them, one after the other. -/
def history (t : SessionTable) : List SessionCall → List (SessionCall × Answer)
  | [] => []
  | call :: calls => (call, t.answer call) :: (t.after call).history calls

theorem map_apply {α β : Type} (f : α → β) (x : Edit α) (t : SessionTable) :
    (f <$> x) t =
      match x t with
      | .ok a t' => .ok (f a) t'
      | .error e t' => .error e t' := by
  show EStateM.map f x t = _
  rw [EStateM.map]
  cases x t <;> rfl

theorem answer_openSensor (t : SessionTable) (id : SensorId) (name : Text) :
    t.answer (.openSensor id name) =
      if (t.session? id).isSome then .error (.alreadyOpen id)
      else if t.maxSessions ≤ t.size then .error (.registryFull t.maxSessions)
      else .ok (.session { id, name }) := by
  rw [answer, call, map_apply, openSensor_eq]
  by_cases hopen : (t.session? id).isSome
  · simp [hopen]
  · by_cases hfull : t.maxSessions ≤ t.size <;> simp [hopen, hfull]

theorem answer_closeSensor (t : SessionTable) (id : SensorId) :
    t.answer (.closeSensor id) =
      match t.session? id with
      | none => .error (.notOpen id)
      | some s => .ok (.session s) := by
  rw [answer, call, map_apply, closeSensor_eq]
  cases t.session? id <;> rfl

/-- A call that is refused leaves the table as it was. -/
theorem after_eq_of_answer_eq_error {t : SessionTable} {c : SessionCall} {e : SessionError}
    (h : t.answer c = .error e) : t.after c = t := by
  unfold answer at h
  unfold after
  cases c with
  | openSensor id name =>
    simp only [call, map_apply, openSensor_eq] at h ⊢
    grind
  | closeSensor id =>
    simp only [call, map_apply, closeSensor_eq] at h ⊢
    grind
  | loadScript id source time =>
    simp only [call, map_apply, loadScript_eq] at h ⊢
    grind

/-! ## §3 The registry that a table shows -/

end SessionTable

/-- A session of a registry, with each part of it on its own. -/
def Session.parts (s : Session) : OpenSession where
  id := s.id
  name := s.name
  image? := s.image?
  digest? := s.digest?
  loadedAt? := s.loadedAt?
  reloads := s.reloads

theorem Session.cached?_parts (s : Session) (digest : Bytes) :
    s.parts.cached? digest = Registry.cached? s digest := by
  cases h : s.loaded with
  | none => simp [OpenSession.cached?, Registry.cached?, parts, digest?, image?, h]
  | some l => simp [OpenSession.cached?, Registry.cached?, parts, digest?, image?, h]

def SessionReply.parts : SessionReply → SessionTable.Reply
  | .session s => .session s.parts
  | .image i => .image i

namespace SessionTable

/-- A table has the sessions of a registry. -/
structure Shows (t : SessionTable) (r : Registry) : Prop where
  limits_eq : t.limits = r.limits
  maxSessions_eq : t.maxSessions = r.maxSessions
  session?_eq : ∀ id, t.session? id = (r.session? id).map Session.parts
  size_eq : t.size = r.size

namespace Shows

variable {t : SessionTable} {r r' : Registry} {c : SessionCall} {a : Registry.Answer}
variable {s : Session} {id : SensorId}

theorem withNew (h : Shows t r) (hr : r.Sound) (hs : r.session? s.id = none) :
    Shows (t.withNew s.id s.parts) (r.put s) where
  limits_eq := h.limits_eq
  maxSessions_eq := h.maxSessions_eq
  session?_eq id := by
    have habsent : t.session? s.id = none := by simp [h.session?_eq, hs]
    rw [session?_withNew _ _ _ _ habsent, Registry.session?_put, h.session?_eq]
    split <;> rfl
  size_eq := by
    have hmem : ¬ s.id ∈ t.entries := by simp [mem_entries_iff, h.session?_eq, hs]
    rw [Registry.size_put_of_none hr.ordered hs, ← h.size_eq]
    simp [SessionTable.withNew, size, Std.HashMap.size_insertIfNew, hmem]

theorem without (h : Shows t r) (hr : r.Sound) (hs : r.session? id = some s) :
    Shows (t.without id) (r.drop id) where
  limits_eq := h.limits_eq
  maxSessions_eq := h.maxSessions_eq
  session?_eq id' := by
    rw [session?_without, Registry.session?_drop, h.session?_eq]
    split <;> rfl
  size_eq := by
    have hmem : id ∈ t.entries := by simp [mem_entries_iff, h.session?_eq, hs]
    have hdrop := Registry.size_drop hr.ordered hs
    have hsize : (t.without id).size = t.size - 1 := by
      simp [SessionTable.without, size, Std.HashMap.size_erase, hmem]
    rw [hsize, h.size_eq]
    omega

theorem withLoaded (h : Shows t r) (hr : r.Sound) (hs : r.session? id = some s) (l : Loaded) :
    Shows (t.withLoaded id l) (r.put (s.load l)) where
  limits_eq := (limits_withLoaded t id l).trans h.limits_eq
  maxSessions_eq := (maxSessions_withLoaded t id l).trans h.maxSessions_eq
  session?_eq id' := by
    obtain rfl : s.id = id := Registry.id_of_session? hs
    rw [session?_withLoaded, Registry.session?_put, h.session?_eq, h.session?_eq, hs]
    show _ = Option.map _ (if s.id = id' then _ else _)
    split <;> rfl
  size_eq := by rw [size_withLoaded, Registry.size_put_load hr.ordered hs, h.size_eq]

/-- A call that the registry refuses is refused for the same reason. -/
theorem answer_of_refusal {e : SessionError} (h : Shows t r) (cause : r.Refusal c e) :
    t.answer c = .error e := by
  cases cause with
  | alreadyOpen present =>
    simp [answer, call, map_apply, openSensor_eq, h.session?_eq, present]
  | registryFull absent full =>
    simp [answer, call, map_apply, openSensor_eq, h.session?_eq, absent, h.maxSessions_eq,
      h.size_eq, full]
  | close absent => simp [answer, call, map_apply, closeSensor_eq, h.session?_eq, absent]
  | load absent => simp [answer, call, map_apply, loadScript_eq, h.session?_eq, absent]
  | script present fresh failed =>
    simp [answer, call, map_apply, loadScript_eq, h.session?_eq, present,
      Session.cached?_parts, fresh, h.limits_eq, failed]

/-- A call of the table does and answers what the call of the registry does. -/
theorem step (h : Shows t r) (hr : r.Sound) (ht : r.Transition c r' a) :
    Shows (t.after c) r' ∧ t.answer c = a.map SessionReply.parts := by
  cases ht with
  | refused cause =>
    have ha := h.answer_of_refusal cause
    rw [after_eq_of_answer_eq_error ha]
    exact ⟨h, ha⟩
  | @opened id name absent room =>
    have hc : call (.openSensor id name) t =
        .ok (.session { id, name }) (t.withNew id { id, name }) := by
      simp [call, map_apply, openSensor_eq, h.session?_eq, absent, h.maxSessions_eq, h.size_eq,
        Nat.not_le.mpr room]
    have hshows : Shows (t.withNew id { id, name }) (r.put { id, name }) :=
      h.withNew (s := { id, name }) hr absent
    rw [after, answer, hc]
    exact ⟨hshows, rfl⟩
  | @closed id s present =>
    have hc : call (.closeSensor id) t = .ok (.session s.parts) (t.without id) := by
      simp [call, map_apply, closeSensor_eq, h.session?_eq, present]
    rw [after, answer, hc]
    exact ⟨h.without hr present, rfl⟩
  | @cached id source time s image present hit =>
    have hc : call (.loadScript id source time) t = .ok (.image image) t := by
      simp [call, map_apply, loadScript_eq, h.session?_eq, present, Session.cached?_parts, hit]
    rw [after, answer, hc]
    exact ⟨h, rfl⟩
  | @loaded id source time s image present fresh compiled =>
    have hc : call (.loadScript id source time) t =
        .ok (.image image) (t.withLoaded id ⟨image, Blake3.hash source, time⟩) := by
      simp [call, map_apply, loadScript_eq, h.session?_eq, present, Session.cached?_parts, fresh,
        h.limits_eq, compiled]
    rw [after, answer, hc]
    exact ⟨h.withLoaded hr present _, rfl⟩

/-! ## §4 The sessions of the table -/

end Shows

theorem mem_values_iff {t : SessionTable} {s : OpenSession} :
    s ∈ t.values ↔ ∃ id, t.session? id = some s := by
  simp only [values, List.mem_map, Prod.exists, exists_eq_right, session?,
    Std.HashMap.mem_toList_iff_getElem?_eq_some]

namespace Shows

variable {t : SessionTable} {r : Registry}

theorem id_eq {id : SensorId} {s : OpenSession} (h : Shows t r) (hs : t.session? id = some s) :
    s.id = id := by
  rw [h.session?_eq] at hs
  obtain ⟨s, hfound, rfl⟩ := Option.map_eq_some_iff.mp hs
  exact Registry.id_of_session? hfound

theorem size_le (h : Shows t r) (hr : r.Sound) : t.size ≤ t.maxSessions := by
  rw [h.size_eq, h.maxSessions_eq]
  exact hr.size_le

/-- What a load sets is there exactly when a load was counted. -/
theorem loaded_iff {id : SensorId} {s : OpenSession} (h : Shows t r) (hr : r.Sound)
    (hs : t.session? id = some s) :
    (s.image?.isSome ↔ 0 < s.reloads) ∧ (s.digest?.isSome ↔ 0 < s.reloads) ∧
      (s.loadedAt?.isSome ↔ 0 < s.reloads) := by
  rw [h.session?_eq] at hs
  obtain ⟨s, hfound, rfl⟩ := Option.map_eq_some_iff.mp hs
  simpa [Session.parts, Session.image?, Session.digest?, Session.loadedAt?] using
    hr.loaded_iff id s hfound

/-- No two sessions of the table have one id. -/
theorem values_pairwise (h : Shows t r) : t.values.Pairwise fun a b => a.id ≠ b.id := by
  rw [values, List.pairwise_map]
  refine List.Pairwise.imp_of_mem ?_ t.entries.distinct_keys_toList
  rintro ⟨i, a⟩ ⟨j, b⟩ ha hb hne
  rw [Std.HashMap.mem_toList_iff_getElem?_eq_some] at ha hb
  simpa [h.id_eq ha, h.id_eq hb] using hne

theorem values_perm (h : Shows t r) (hr : r.Sound) :
    t.values.Perm (r.sessions.map Session.parts) := by
  have hnodup : t.values.Nodup := h.values_pairwise.imp fun hid heq => hid (congrArg _ heq)
  have hnodup' : (r.sessions.map Session.parts).Nodup := by
    rw [List.Nodup, List.pairwise_map]
    exact List.Pairwise.imp (fun hbefore heq =>
      SensorId.ne_of_before hbefore (congrArg OpenSession.id heq)) hr.ordered
  refine (List.perm_ext_iff_of_nodup hnodup hnodup').mpr fun s => ?_
  simp only [mem_values_iff, h.session?_eq, Option.map_eq_some_iff, List.mem_map]
  constructor
  · rintro ⟨id, s, hs, rfl⟩
    exact ⟨s, Registry.mem_of_session? hs, rfl⟩
  · rintro ⟨s, hs, rfl⟩
    exact ⟨s.id, s, hr.ordered.find?_eq_some hs, rfl⟩

/-- In whatever order the table keeps its sessions, sorted they are those of the registry. -/
theorem sortById_eq {order : List OpenSession} (h : Shows t r) (hr : r.Sound)
    (horder : order.Perm t.values) : sortById order = r.sessions.map Session.parts := by
  have hperm : (sortById order).Perm (r.sessions.map Session.parts) :=
    (List.mergeSort_perm _ _).trans (horder.trans (h.values_perm hr))
  have hsorted : (sortById order).Pairwise fun a b => a.id.number.toNat ≤ b.id.number.toNat := by
    simpa [sortById] using @List.pairwise_mergeSort _
      (fun a b : OpenSession => a.id.number.toNat ≤ b.id.number.toNat)
      (by simpa using fun a b c => Nat.le_trans) (by simp [Nat.le_total]) order
  have hordered : (r.sessions.map Session.parts).Pairwise fun a b =>
      a.id.number.toNat ≤ b.id.number.toNat := by
    rw [List.pairwise_map]
    exact List.Pairwise.imp (fun hbefore => Nat.le_of_lt (SensorId.before_iff.mp hbefore)) hr.ordered
  refine hperm.eq_of_pairwise (fun a b ha hb hab hba => ?_) hsorted hordered
  -- Sessions whose ids are not apart are one session.
  obtain ⟨s, hs, rfl⟩ := List.mem_map.mp (hperm.mem_iff.mp ha)
  obtain ⟨s', hs', rfl⟩ := List.mem_map.mp hb
  have hid : s.id = s'.id := SensorId.toNat_inj.mp (Nat.le_antisymm hab hba)
  rw [hr.ordered.eq_of_id_eq hs hs' hid]

theorem sessions_eq (h : Shows t r) (hr : r.Sound) :
    t.sessions = r.sessions.map Session.parts :=
  h.sortById_eq hr (.refl t.values)

theorem mem_sessions_iff {s : OpenSession} (h : Shows t r) (hr : r.Sound) :
    s ∈ t.sessions ↔ t.session? s.id = some s := by
  rw [h.sessions_eq hr, ← (h.values_perm hr).mem_iff, mem_values_iff]
  constructor
  · rintro ⟨id, hs⟩
    rwa [h.id_eq hs]
  · intro hs
    exact ⟨s.id, hs⟩

end Shows

/-! ## §5 Runs -/

/-- Calls of a table are answered as those of the registry that it shows, and leave
a table that shows what they leave of the registry. -/
theorem Shows.run {t : SessionTable} {r : Registry} (h : Shows t r) (hr : r.Sound)
    (calls : List SessionCall) :
    Shows (t.run calls) (r.run calls) ∧
      t.history calls =
        (r.history calls).map fun event => (event.1, event.2.map SessionReply.parts) := by
  induction calls generalizing t r with
  | nil => exact ⟨h, rfl⟩
  | cons c calls ih =>
    have ht := Registry.transition r c
    obtain ⟨hshows, hanswer⟩ := h.step hr ht
    obtain ⟨hrun, hhistory⟩ := ih hshows (hr.step ht)
    exact ⟨hrun, by simp [history, Registry.history, hanswer, hhistory]⟩

/-- A new table shows a new registry. -/
theorem shows_new (limits : Limits) (maxSessions : Nat) :
    Shows { limits, maxSessions } { limits, maxSessions } where
  limits_eq := rfl
  maxSessions_eq := rfl
  session?_eq id := by simp [session?, Registry.session?]
  size_eq := by simp [size, Registry.size]

/-- After any calls of a new table, whatever the limits and the number of sessions:

* the calls were answered as those of a new registry, and left the same sessions;
* there are at most `maxSessions` sessions, each under its own id, and each with an image,
  a digest and a time exactly when scripts were loaded into it;
* the name of a session is the one that its sensor was opened with last;
* in whatever order the table keeps its sessions, `sessions` are the open ones in strictly
  increasing order of their ids;
* opening a sensor is refused when it is open, and else when there are `maxSessions` sessions or
  more; closing one is refused when it is not open, and else gives its session;
* a call that is refused leaves the table as it was. -/
theorem holds_after_calls (limits : Limits) (maxSessions : Nat) (calls : List SessionCall) :
    let new : SessionTable := { limits, maxSessions }
    let registry : Registry := { limits, maxSessions }
    let t := new.run calls
    (new.history calls =
        (registry.history calls).map (fun event => (event.1, event.2.map SessionReply.parts)) ∧
      t.sessions = (registry.run calls).sessions.map Session.parts) ∧
    t.size ≤ maxSessions ∧
    (∀ id s, t.session? id = some s →
      s.id = id ∧ (s.image?.isSome ↔ 0 < s.reloads) ∧ (s.digest?.isSome ↔ 0 < s.reloads) ∧
        (s.loadedAt?.isSome ↔ 0 < s.reloads)) ∧
    (∀ id, (t.session? id).map (·.name) = Registry.openName? id (new.history calls)) ∧
    ((∀ order, order.Perm t.values → sortById order = t.sessions) ∧
      t.sessions.Pairwise (fun a b => a.id.before b.id) ∧
      ∀ s, s ∈ t.sessions ↔ t.session? s.id = some s) ∧
    (∀ id name, t.answer (.openSensor id name) =
      if (t.session? id).isSome then .error (.alreadyOpen id)
      else if maxSessions ≤ t.size then .error (.registryFull maxSessions)
      else .ok (.session { id, name })) ∧
    (∀ id, t.answer (.closeSensor id) =
      match t.session? id with
      | none => .error (.notOpen id)
      | some s => .ok (.session s)) ∧
    ∀ c e, t.answer c = .error e → t.after c = t := by
  intro new registry t
  have hsound : (registry.run calls).Sound := (Registry.sound_new limits maxSessions).run calls
  obtain ⟨hshows, hhistory⟩ : Shows t (registry.run calls) ∧ _ :=
    (shows_new limits maxSessions).run (Registry.sound_new limits maxSessions) calls
  have hmax : t.maxSessions = maxSessions :=
    hshows.maxSessions_eq.trans (Registry.maxSessions_run registry calls)
  refine ⟨⟨hhistory, hshows.sessions_eq hsound⟩, ?size, ?stored, ?names, ?ordered, ?opening,
    ?closing, ?refused⟩
  case size => exact hmax ▸ hshows.size_le hsound
  case stored => exact fun id s hs => ⟨hshows.id_eq hs, hshows.loaded_iff hsound hs⟩
  case names =>
    intro id
    rw [hhistory, Registry.openName?_map, ← Registry.name_run, hshows.session?_eq, Option.map_map]
    rfl
  case ordered =>
    refine ⟨fun order horder => ?_, ?_, fun s => hshows.mem_sessions_iff hsound⟩
    · rw [hshows.sessions_eq hsound, hshows.sortById_eq hsound horder]
    · rw [hshows.sessions_eq hsound]
      exact List.pairwise_map.mpr hsound.ordered
  case opening => exact fun id name => by rw [answer_openSensor, hmax]
  case closing => exact fun id => answer_closeSensor t id
  case refused => exact fun c e => after_eq_of_answer_eq_error

end SessionTable

end SensorScript
