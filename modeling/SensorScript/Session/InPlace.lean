/-
SensorScript.Session.InPlace — open sessions in a table that is changed in place.

`Registry` keeps its sessions in the order of their ids, and what was loaded
into one of them in one piece. A driver that writes to its sessions keeps them
under their ids in a table without an order, and sets the image, the digest,
the time and the number of reloads one after the other. Here are the calls
with their guards and writes in the order such a driver makes them.
-/
import Mathlib.Init
import SensorScript.Session

namespace SensorScript

instance : Hashable SensorId := ⟨fun id => hash id.number⟩

/-- The state of one open sensor, with each part of it on its own. -/
structure OpenSession where
  id : SensorId
  name : Text
  image? : Option Image := none
  /-- Hash of the source of the image. -/
  digest? : Option Bytes := none
  /-- When the script was loaded. -/
  loadedAt? : Option Nat := none
  /-- Number of scripts loaded since the sensor was opened. -/
  reloads : Nat := 0
  deriving DecidableEq

/-- Open sessions, each under an id. -/
structure SessionTable where
  limits : Limits := {}
  maxSessions : Nat := 8
  entries : Std.HashMap SensorId OpenSession := ∅

namespace SessionTable

/-- Changes the one table there is, or stops with an error and leaves the table
as far as it was changed. -/
abbrev Edit (α : Type) := EStateM SessionError SessionTable α

/-- The session of an open sensor. -/
def session? (t : SessionTable) (id : SensorId) : Option OpenSession := t.entries[id]?

/-- The image of an open sensor that has one. -/
def image? (t : SessionTable) (id : SensorId) : Option Image := (t.session? id).bind (·.image?)

/-- Number of open sensors. -/
def size (t : SessionTable) : Nat := t.entries.size

/-- The open sessions, in the order in which the table happens to keep them. -/
def values (t : SessionTable) : List OpenSession := t.entries.toList.map Prod.snd

/-- Some sessions in the order of their ids. -/
def sortById (ss : List OpenSession) : List OpenSession :=
  ss.mergeSort fun a b => a.id.number.toNat ≤ b.id.number.toNat

/-- All open sessions, in the order of their ids. -/
def sessions (t : SessionTable) : List OpenSession := sortById t.values

/-! ## §1 Writes -/

/-- Stores a session under an id that has none, and gives the one that is stored then. -/
def storeNew (id : SensorId) (s : OpenSession) : Edit OpenSession := do
  let t ← get
  let (stored?, entries) := t.entries.getThenInsertIfNew? id s
  set { t with entries }
  return stored?.getD s

/-- Takes the session of an id out of the table. -/
def remove? (id : SensorId) : Edit (Option OpenSession) := do
  let t ← get
  match t.session? id with
  | none => return none
  | some s =>
    set { t with entries := t.entries.erase id }
    return some s

def change (id : SensorId) (f : OpenSession → OpenSession) : Edit Unit :=
  modify fun t => { t with entries := t.entries.modify id f }

/-! ## §2 Calls -/

/-- Opens a sensor with no script loaded. -/
def openSensor (id : SensorId) (name : Text) : Edit OpenSession := do
  let t ← get
  if t.entries.contains id then
    throw (.alreadyOpen id)
  else if t.maxSessions ≤ t.size then
    throw (.registryFull t.maxSessions)
  else
    storeNew id { id, name }

/-- Closes a sensor and drops its image; gives the session as it was. -/
def closeSensor (id : SensorId) : Edit OpenSession := do
  match ← remove? id with
  | none => throw (.notOpen id)
  | some s => return s

/-- Makes an image and what belongs to it those of an open sensor. -/
def store (id : SensorId) (image : Image) (digest : Bytes) (time : Nat) : Edit Unit := do
  change id fun s => { s with image? := some image }
  change id fun s => { s with digest? := some digest }
  change id fun s => { s with loadedAt? := some time }
  change id fun s => { s with reloads := s.reloads + 1 }

/-- The image that an open sensor has. -/
def loadedImage (id : SensorId) : Edit Image := do
  match (← get).image? id with
  | none => throw (.notOpen id)
  | some image => return image

/-- Makes a source the script of an open sensor, at a given time. -/
def loadScript (id : SensorId) (source : Bytes) (time : Nat) : Edit Image := do
  let t ← get
  match t.session? id with
  | none => throw (.notOpen id)
  | some s =>
    let digest := Blake3.hash source
    unless s.digest? = some digest ∧ s.image?.isSome do
      match assemble source t.limits with
      | .error e => throw (.script id e)
      | .ok image => store id image digest time
    loadedImage id

end SessionTable

end SensorScript
