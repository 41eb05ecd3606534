/-
SensorScript.Session — which sensors are open and what script each one runs.

A registry keeps one session for every open sensor, up to a capacity. Loading
a script compiles it and makes its image the sensor's; loading the source that
is already loaded gives the image again without compiling. A load that fails
leaves the session as it was. Sessions are kept in the order of their ids.
-/
import SensorScript.Digest
import SensorScript.Program

namespace SensorScript

/-- Number of a physical sensor. -/
structure SensorId where
  number : UInt32
  deriving DecidableEq

namespace SensorId

def text (id : SensorId) : Text := '#' :: Numeral.decimal id.number.toNat

def before (a b : SensorId) : Bool := a.number.toNat < b.number.toNat

end SensorId

/-- A script that was compiled for a sensor. -/
structure Loaded where
  image : Image
  /-- Hash of the source of the image. -/
  digest : Bytes
  /-- When the script was loaded. -/
  time : Nat
  deriving DecidableEq

/-- The state of one open sensor. -/
structure Session where
  id : SensorId
  name : Text
  loaded : Option Loaded := none
  /-- Number of scripts loaded since the sensor was opened. -/
  reloads : Nat := 0
  deriving DecidableEq

namespace Session

def image? (s : Session) : Option Image := s.loaded.map (·.image)

def digest? (s : Session) : Option Bytes := s.loaded.map (·.digest)

def loadedAt? (s : Session) : Option Nat := s.loaded.map (·.time)

/-- The session after a successful load. -/
def load (s : Session) (l : Loaded) : Session :=
  { s with loaded := some l, reloads := s.reloads + 1 }

end Session

/-- Why a registry refuses a call. -/
inductive SessionError where
  | alreadyOpen (id : SensorId)
  | notOpen (id : SensorId)
  | registryFull (capacity : Nat)
  | script (id : SensorId) (error : AssembleError)
  deriving DecidableEq

def SessionError.message : SessionError → String
  | .alreadyOpen id => s!"sensor {id.text.toStr} is already open"
  | .notOpen id => s!"sensor {id.text.toStr} is not open"
  | .registryFull capacity => s!"session registry is full (capacity: {capacity})"
  | .script id error => s!"script for sensor {id.text.toStr} failed: {error.message}"

/-- The open sessions, in increasing order of their ids. -/
structure Registry where
  limits : Limits := {}
  maxSessions : Nat := 8
  sessions : List Session := []

namespace Registry

/-- What a call makes of the registry, and what it answers. -/
abbrev Outcome (α : Type) := Registry × Except SessionError α

/-! ## §1 Sessions by id -/

/-- The session of an open sensor. -/
def session? (r : Registry) (id : SensorId) : Option Session :=
  r.sessions.find? fun s => s.id = id

/-- The image of an open sensor that has one. -/
def image? (r : Registry) (id : SensorId) : Option Image := (r.session? id).bind (·.image?)

/-- Number of open sensors. -/
def size (r : Registry) : Nat := r.sessions.length

/-- Puts a session where its id belongs, in place of one with the same id. -/
def insert (s : Session) : List Session → List Session
  | [] => [s]
  | t :: ts =>
    if s.id = t.id then s :: ts
    else if s.id.before t.id then s :: t :: ts
    else t :: insert s ts

/-- The sessions without that of one id. -/
def erase (id : SensorId) (ts : List Session) : List Session := ts.filter fun s => s.id ≠ id

/-! ## §2 Calls -/

/-- Opens a sensor with no script loaded. -/
def openSensor (r : Registry) (id : SensorId) (name : Text) : Outcome Session :=
  if (r.session? id).isSome then (r, .error (.alreadyOpen id))
  else if r.maxSessions ≤ r.size then (r, .error (.registryFull r.maxSessions))
  else
    let s : Session := { id, name }
    ({ r with sessions := insert s r.sessions }, .ok s)

/-- Closes a sensor and drops its image; gives the session as it was. -/
def closeSensor (r : Registry) (id : SensorId) : Outcome Session :=
  match r.session? id with
  | none => (r, .error (.notOpen id))
  | some s => ({ r with sessions := erase id r.sessions }, .ok s)

/-- The image that a session already has of a source with this digest. -/
def cached? (s : Session) (digest : Bytes) : Option Image := do
  let l ← s.loaded
  if l.digest = digest then some l.image else none

/-- Makes a source the script of an open sensor, at a given time. -/
def loadScript (r : Registry) (id : SensorId) (source : Bytes) (time : Nat) : Outcome Image :=
  match r.session? id with
  | none => (r, .error (.notOpen id))
  | some s =>
    let digest := Blake3.hash source
    match cached? s digest with
    | some image => (r, .ok image)
    | none =>
      match assemble source r.limits with
      | .error e => (r, .error (.script id e))
      | .ok image =>
        ({ r with sessions := insert (s.load ⟨image, digest, time⟩) r.sessions }, .ok image)

end Registry

end SensorScript
