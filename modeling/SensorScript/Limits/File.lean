/-
SensorScript.Limits.File — the limits that a JSON limits file gives.

An object gives limits by name. Names it does not give keep their defaults,
names that are no limit are passed over, and giving a limit twice is an error.
An array gives the first limits in order. A limit is a natural number of
64 bits.
-/
import SensorScript.Json
import SensorScript.Limits

namespace SensorScript.Limits

/-- The number that a limit's value is. -/
def natural? : Json → Option Nat
  | .number (some n) => if n < UInt64.size then some n else none
  | _ => none

/-- Sets the limits that `given` lists in order. -/
def ofItems? : List Entry → List Json → Limits → Option Limits
  | _, [], l => some l
  | [], _ :: _, _ => none
  | e :: es, item :: items, l => do
    let n ← natural? item
    ofItems? es items (e.set n l)

/-- Sets the limits that members name; `es` are the limits not yet given. -/
def ofMembers? : List Entry → List (Option Text × Json) → Limits → Option Limits
  | _, [], l => some l
  | _, (none, _) :: _, _ => none
  | es, (some key, value) :: members, l =>
    match entries.find? (fun e => e.name.toList = key) with
    | none => ofMembers? es members l
    | some e =>
      if es.any (fun e' => e'.name = e.name) then do
        let n ← natural? value
        ofMembers? (es.filter fun e' => e'.name ≠ e.name) members (e.set n l)
      else none

/-- Limits that a JSON value gives. -/
def ofJson? : Json → Option Limits
  | .array items => ofItems? entries items {}
  | .object members => ofMembers? entries members {}
  | _ => none

/-- Limits that the text of a limits file gives. -/
def read? (text : Text) : Option Limits := do
  let json ← Json.read? text
  ofJson? json

end SensorScript.Limits
