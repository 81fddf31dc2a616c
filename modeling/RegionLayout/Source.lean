-- A constraint source: the statements of a container with the settings that go with them, as
-- one JSON text holds them.
import RegionLayout.Json.Reader
import RegionLayout.Settings

namespace RegionLayout

structure Source where
  constraints : Option (List String) := none
  asyncSetup : Bool := true
  aspectRatio : Float := 1
  density : Float := 1

namespace Source

open Json

/-! ## Reading -/

/-- The members read so far. -/
structure Draft where
  constraints : Option (Option (List String)) := none
  asyncSetup : Option Bool := none
  aspectRatio : Option Float := none
  density : Option Float := none

/-- The source of a draft. What was not there has its standard value. -/
def Draft.source (d : Draft) : Source where
  constraints := d.constraints.getD none
  asyncSetup := d.asyncSetup.getD true
  aspectRatio := d.aspectRatio.getD 1
  density := d.density.getD 1

def readConstraints : Reader (Option (List String)) := readOption (readList readText)

/-- The value after a key. A key must not come twice. -/
def readOnce {α : Type} (old : Option α) (value : Reader α) : Reader (Option α) := do
  if old.isSome then throw .mismatched
  colon
  return some (← value)

/-- The members that are left of an object, its brace included. Unknown ones are passed over. -/
def readMembers : Nat → Bool → Draft → Reader Draft
  | 0, _, _ => throw .malformed
  | turns + 1, first, d => do
    if !(← hasMember first) then
      advance
      return d
    advance
    let key ← quoted
    let d ← match key with
      | "constraints" => do pure { d with constraints := ← readOnce d.constraints readConstraints }
      | "asyncSetup" => do pure { d with asyncSetup := ← readOnce d.asyncSetup readBool }
      | "preSetupAspectRatio" => do
        pure { d with aspectRatio := ← readOnce d.aspectRatio readReal }
      | "density" => do pure { d with density := ← readOnce d.density readReal }
      | _ => do
        colon
        skip (2 * (← get).length + 2)
        pure d
    readMembers turns false d

/-- An element of a list, if there is one. -/
def readElement {α : Type} (first : Bool) (value : Reader α) : Reader (Option α) := do
  if ← hasElement first then return some (← value) else return none

/-- The values in their order. The last ones may be left out. -/
def readElements : Reader Draft := do
  let constraints ← readElement true readConstraints
  if constraints.isNone then return {}
  let asyncSetup ← readElement false readBool
  if asyncSetup.isNone then return { constraints }
  let aspectRatio ← readElement false readReal
  if aspectRatio.isNone then return { constraints, asyncSetup }
  return { constraints, asyncSetup, aspectRatio, density := ← readElement false readReal }

def reader : Reader Source := do
  match ← start with
  | '\x7b' =>
    advance
    return (← readMembers ((← get).length + 1) true {}).source
  | '[' =>
    advance
    let d ← readElements
    closeList
    return d.source
  | _ => mismatch

/-- Reads a source from an object, or from a list of its values in order. -/
def read (text : String) : Except Flaw Source := readAll reader text

/-! ## Using -/

def toJson (s : Source) : Json :=
  .object
    [("constraints", match s.constraints with
        | some texts => .array (texts.map .text)
        | none => .null),
      ("asyncSetup", .bool s.asyncSetup),
      ("preSetupAspectRatio", .real s.aspectRatio),
      ("density", .real s.density)]

/-- The statements that a container must have. -/
def statements (s : Source) : Except LayoutError (List String) :=
  match s.constraints with
  | some texts => .ok texts
  | none => .error (.configuration .sourceWithoutConstraints)

/-- The settings with those of the source in place of theirs. -/
def apply (s : Source) (settings : Settings Float) : Settings Float :=
  { settings with
    asyncSetup := s.asyncSetup, aspectRatio := s.aspectRatio, density := s.density }

end Source

end RegionLayout
