-- What a pass or a setup has to report, and the line of JSON it is written as.
import RegionLayout.Json

namespace RegionLayout.Log

inductive Level where
  | trace
  | debug
  | info
  | warn
  | error
deriving Repr, DecidableEq

namespace Level

/-- The place in the order of weight, the lightest first. -/
def rank (l : Level) : Nat := l.ctorIdx

def name : Level → String
  | trace => "trace"
  | debug => "debug"
  | info => "info"
  | warn => "warn"
  | error => "error"

def ofName? : String → Option Level
  | "trace" => some trace
  | "debug" => some debug
  | "info" => some info
  | "warn" => some warn
  | "error" => some error
  | _ => none

theorem ofName?_name (l : Level) : ofName? l.name = some l := by cases l <;> rfl

end Level

/-! ## Targets -/

/-- The part of the library an event comes from. -/
inductive Topic where
  | setup
  | measure
  | layout
  | metrics
deriving Repr, DecidableEq

def Topic.target : Topic → String
  | setup => "cassowary::setup"
  | measure => "cassowary::measure"
  | layout => "cassowary::layout"
  | metrics => "cassowary::metrics"

/-! ## Events -/

structure Event where
  /-- Milliseconds since the clock's epoch. -/
  time : Nat
  level : Level
  target : String
  message : String
  fields : SortedMap String Json := ∅

namespace Event

def field? (e : Event) (key : String) : Option Json := e.fields.get? key

/-- The event as a JSON object. Without fields it has no member for them. -/
def toJson (e : Event) : Json :=
  let head := [("ts_ms", Json.ofNat e.time), ("level", .text e.level.name),
    ("target", .text e.target), ("message", .text e.message)]
  .object (if e.fields.isEmpty then head else head ++ [("fields", .object e.fields.entries)])

/-- The event as one line, without its line end. -/
def line (e : Event) : String := e.toJson.render

end Event

end RegionLayout.Log
