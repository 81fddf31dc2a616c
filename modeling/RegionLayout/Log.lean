-- Loggers. A logger drops what is lighter than its level and hands the rest to a sink.
import RegionLayout.Log.Event
import RegionLayout.Log.File

namespace RegionLayout

open Log

namespace Log

/-- Where events go. -/
inductive Sink where
  /-- They are kept, the oldest first. -/
  | memory (events : List Event)
  | file (f : File)
  /-- They are forgotten. -/
  | nowhere

def Sink.log (s : Sink) (e : Event) : Sink :=
  match s with
  | memory events => memory (events ++ [e])
  | file f => file (f.append e.line)
  | nowhere => nowhere

end Log

structure Logger where
  sink : Sink
  minLevel : Level := .trace
  /-- The time that events are stamped with. -/
  now : Nat := 0

namespace Logger

/-- A logger that keeps every event. -/
def inMemory : Logger := { sink := .memory [] }

def enabled (l : Logger) (level : Level) : Bool := l.minLevel.rank ≤ level.rank

def logEvent (l : Logger) (e : Event) : Logger :=
  if l.enabled e.level then { l with sink := l.sink.log e } else l

/-- Logs a message. Of two fields with one key the later stands. -/
def log (l : Logger) (level : Level) (target message : String)
    (fields : List (String × Json)) : Logger :=
  l.logEvent ⟨l.now, level, target, message, .ofList fields⟩

/-- The events a sink has kept. -/
def events (l : Logger) : List Event :=
  match l.sink with
  | .memory events => events
  | _ => []

/-- The messages kept for a target. -/
def messagesFor (l : Logger) (target : String) : List String :=
  (l.events.filter fun e => e.target == target).map (·.message)

/-- The logger with nothing kept. -/
def forget (l : Logger) : Logger :=
  match l.sink with
  | .memory _ => { l with sink := .memory [] }
  | _ => l

def lines (l : Logger) : List String := l.events.map (·.line)

end Logger

end RegionLayout
