-- What a container and its setups report to: a logger and counters, either of which may be
-- left out.
import RegionLayout.Log
import RegionLayout.Metrics

namespace RegionLayout

structure Telemetry where
  logger : Option Logger := none
  metrics : Option Metrics := none

/-- Logs through a logger, if there is one. -/
def Logger.emit? (l : Option Logger) (level : Log.Level) (topic : Log.Topic) (message : String)
    (fields : List (String × Json)) : Option Logger :=
  l.map fun l => l.log level topic.target message fields

namespace Telemetry

def onLogger (t : Telemetry) (f : Option Logger → Option Logger) : Telemetry :=
  { t with logger := f t.logger }

def emit (t : Telemetry) (level : Log.Level) (topic : Log.Topic) (message : String)
    (fields : List (String × Json)) : Telemetry :=
  t.onLogger fun l => Logger.emit? l level topic message fields

def record (t : Telemetry) (f : Metrics → Metrics) : Telemetry :=
  { t with metrics := t.metrics.map f }

/-- Logs the counters. -/
def emitMetrics (t : Telemetry) : Telemetry :=
  match t.metrics with
  | some m => t.onLogger (·.map fun l => l.logEvent (m.event l.now Log.Topic.metrics.target))
  | none => t

/-- The telemetry with the events so far forgotten. -/
def forget (t : Telemetry) : Telemetry := t.onLogger (·.map Logger.forget)

end Telemetry

end RegionLayout
