-- A container of regions. While it has no model it reports a size by a ratio and places
-- nothing; from its first completed setup on it measures and places with the active model.
import RegionLayout.Setups
import RegionLayout.Sizing.Pass
import RegionLayout.Sizing.ByRatio
import RegionLayout.Source

namespace RegionLayout

open Log

structure Container (R : Type) where
  settings : Settings R
  names : NameTable
  setups : Setups R

/-- A setup that a worker still has to build. -/
structure Ticket where
  epoch : Nat
  texts : List String
deriving Repr, DecidableEq

namespace Container

variable {R : Type} [Scalar R]

/-- A container without a model. -/
def new (settings : Settings R) (telemetry : Telemetry) (names : NameTable) :
    Except LayoutError (Container R) := do
  settings.validate
  return { settings, names, setups := { telemetry } }

def active? (c : Container R) : Option (Model R) := c.setups.active?

def telemetry (c : Container R) : Telemetry := c.setups.telemetry

/-! ## Setups -/

/-- Lets the setups do something. -/
def onSetups {α : Type} (s : Setups.Step R α) : StateM (Container R) α :=
  modifyGet fun c =>
    let (a, setups) := s c.setups
    (a, { c with setups })

/-- The model of a list of statements under the container's settings. -/
def build (c : Container R) (texts : List String) : Except LayoutError (Model R) :=
  Model.build (some texts) c.settings.density Solver.defaultLimit

/-- Opens an attempt for a worker. -/
def setupAsync (texts : List String) : StateM (Container R) Ticket := do
  return ⟨← onSetups Setups.begin, texts⟩

/-- Lets a worker build what its ticket says. -/
def join (t : Ticket) : StateM (Container R) Unit := do
  let built := (← get).build t.texts
  onSetups (Setups.finishWorker t.epoch built)

/-- Builds on the caller's thread. -/
def setupSync (texts : List String) : StateM (Container R) (Except LayoutError Unit) := do
  let built := (← get).build texts
  return (← onSetups (Setups.runSync built)).map fun _ => ()

/-- Sets the container up as its settings say; a worker's setup has a ticket. -/
def setUp (texts : Option (List String)) :
    StateM (Container R) (Except LayoutError (Option Ticket)) := do
  match texts with
  | none => return .error (.configuration .noSource)
  | some texts =>
    if (← get).settings.asyncSetup then return .ok (some (← setupAsync texts))
    else return (← setupSync texts).map fun _ => none

/-- A container set up from a source. -/
def ofSource (source : Source) (settings : Settings Float) (telemetry : Telemetry)
    (names : NameTable) : Except LayoutError (Option Ticket × Container Float) := do
  let texts ← source.statements
  let c ← new (source.apply settings) telemetry names
  let (ticket, c) := (setUp (some texts)).run c
  return (← ticket, c)

def setRatio (x : R) : StateM (Container R) (Except LayoutError Unit) := do
  match Settings.checkRatio x with
  | .ok () =>
    modify fun c => { c with settings := { c.settings with aspectRatio := x } }
    return .ok ()
  | .error e => return .error e

/-! ## Passes -/

def onTelemetry (c : Container R) (f : Telemetry → Telemetry) : Container R :=
  { c with setups := c.setups.onTelemetry f }

def record (c : Container R) (f : Metrics → Metrics) : Container R := c.onTelemetry (·.record f)

def setting (c : Container R) : Sizing.Setting := ⟨c.names, c.settings.padding⟩

/-- Part of a pass over a model, which is or becomes the active one. -/
def onModel {α : Type} (c : Container R) (m : Model R) (w : Sizing.Work R α) :
    Except LayoutError α × Container R :=
  let (answer, p) := w ⟨m, c.telemetry.logger⟩
  let c := { c with setups := c.setups.setActive p.model }
  (answer, c.onTelemetry (·.onLogger fun _ => p.logger))

/-- The size a container without a model reports. -/
def measurePlaceholder (c : Container R) (width height : MeasureSpec) : Size × Container R :=
  let size := sizeByRatio width height c.settings.aspectRatio
  let c := c.record Metrics.recordPlaceholderMeasure
  (size, c.onTelemetry (·.emit .debug .measure "placeholder_measure"
    [("width_spec", .text width.text), ("height_spec", .text height.text),
      ("width", .integer size.width), ("height", .integer size.height)]))

/-- The size the container reports. The host may look at the container while it measures its
children. -/
def measure {σ : Type} (children : List Sizing.Child) (width height : MeasureSpec)
    (host : Container R → Handle → MeasureSpec → MeasureSpec → StateM σ Size)
    (c : Container R) (h : σ) : Except LayoutError Size × Container R × σ :=
  match c.active? with
  | none =>
    let (size, c) := c.measurePlaceholder width height
    (.ok size, c, h)
  | some m =>
    match c.onModel m (Sizing.begin c.setting children width height) with
    | (.error e, c) => (.error e, c, h)
    | (.ok plan, c) =>
      let (plan, h) := plan.run (host c) h
      match c.onModel (c.active?.getD m) (Sizing.finish c.setting plan) with
      | (.error e, c) => (.error e, c, h)
      | (.ok report, c) =>
        let c := c.record Metrics.recordSolvedMeasure
        let c := c.record (Metrics.recordSolves report.solves)
        (.ok report.size, c.record (Metrics.recordIntrinsicEdits report.intrinsicEdits), h)

/-- Solves, and places the visible children. -/
def layout (children : List Sizing.Child) (c : Container R) :
    Except LayoutError (List Sizing.Placement) × Container R :=
  match c.active? with
  | none => (.ok [], c)
  | some m =>
    match c.onModel m (Sizing.place c.setting children) with
    | (.error e, c) => (.error e, c)
    | (.ok placements, c) =>
      let solves := (c.active?.getD m).solves - m.solves
      (.ok placements, (c.record Metrics.recordLayout).record (Metrics.recordSolves solves))

/-- Where the visible children were at the last solve. -/
def positions (children : List Sizing.Child) (c : Container R) :
    Except LayoutError (List Sizing.Placement) × Container R :=
  match c.active? with
  | none => (.ok [], c)
  | some m => c.onModel m (Sizing.positions c.setting children)

/-- The geometry of a child as of the last solve. -/
def geometryOf (c : Container R) (h : Handle) : Except LayoutError (RegionGeometry R) := do
  match c.active? with
  | none => throw .setupIncomplete
  | some m => m.geometry (← c.names.nameOf h)

/-- Logs the counters. -/
def emitMetrics (c : Container R) : Container R := c.onTelemetry Telemetry.emitMetrics

end Container

end RegionLayout
