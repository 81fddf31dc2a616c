-- A measure pass and the placing of children. The container is tied to what its parent asks
-- and solved; each visible child is asked for its size; measured sizes go back into the model,
-- which is solved again. Placing solves once more and rounds to pixels.
import RegionLayout.Model
import RegionLayout.NameTable
import RegionLayout.Sizing.MeasureSpec
import RegionLayout.Telemetry

namespace RegionLayout.Sizing

open Log

/-- A child as a pass sees it. -/
structure Child where
  handle : Handle
  visible : Bool := true
deriving Repr, DecidableEq

/-- What one child is asked, and what it answered. -/
structure Request where
  handle : Handle
  name : String
  width : MeasureSpec
  height : MeasureSpec
  /-- Whether statements speak of its measured width. -/
  intrinsicWidth : Bool
  intrinsicHeight : Bool
  measured : Option Size := none
deriving Repr, DecidableEq

/-- The first half of a measure pass: every visible child has a request. -/
structure Plan where
  width : MeasureSpec
  height : MeasureSpec
  /-- How often the model had been solved before the pass. -/
  solvesBefore : Nat
  requests : List Request
deriving Repr, DecidableEq

/-- The outcome of a measure pass. -/
structure Report where
  /-- The size of the container, padding included. -/
  size : Size
  solves : Nat
  intrinsicEdits : Nat
  childrenMeasured : Nat
deriving Repr, DecidableEq

/-- Where a child goes, in the container's pixels. -/
structure Placement where
  handle : Handle
  name : String
  rect : Rect
deriving Repr, DecidableEq

/-- What a pass is given besides the model. -/
structure Setting where
  names : NameTable
  padding : Padding := .none

/-- What a pass works on. -/
structure Pass (R : Type) where
  model : Model R
  logger : Option Logger := none

/-- A part of a pass. One that fails keeps what it did before. -/
abbrev Work (R α : Type) := ExceptT LayoutError (StateM (Pass R)) α

/-- The children's answers, one question after the other. -/
def Plan.run {σ : Type} (p : Plan) (host : Handle → MeasureSpec → MeasureSpec → StateM σ Size) :
    StateM σ Plan := do
  let requests ← p.requests.mapM fun r => do
    return { r with measured := some (← host r.handle r.width r.height) }
  return { p with requests }

/-- The children that take part. -/
def visibleOf (children : List Child) : List Child := children.filter (·.visible)

variable {R : Type} [Scalar R]

/-! ## Steps -/

def emit (topic : Topic) (message : String) (fields : List (String × Json)) : Work R Unit :=
  modify fun p => { p with logger := Logger.emit? p.logger .debug topic message fields }

/-- Reads the model. -/
def ask {α : Type} (f : Model R → Except LayoutError α) : Work R α := do
  match f (← get).model with
  | .ok a => return a
  | .error e => throw e

/-- Changes the model. -/
def change {α : Type} (c : Model.Change R α) : Work R α := do
  let p ← get
  let (answer, model) := c p.model
  set { p with model }
  match answer with
  | .ok a => return a
  | .error e => throw e

def solve : Work R Unit := modify fun p => { p with model := p.model.solve }

/-- Ties one size of the container to what is asked of it. -/
def bindContainer (a : Attribute) (spec : MeasureSpec) : Work R Unit :=
  let value : R := Scalar.ofInt spec.size
  change <| match spec.mode with
    | .exact => Model.setTo containerName a value
    | .atMost => Model.setAtMost containerName a value
    | .unspecified => Model.release containerName a

/-- What one child is asked. Sizes that statements leave to the host are free, the others are
as solved; but under a parent of unspecified width no child may be wider than the container. -/
def requestOf (names : NameTable) (containerWidth : Int) (parentWidth parentHeight : MeasureMode)
    (c : Child) : Work R Request := do
  let name ← ask fun _ => names.nameOf c.handle
  let region ← ask (·.region name)
  let intrinsicWidth := region.hasIntrinsic .horizontal
  let intrinsicHeight := region.hasIntrinsic .vertical
  let geometry := (← get).model.geometryOf region
  let asSolved := if intrinsicWidth then .unspecified else .exact (Scalar.round geometry.width)
  let width := if parentWidth = .unspecified then .atMost containerWidth else asSolved
  let height := if intrinsicHeight then .unspecified else .exact (Scalar.round geometry.height)
  emit .measure "child_measure"
    [("child", .text name), ("width_spec", .text width.text), ("height_spec", .text height.text),
      ("parent_height_mode", .text parentHeight.name)]
  return { handle := c.handle, name, width, height, intrinsicWidth, intrinsicHeight }

/-- Ties the container to what is asked of it, solves, and asks for every visible child. -/
def begin (s : Setting) (children : List Child) (width height : MeasureSpec) : Work R Plan := do
  let solvesBefore := (← get).model.solves
  emit .measure "measure_start"
    [("width_spec", .text width.text), ("height_spec", .text height.text)]
  bindContainer .width (width.shrink s.padding.horizontal)
  bindContainer .height (height.shrink s.padding.vertical)
  solve
  let containerWidth ← ask fun m => return Scalar.round (← m.value containerName .width)
  let requests ← (visibleOf children).mapM
    (requestOf s.names containerWidth width.mode height.mode)
  return { width, height, solvesBefore, requests }

/-- Tells the model one measured size, if statements speak of it. Answers how many edits that
took. -/
def feed (name : String) (wanted : Bool) (axis : Axis) (measured : Int) : Work R Nat := do
  if !wanted then return 0
  if !(← change (Model.setIntrinsic name axis measured)) then return 0
  emit .measure "intrinsic_update"
    [("child", .text name), ("attribute", .text axis.intrinsic.name), ("value", .integer measured)]
  return 1

/-- Tells the model what a child has answered. -/
def feedRequest (r : Request) : Work R Nat := do
  match r.measured with
  | none => throw (.configuration (.unmeasuredChild r.name))
  | some size =>
    let edits ← feed r.name r.intrinsicWidth .horizontal size.width
    return edits + (← feed r.name r.intrinsicHeight .vertical size.height)

/-- An exact axis is as long as asked, any other as solved and padded. -/
def reportAxis (spec : MeasureSpec) (solved : R) (padding : Int) : Int :=
  if spec.isExact then spec.size else Number.wrapAround (Scalar.round solved + padding)

/-- Tells the model the measured sizes, solves again and reports. -/
def finish (s : Setting) (plan : Plan) : Work R Report := do
  let edits := (← plan.requests.mapM feedRequest).foldl (· + ·) 0
  let count := plan.requests.length
  emit .measure "children_measured" [("count", .ofNat count)]
  solve
  let width ← ask (·.value containerName .width)
  let height ← ask (·.value containerName .height)
  let size : Size :=
    ⟨reportAxis plan.width width s.padding.horizontal,
      reportAxis plan.height height s.padding.vertical⟩
  emit .measure "measure_complete"
    [("width", .integer size.width), ("height", .integer size.height),
      ("intrinsic_edits", .ofNat edits)]
  return { size, solves := (← get).model.solves - plan.solvesBefore, intrinsicEdits := edits,
           childrenMeasured := count }

/-! ## Passes -/

/-- One whole measure pass. The host's state goes along. -/
def measure {σ : Type} (s : Setting) (children : List Child) (width height : MeasureSpec)
    (host : Handle → MeasureSpec → MeasureSpec → StateM σ Size) (p : Pass R) (h : σ) :
    Except LayoutError Report × Pass R × σ :=
  match begin s children width height p with
  | (.error e, p) => (.error e, p, h)
  | (.ok plan, p) =>
    let (plan, h) := plan.run host h
    let (report, p) := finish s plan p
    (report, p, h)

/-- The rectangle of a region: each number is rounded on its own, and the padding moves it. -/
def rectOf (padding : Padding) (g : RegionGeometry R) : Rect :=
  ⟨Number.wrapAround (Scalar.round g.left + padding.left),
    Number.wrapAround (Scalar.round g.top + padding.top),
    Scalar.round g.width, Scalar.round g.height⟩

/-- Where one child was at the last solve. -/
def placementOf (s : Setting) (c : Child) : Work R Placement := do
  let name ← ask fun _ => s.names.nameOf c.handle
  let rect := rectOf s.padding (← ask (·.geometry name))
  emit .layout "child_placed"
    [("child", .text name), ("x", .integer rect.x), ("y", .integer rect.y),
      ("width", .integer rect.width), ("height", .integer rect.height)]
  return { handle := c.handle, name, rect }

/-- Where the visible children were at the last solve. -/
def positions (s : Setting) (children : List Child) : Work R (List Placement) :=
  (visibleOf children).mapM (placementOf s)

/-- Solves, and places the visible children. -/
def place (s : Setting) (children : List Child) : Work R (List Placement) := do
  solve
  let g ← ask (·.geometry containerName)
  emit .layout "layout_container"
    [("width", .real (Scalar.toFloat g.width)), ("height", .real (Scalar.toFloat g.height)),
      ("center_x", .real (Scalar.toFloat g.centerX)),
      ("center_y", .real (Scalar.toFloat g.centerY))]
  let placements ← positions s children
  emit .layout "layout_complete" [("children", .ofNat placements.length)]
  return placements

end RegionLayout.Sizing
