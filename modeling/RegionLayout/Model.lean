-- The constraint model of one container: the regions that statements have named, the solver
-- that holds their relations, and the values as of the last solve. The container's own corner
-- is at the origin, no size is negative, and a centre lies half a size from its edge.
import RegionLayout.Digest.Blake3
import RegionLayout.Model.Demand
import RegionLayout.Model.Region
import RegionLayout.Solver

namespace RegionLayout

/-- What a caller has tied a variable to. -/
inductive Binding (R : Type) where
  /-- An edit variable pulls it. -/
  | exact
  /-- A constraint holds it down. -/
  | atMost (id : ConstraintId) (value : R)

/-- The measures of one region as of the last solve. -/
structure RegionGeometry (R : Type) where
  left : R
  top : R
  width : R
  height : R
  centerX : R
  centerY : R
  intrinsicWidth : Option R
  intrinsicHeight : Option R

structure Model (R : Type) where
  density : R
  solver : Solver R
  container : Region
  /-- The regions by name, without the container. -/
  regions : SortedMap String Region := ∅
  bindings : SortedMap Variable (Binding R) := ∅
  /-- Values as of the last solve. -/
  values : SortedMap Variable R := ∅
  /-- The accepted relations, the oldest first. -/
  relations : List (Relation R) := []
  /-- The texts of the accepted statements, each with a line end. -/
  journal : String := ""
  solves : Nat := 0
  nextVariable : Nat := 0
  nextConstraint : Nat := 0

/-- A call that may change a model. One that fails keeps the changes it made before. -/
abbrev Model.Change (R α : Type) := ExceptT LayoutError (StateM (Model R)) α

namespace Model

variable {R : Type} [Scalar R]

/-! ## Reading -/

def region? (m : Model R) (name : String) : Option Region :=
  if name = containerName then some m.container else m.regions.get? name

def region (m : Model R) (name : String) : Except LayoutError Region :=
  match m.region? name with
  | some r => .ok r
  | none => .error (.notFound name)

def variableOf (r : Region) (a : Attribute) : Except LayoutError Variable :=
  match r.get? a with
  | some v => .ok v
  | none => .error (.notFound (AttributeRef.text ⟨r.name, a⟩))

/-- The variable of a named region's attribute. -/
def lookup (m : Model R) (name : String) (a : Attribute) : Except LayoutError Variable := do
  variableOf (← m.region name) a

/-- The value of a variable as of the last solve; zero before its first. -/
def valueOf (m : Model R) (v : Variable) : R := (m.values.get? v).getD 0

def value (m : Model R) (name : String) (a : Attribute) : Except LayoutError R := do
  return m.valueOf (← m.lookup name a)

/-- The geometry of a region. A centre without a variable is worked out. -/
def geometryOf (m : Model R) (r : Region) : RegionGeometry R :=
  let read (a : Attribute) : Option R := (r.get? a).map m.valueOf
  let left := (read .left).getD 0
  let top := (read .top).getD 0
  let width := (read .width).getD 0
  let height := (read .height).getD 0
  { left, top, width, height
    centerX := (read .centerX).getD (left + width / 2)
    centerY := (read .centerY).getD (top + height / 2)
    intrinsicWidth := read .intrinsicWidth
    intrinsicHeight := read .intrinsicHeight }

def geometry (m : Model R) (name : String) : Except LayoutError (RegionGeometry R) := do
  return m.geometryOf (← m.region name)

/-- The names of the regions, the container's apart. -/
def names (m : Model R) : List String := m.regions.keys

/-- The digest of the accepted statements. -/
def fingerprint (m : Model R) : String := Blake3.hex m.journal

/-! ## Solving -/

/-- The variables of every region, the container's last. -/
def vars (m : Model R) : List Variable :=
  (m.regions.values ++ [m.container]).flatMap fun r => r.vars.values

/-- Takes the values of all variables over from the solver. -/
def solve (m : Model R) : Model R :=
  { m with
    values := m.vars.foldl (fun vs v => vs.insert v (m.solver.value v)) m.values
    solves := m.solves + 1 }

/-! ## Changes -/

/-- Answers what does not change the model. -/
def ask {α : Type} (f : Model R → Except LayoutError α) : Change R α := do
  match f (← get) with
  | .ok a => return a
  | .error e => throw e

/-- Calls the solver; `wrap` says what a fault means for the layout. -/
def onSolver (wrap : Solver.Fault → LayoutError) (f : Solver R → Solver.Answer R Unit) :
    Change R Unit := do
  let m ← get
  let (answer, solver) := f m.solver
  set { m with solver }
  match answer with
  | .ok () => return ()
  | .error fault => throw (wrap fault)

def freshConstraint : Change R ConstraintId :=
  modifyGet fun m =>
    (ConstraintId.declared m.nextConstraint, { m with nextConstraint := m.nextConstraint + 1 })

/-- The first of `count` new variables. -/
def freshVariables (count : Nat) : Change R Nat :=
  modifyGet fun m => (m.nextVariable, { m with nextVariable := m.nextVariable + count })

/-- Adds a required `lhs comparator rhs` of the model's own. -/
def require (lhs : Expression R) (comparator : Comparator) (rhs : Expression R) :
    Change R Unit := do
  let id ← freshConstraint
  onSolver .solver (·.add (.relate id lhs comparator rhs Weight.required))

/-! ## Regions -/

/-- A region's sizes are not negative. -/
def installSizes (r : Region) : Change R Unit :=
  [Attribute.width, Attribute.height].forM fun a => do
    let v ← ask fun _ => variableOf r a
    require (.ofVariable v) .atLeast (.ofConstant 0)

/-- A centre is an edge and half a size: `center - origin - size / 2 = 0`. -/
def installCenter (r : Region) (axis : Axis) (center : Variable) : Change R Unit := do
  let origin ← ask fun _ => variableOf r axis.origin
  let size ← ask fun _ => variableOf r axis.size
  let id ← freshConstraint
  let expression : Expression R := ⟨[(center, 1), (origin, -1), (size, -(1 / 2))], 0⟩
  onSolver .solver (·.add (.make id expression .equal Weight.required))

/-- A measured size is an edit variable, at first pulled to zero. -/
def installIntrinsic (v : Variable) : Change R Unit := do
  onSolver .solver (·.addEdit v Weight.strong)
  onSolver .solver (·.suggest v 0)

def putRegion (r : Region) : Change R Unit :=
  modify fun m =>
    if r.name = containerName then { m with container := r }
    else { m with regions := m.regions.insert r.name r }

/-- Sees to it that the model has a region of the name. -/
def ensureRegion (name : String) : Change R Unit := do
  if ((← get).region? name).isNone then
    let r := Region.make name (← freshVariables 4)
    installSizes r
    putRegion r

/-- Sees to it that a region has a variable for an attribute beyond the primary ones, and ties
a new one to what it means. -/
def ensureAttribute (name : String) (a : Attribute) : Change R Unit := do
  let r ← ask (·.region name)
  if !r.has a then
    let v : Variable := ⟨← freshVariables 1⟩
    let r := { r with vars := r.vars.insert a v }
    putRegion r
    match a.centerAxis? with
    | some axis => installCenter r axis v
    | none => if a.isIntrinsic then installIntrinsic v

/-- Makes the regions and variables that are asked for. -/
def materialize (d : Demand) : Change R Unit :=
  d.toList.forM fun (name, attributes) => do
    ensureRegion name
    (attributes.filter fun a => !a.isPrimary).forM (ensureAttribute name)

/-! ## Statements -/

/-- A relation as the solver takes it: `target - rhs comparator 0`. -/
def constraintOf (r : Relation R) : Change R (Constraint R) := do
  let resolve (ref : AttributeRef) : Change R Variable := ask (·.lookup ref.region ref.attr)
  let target ← resolve r.target
  let terms ← r.rhs.terms.entries.mapM fun (ref, c) => do return (← resolve ref, -c)
  let id ← freshConstraint
  return .make id ⟨(target, 1) :: terms, -r.rhs.constant⟩ r.comparator r.strength.weight

/-- What a fault of the solver means for the statement that met it. -/
def statementError (text : String) : Solver.Fault → LayoutError
  | .unsatisfiable => .conflict text .unsatisfiable
  | .duplicateConstraint => .conflict text .duplicateConstraint
  | fault => .solver fault

/-- Hands one relation to the solver, and enters it when the solver takes it. -/
def addRelation (r : Relation R) : Change R Unit := do
  let c ← constraintOf r
  onSolver (statementError r.source) (·.add c)
  modify fun m =>
    { m with relations := m.relations ++ [r], journal := m.journal ++ r.source ++ "\n" }

/-- Adds a batch of statements and solves. All are read before any reaches the solver; then
they are added one by one up to the first conflict. -/
def addConstraints (texts : Option (List String)) : Change R Unit := do
  let texts ← match texts with
    | some texts => pure texts
    | none => throw (.configuration .noSource)
  let relations ← ask fun m => texts.mapM fun t => Relation.parse t m.density
  materialize (.ofRelations relations)
  relations.forM addRelation
  modify solve

/-- A model with nothing but the container, solved once. -/
def new (density : R) (limit : Nat) : Except LayoutError (Model R) :=
  if !Scalar.isPositive density then
    .error (.configuration (.notPositive "density" (Scalar.text density)))
  else
    let blank : Model R :=
      { density, solver := .empty limit, container := .make containerName 0, nextVariable := 4 }
    let build : Change R Unit := do
      installSizes blank.container
      [Attribute.left, Attribute.top].forM fun a => do
        let v ← ask fun _ => variableOf blank.container a
        require (.ofVariable v) .equal (.ofConstant 0)
      modify solve
    match build blank with
    | (.ok (), m) => .ok m
    | (.error e, _) => .error e

/-- A model of a whole constraint source. -/
def build (texts : Option (List String)) (density : R) (limit : Nat) :
    Except LayoutError (Model R) := do
  match (addConstraints texts : Change R Unit) (← new density limit) with
  | (.ok (), m) => return m
  | (.error e, _) => throw e

/-! ## Bindings -/

def bind (v : Variable) (b : Binding R) : Change R Unit :=
  modify fun m => { m with bindings := m.bindings.insert v b }

def unbind (v : Variable) : Change R Unit :=
  modify fun m => { m with bindings := m.bindings.erase v }

/-- Pulls an attribute to a value with a strong edit variable. -/
def setTo (name : String) (a : Attribute) (value : R) : Change R Unit := do
  let v ← ask (·.lookup name a)
  match (← get).bindings.get? v with
  | some (.atMost id _) =>
    onSolver .solver (·.remove id)
    unbind v
  | _ => pure ()
  if !(← get).solver.hasEdit v then
    onSolver .solver (·.addEdit v Weight.strong)
  bind v .exact
  onSolver .solver (·.suggest v value)

/-- Holds an attribute down to a value with a strong constraint. The value it is held to
already changes nothing. -/
def setAtMost (name : String) (a : Attribute) (value : R) : Change R Unit := do
  let v ← ask (·.lookup name a)
  let hold : Change R Unit := do
    let id ← freshConstraint
    onSolver .solver
      (·.add (.relate id (.ofVariable v) .atMost (.ofConstant value) Weight.strong))
    bind v (.atMost id value)
  match (← get).bindings.get? v with
  | some (.atMost id current) =>
    if current == value then return ()
    onSolver .solver (·.remove id)
    hold
  | some .exact =>
    onSolver .solver (·.removeEdit v)
    hold
  | none => hold

/-- Leaves an attribute to the statements alone. -/
def release (name : String) (a : Attribute) : Change R Unit := do
  let v ← ask (·.lookup name a)
  let binding := (← get).bindings.get? v
  unbind v
  match binding with
  | some .exact => onSolver .solver (·.removeEdit v)
  | some (.atMost id _) => onSolver .solver (·.remove id)
  | none => pure ()

/-- Tells the model a size the host has measured. Answers whether that was news: a size that
the last solve rounds to already is left alone. -/
def setIntrinsic (name : String) (axis : Axis) (measured : Int) : Change R Bool := do
  let v ← ask fun m => do
    match (← m.region name).get? axis.intrinsic with
    | some v => return v
    | none => throw (.notFound (AttributeRef.text ⟨name, axis.intrinsic⟩))
  if Scalar.round ((← get).valueOf v) = measured then return false
  onSolver .solver (·.suggest v (Scalar.ofInt measured))
  return true

end Model

end RegionLayout
