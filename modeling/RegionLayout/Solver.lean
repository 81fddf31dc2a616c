-- An incremental solver of linear constraints. The tableau is kept optimal: required
-- constraints hold, and the weighted violation of the others is as small as it can be, so a
-- value is read by looking it up. A call that fails gives its fault together with the state it
-- leaves behind.
import RegionLayout.Solver.Constraint
import RegionLayout.Solver.Fault
import RegionLayout.Solver.Ratio
import RegionLayout.Solver.Row

namespace RegionLayout

namespace Solver

/-- The symbols of one constraint: the one it is known by, and the second error or the error
beside a slack, where it has one. -/
structure Tag where
  marker : Symbol
  other : Option Symbol
deriving Repr, DecidableEq

/-- An edit variable: the constraint that pulls it, and where to. -/
structure Edit (R : Type) where
  tag : Tag
  constraint : Constraint R
  target : R

end Solver

open Solver

structure Solver (R : Type) where
  constraints : SortedMap ConstraintId (Tag × Constraint R) := ∅
  /-- The row of each basic symbol. -/
  rows : SortedMap Symbol (Row R) := ∅
  /-- The symbol of each variable that a constraint has named. -/
  symbols : SortedMap Variable Symbol := ∅
  edits : SortedMap Variable (Edit R) := ∅
  /-- Basic symbols whose rows may have gone negative, the latest first. -/
  infeasible : List Symbol := []
  objective : Row R
  /-- The objective of the search for a first solution, while it goes on. -/
  artificial : Option (Row R) := none
  /-- The number of the symbol made last. -/
  tick : Nat := 0
  /-- The number of the edit constraint made last. -/
  editTick : Nat := 0
  /-- How many turns one optimisation may take. -/
  limit : Nat

/-- A call of the solver: what it answers, and the solver after it. -/
abbrev Solver.Answer (R α : Type) := Except Fault α × Solver R

namespace Solver

variable {R : Type} [Scalar R]

/-- No more turns than this are ever needed by a run that ends in a lifetime. -/
def defaultLimit : Nat := 1000000000

def empty (limit : Nat) : Solver R := { objective := .ofConstant 0, limit }

/-! ## Turns -/

/-- What one turn of a loop comes to. -/
inductive Turn (σ : Type) where
  | done (s : σ)
  | next (s : σ)
  | broken (b : Breakdown) (s : σ)

/-- Takes turns until one is the last. -/
def Turn.run {σ : Type} (step : σ → Turn σ) : Nat → σ → Except Fault Unit × σ
  | 0, s => (.error .pivotLimit, s)
  | n + 1, s => match step s with
    | .done s => (.ok (), s)
    | .next s => Turn.run step n s
    | .broken b s => (.error (.breakdown b), s)

/-! ## Symbols and rows -/

def freshSymbol (s : Solver R) (kind : SymbolKind) : Symbol × Solver R :=
  (⟨s.tick + 1, kind⟩, { s with tick := s.tick + 1 })

/-- The symbol of a variable, made on its first use. -/
def symbolOf (s : Solver R) (v : Variable) : Symbol × Solver R :=
  match s.symbols.get? v with
  | some x => (x, s)
  | none =>
    let (x, s) := s.freshSymbol .external
    (x, { s with symbols := s.symbols.insert v x })

/-- Adds one term of a constraint to its row, in terms of the symbols that are not basic. -/
def insertTerm (acc : Row R × Solver R) (t : Variable × R) : Row R × Solver R :=
  let (row, s) := acc
  if Scalar.nearZero t.2 then (row, s)
  else
    let (x, s) := s.symbolOf t.1
    match s.rows.get? x with
    | some basic => (row.insertRow basic t.2, s)
    | none => (row.insertSymbol x t.2, s)

def charge (s : Solver R) (error : Symbol) (weight : R) : Solver R :=
  { s with objective := s.objective.insertSymbol error weight }

/-- Gives the row of a constraint the symbols that turn it into an equation, and charges the
errors among them to the objective. -/
def insertMarkers (c : Constraint R) (row : Row R) (s : Solver R) : Row R × Tag × Solver R :=
  let inequality (sign : R) : Row R × Tag × Solver R :=
    let (slack, s) := s.freshSymbol .slack
    let row := row.insertSymbol slack sign
    if c.isRequired then (row, ⟨slack, none⟩, s)
    else
      let (error, s) := s.freshSymbol .error
      (row.insertSymbol error (-sign), ⟨slack, some error⟩, s.charge error c.weight)
  match c.comparator with
  | .atMost => inequality 1
  | .atLeast => inequality (-1)
  | .equal =>
    if c.isRequired then
      let (dummy, s) := s.freshSymbol .dummy
      (row.insertSymbol dummy 1, ⟨dummy, none⟩, s)
    else
      let (plus, s) := s.freshSymbol .error
      let (minus, s) := s.freshSymbol .error
      ((row.insertSymbol plus (-1)).insertSymbol minus 1, ⟨plus, some minus⟩,
        (s.charge plus c.weight).charge minus c.weight)

/-- The row of a constraint over the symbols that are not basic, its constant not negative. -/
def createRow (s : Solver R) (c : Constraint R) : Row R × Tag × Solver R :=
  let (row, s) := c.expression.terms.foldl insertTerm (.ofConstant c.expression.constant, s)
  let (row, tag, s) := insertMarkers c row s
  (if row.constant < 0 then row.negate else row, tag, s)

/-- A symbol the row can be solved for at once: one that may have any value, or a marker of its
own with a negative coefficient. -/
def subject? (row : Row R) (tag : Tag) : Option Symbol :=
  let own (x : Symbol) : Option Symbol :=
    if x.isPivotable && decide (row.coefficient x < 0) then some x else none
  ((row.cells.find? fun x _ => x.isExternal).map (·.1)).or <|
    (own tag.marker).or (tag.other.bind own)

/-! ## Pivots -/

/-- Puts `definition` in the place of `x` in every row and objective, and notes the restricted
rows that are negative then. -/
def substitute (s : Solver R) (x : Symbol) (definition : Row R) : Solver R :=
  let rows := s.rows.mapValues fun _ r => r.substitute x definition
  { s with
    rows
    infeasible := rows.entries.foldl
      (fun stack e => if !e.1.isExternal && decide (e.2.constant < 0) then e.1 :: stack else stack)
      s.infeasible
    objective := s.objective.substitute x definition
    artificial := s.artificial.map fun r => r.substitute x definition }

def putRow (s : Solver R) (x : Symbol) (row : Row R) : Solver R :=
  { s with rows := s.rows.insert x row }

def dropRow (s : Solver R) (x : Symbol) : Solver R := { s with rows := s.rows.erase x }

/-- Makes `x` basic with the row it equals. -/
def install (s : Solver R) (x : Symbol) (row : Row R) : Solver R :=
  (s.substitute x row).putRow x row

/-- Takes `leaving`, whose row is `row`, out of the basis and `entering` into it. -/
def pivot (s : Solver R) (leaving : Symbol) (row : Row R) (entering : Symbol) : Solver R :=
  (s.dropRow leaving).install entering (row.exchange leaving entering)

/-! ## The primal loop -/

/-- The first symbol whose growth lowers the objective. Dummies stay out. -/
def entering? (objective : Row R) : Option Symbol :=
  (objective.cells.find? fun x c => !x.isDummy && decide (c < 0)).map (·.1)

/-- The restricted row that first reaches zero when `entering` grows. -/
def leaving? (s : Solver R) (entering : Symbol) : Option Symbol :=
  leastRatio <| s.rows.entries.filterMap fun (x, row) =>
    let c := row.coefficient entering
    if !x.isExternal && decide (c < 0) then some (x, -row.constant / c) else none

inductive Goal where
  | primary
  | artificial
deriving Repr, DecidableEq

def goalRow? (s : Solver R) : Goal → Option (Row R)
  | .primary => some s.objective
  | .artificial => s.artificial

def primalTurn (goal : Goal) (s : Solver R) : Turn (Solver R) :=
  match (s.goalRow? goal).bind entering? with
  | none => .done s
  | some entering =>
    match s.leaving? entering with
    | none => .broken .unboundedObjective s
    | some leaving =>
      match s.rows.get? leaving with
      | none => .broken .unboundedObjective s
      | some row => .next (s.pivot leaving row entering)

/-- Pivots until no symbol lowers the objective. -/
def optimize (s : Solver R) (goal : Goal) : Answer R Unit := Turn.run (primalTurn goal) s.limit s

/-! ## The dual loop -/

/-- The symbol that keeps the objective optimal when it enters for the row of a negative
basic symbol. -/
def dualEntering? (s : Solver R) (row : Row R) : Option Symbol :=
  leastRatio <| row.cells.entries.filterMap fun (x, c) =>
    if decide (0 < c) && !x.isDummy then some (x, s.objective.coefficient x / c) else none

def dualTurn (s : Solver R) : Turn (Solver R) :=
  match s.infeasible with
  | [] => .done s
  | leaving :: rest =>
    let s := { s with infeasible := rest }
    match s.rows.get? leaving with
    | none => .next s
    | some row =>
      if decide (row.constant < 0) && !Scalar.nearZero row.constant then
        match s.dualEntering? row with
        | none => .broken .noDualPivot s
        | some entering => .next (s.pivot leaving row entering)
      else .next s

/-- Pivots until no noted row is negative. -/
def dualOptimize (s : Solver R) : Answer R Unit := Turn.run dualTurn s.limit s

/-! ## Adding a constraint -/

/-- Takes what the errors of a constraint cost back out of the objective. -/
def discharge (s : Solver R) (weight : R) (tag : Tag) : Solver R :=
  let drop (s : Solver R) (x : Symbol) : Solver R :=
    if x.kind == .error then
      match s.rows.get? x with
      | some row => { s with objective := s.objective.insertRow row (-weight) }
      | none => s.charge x (-weight)
    else s
  let s := drop s tag.marker
  match tag.other with
  | some x => drop s x
  | none => s

def removeSymbol (s : Solver R) (x : Symbol) : Solver R :=
  { s with
    rows := s.rows.mapValues fun _ r => r.remove x
    objective := s.objective.remove x }

/-- Adds a row that has no subject, by way of a symbol that stands for the row and is driven
to zero. Answers whether zero was reached. -/
def addArtificial (s : Solver R) (row : Row R) : Answer R Bool :=
  let (art, s) := s.freshSymbol .slack
  let s := { s.putRow art row with artificial := some row }
  match s.optimize .artificial with
  | (.error f, s) => (.error f, s)
  | (.ok (), s) =>
    let reached := (s.artificial.map fun r => Scalar.nearZero r.constant).getD false
    let s := { s with artificial := none }
    match s.rows.get? art with
    | none => (.ok reached, s.removeSymbol art)
    | some basic =>
      let s := s.dropRow art
      if !reached || basic.cells.isEmpty then (.ok reached, s)
      else
        match basic.cells.find? fun x _ => x.isPivotable with
        | none => (.ok false, s)
        | some (entering, _) =>
          (.ok true, (s.install entering (basic.exchange art entering)).removeSymbol art)

/-- Enters a constraint whose row is in the tableau, and makes the tableau optimal again. -/
def accept (s : Solver R) (c : Constraint R) (tag : Tag) : Answer R Unit :=
  { s with constraints := s.constraints.insert c.id (tag, c) }.optimize .primary

def refuse (s : Solver R) (c : Constraint R) (tag : Tag) : Answer R Unit :=
  (.error .unsatisfiable, s.discharge c.weight tag)

def add (s : Solver R) (c : Constraint R) : Answer R Unit :=
  if s.constraints.contains c.id then (.error .duplicateConstraint, s)
  else
    let (row, tag, s) := s.createRow c
    match subject? row tag with
    | some x => (s.install x (row.solveFor x)).accept c tag
    | none =>
      if row.allDummies then
        if Scalar.nearZero row.constant then
          (s.install tag.marker (row.solveFor tag.marker)).accept c tag
        else s.refuse c tag
      else
        match s.addArtificial row with
        | (.error f, s) => (.error f, s)
        | (.ok false, s) => s.refuse c tag
        | (.ok true, s) => s.accept c tag

/-- Adds one after the other, up to the first that fails. -/
def addAll (s : Solver R) : List (Constraint R) → Answer R Unit
  | [] => (.ok (), s)
  | c :: cs => match s.add c with
    | (.ok (), s) => s.addAll cs
    | failed => failed

/-! ## Removing a constraint -/

/-- The row a marker that is not basic leaves by: a restricted one where it has a negative
coefficient if there is one, else a restricted one, else the last of a variable. -/
def markerLeaving? (s : Solver R) (marker : Symbol) : Option Symbol :=
  let uses := s.rows.entries.filterMap fun (x, row) =>
    let c := row.coefficient marker
    if c == 0 then none else some (x, row.constant, c)
  let restricted := uses.filter fun u => !u.1.isExternal
  let falling := restricted.filterMap fun (x, k, c) => if c < 0 then some (x, -k / c) else none
  let rising := restricted.filterMap fun (x, k, c) => if c < 0 then none else some (x, k / c)
  (leastRatio falling).or <| (leastRatio rising).or <|
    ((uses.filter fun u => u.1.isExternal).getLast?).map (·.1)

def remove (s : Solver R) (id : ConstraintId) : Answer R Unit :=
  match s.constraints.get? id with
  | none => (.error .unknownConstraint, s)
  | some (tag, c) =>
    let s := { s with constraints := s.constraints.erase id }.discharge c.weight tag
    match s.rows.get? tag.marker with
    | some _ => (s.dropRow tag.marker).optimize .primary
    | none =>
      match (s.markerLeaving? tag.marker).bind fun x => (s.rows.get? x).map (x, ·) with
      | none => (.error (.breakdown .noLeavingRow), s)
      | some (leaving, row) =>
        ((s.dropRow leaving).substitute tag.marker (row.exchange leaving tag.marker)).optimize
          .primary

def has (s : Solver R) (id : ConstraintId) : Bool := s.constraints.contains id

/-! ## Edit variables -/

/-- Starts to pull a variable towards a value, at first zero. -/
def addEdit (s : Solver R) (v : Variable) (weight : R) : Answer R Unit :=
  if s.edits.contains v then (.error .duplicateEdit, s)
  else
    let weight := Weight.clip weight
    if Weight.isRequired weight then (.error .requiredEdit, s)
    else
      let id := ConstraintId.edit (s.editTick + 1)
      let c := Constraint.make id (Expression.ofTerm v 1) .equal weight
      match { s with editTick := s.editTick + 1 }.add c with
      | (.error f, s) => (.error f, s)
      | (.ok (), s) =>
        match s.constraints.get? id with
        | none => (.error (.breakdown .lostEdit), s)
        | some (tag, _) => (.ok (), { s with edits := s.edits.insert v ⟨tag, c, 0⟩ })

def removeEdit (s : Solver R) (v : Variable) : Answer R Unit :=
  match s.edits.get? v with
  | none => (.error .unknownEdit, s)
  | some e => { s with edits := s.edits.erase v }.remove e.constraint.id

def hasEdit (s : Solver R) (v : Variable) : Bool := s.edits.contains v

/-- Shifts one row, and notes it if it is negative then. -/
def shiftRow (s : Solver R) (x : Symbol) (row : Row R) (amount : R) : Solver R :=
  let row := row.shift amount
  let s := s.putRow x row
  if row.constant < 0 then { s with infeasible := x :: s.infeasible } else s

/-- Shifts every row by its coefficient of `x` times `amount`, and notes the restricted ones that
moved and are negative then. -/
def shiftAll (s : Solver R) (x : Symbol) (amount : R) : Solver R :=
  let rows := s.rows.mapValues fun _ r =>
    let c := r.coefficient x
    if c == 0 then r else r.shift (amount * c)
  { s with
    rows
    infeasible := rows.entries.foldl
      (fun stack e =>
        if !(e.2.coefficient x == 0) && decide (e.2.constant < 0) && !e.1.isExternal then
          e.1 :: stack
        else stack)
      s.infeasible }

/-- Moves an edit variable towards a value. -/
def suggest (s : Solver R) (v : Variable) (value : R) : Answer R Unit :=
  match s.edits.get? v with
  | none => (.error .unknownEdit, s)
  | some e =>
    let delta := value - e.target
    let s := { s with edits := s.edits.insert v { e with target := value } }
    match s.rows.get? e.tag.marker with
    | some row => (s.shiftRow e.tag.marker row (-delta)).dualOptimize
    | none =>
      match e.tag.other.bind fun x => (s.rows.get? x).map (x, ·) with
      | some (x, row) => (s.shiftRow x row delta).dualOptimize
      | none => (s.shiftAll e.tag.marker delta).dualOptimize

/-! ## Reading -/

/-- The value of a variable. One that no row gives is zero. -/
def value (s : Solver R) (v : Variable) : R :=
  match (s.symbols.get? v).bind s.rows.get? with
  | some row => row.constant
  | none => 0

/-- Forgets everything but the limit. -/
def reset (s : Solver R) : Solver R := empty s.limit

end Solver

end RegionLayout
