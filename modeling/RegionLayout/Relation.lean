-- A statement made linear: its target compared with a sum of attributes, each with a
-- coefficient, and a constant. Units and density are gone here, so the canonical text of a
-- relation reads back as the same relation at every density.
import RegionLayout.Statement.Parser
import RegionLayout.Number.Scalar

namespace RegionLayout

variable {R : Type} [Scalar R]

/-! ## Linear expressions -/

/-- `sum (coefficient · attribute) + constant`. -/
structure LinearExpr (R : Type) where
  terms : SortedMap AttributeRef R
  constant : R
deriving DecidableEq

namespace LinearExpr

def ofConstant (c : R) : LinearExpr R := ⟨∅, c⟩

def ofRef (r : AttributeRef) : LinearExpr R := ⟨(∅ : SortedMap AttributeRef R).insert r 1, 0⟩

def isConstant (e : LinearExpr R) : Bool := e.terms.isEmpty

def coefficient (e : LinearExpr R) (r : AttributeRef) : R := (e.terms.get? r).getD 0

/-- Adds to the coefficient of one attribute; a coefficient that cancels is no term. -/
def addTerm (terms : SortedMap AttributeRef R) (r : AttributeRef) (c : R) :
    SortedMap AttributeRef R :=
  terms.alter r fun old =>
    let c := old.getD 0 + c
    if Scalar.cancels c then none else some c

/-- `e + sign · other`, term by term. -/
def add (e other : LinearExpr R) (sign : R) : LinearExpr R where
  terms := other.terms.entries.foldl (fun ts t => addTerm ts t.1 (t.2 * sign)) e.terms
  constant := e.constant + other.constant * sign

/-- `factor · e`, without the terms that become too small. -/
def scale (e : LinearExpr R) (factor : R) : LinearExpr R where
  terms := (e.terms.mapValues fun _ c => c * factor).filter fun _ c => Scalar.survives c
  constant := e.constant * factor

/-- The terms in their order and the constant, joined by plus signs. A constant of zero is
left out beside terms. -/
def text (e : LinearExpr R) : String :=
  let terms := e.terms.entries.map fun (r, c) =>
    if c == 1 then r.text else r.text ++ " * " ++ Scalar.text c
  let constant :=
    if !(e.constant == 0) || terms.isEmpty then [Scalar.text e.constant ++ "px"] else []
  " + ".intercalate (terms ++ constant)

/-- The same attributes with equal coefficients, and equal constants. -/
def same (a b : LinearExpr R) : Bool :=
  a.terms.size == b.terms.size &&
    (a.terms.entries.zip b.terms.entries).all (fun (s, t) => s.1 == t.1 && s.2 == t.2) &&
    a.constant == b.constant

end LinearExpr

/-! ## From an expression -/

/-- What one of the unit is in pixels. -/
def LengthUnit.scale (density : R) : LengthUnit → R
  | dp => density
  | px | bare => 1

/-- Makes an expression linear. Each literal meets the density once. -/
def Expr.linear (density : R) : Expr → Except Unsupported (LinearExpr R)
  | .literal value unit => .ok (.ofConstant (Scalar.ofDecimal value * unit.scale density))
  | .ref r => .ok (.ofRef r)
  | .neg e => do return (← e.linear density).scale (-1)
  | .binary op l r => do
    let l ← l.linear density
    let r ← r.linear density
    match op with
    | .add => return l.add r 1
    | .sub => return l.add r (-1)
    | .mul =>
      if l.isConstant then return r.scale l.constant
      else if r.isConstant then return l.scale r.constant
      else throw .linearProduct
    | .div =>
      if !r.isConstant then throw .linearDivisor
      else if r.constant == 0 then throw .zeroDivisor
      else return l.scale (1 / r.constant)

/-! ## Relations -/

/-- `target comparator rhs`, meant with a strength. -/
structure Relation (R : Type) where
  /-- The text of the statement. -/
  source : String
  target : AttributeRef
  comparator : Comparator
  rhs : LinearExpr R
  strength : Strength
deriving DecidableEq

namespace Relation

def canonical (r : Relation R) : String :=
  let mark := match r.strength with
    | .required => ""
    | s => " !" ++ s.name
  r.target.text ++ " " ++ r.comparator.symbol ++ " " ++ r.rhs.text ++ mark

/-- The attributes that are left in the relation, the target first. -/
def refs (r : Relation R) : List AttributeRef := r.target :: r.rhs.terms.keys

/-- The same relation, from whatever text. -/
def same (a b : Relation R) : Bool :=
  a.target == b.target && a.comparator == b.comparator && a.strength == b.strength &&
    a.rhs.same b.rhs

end Relation

/-- The relation of a statement at a density. -/
def Statement.relation (s : Statement) (density : R) : Except LayoutError (Relation R) :=
  match s.expr.linear density with
  | .error reason => .error (.unsupported s.text reason)
  | .ok rhs => .ok
    { source := s.text, target := s.target, comparator := s.comparator, rhs,
      strength := s.strength }

/-- Reads a relation at a density. -/
def Relation.parse (text : String) (density : R) : Except LayoutError (Relation R) := do
  (← Statement.parse text).relation density

end RegionLayout
