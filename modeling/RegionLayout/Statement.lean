-- One constraint as it is written: a region's attribute, a comparison, an expression and how
-- strongly it is meant, as in `green.x >= blue.x + blue.width + 10dp !strong`.
import RegionLayout.Attribute
import RegionLayout.Number.Decimal

namespace RegionLayout

open Number

/-! ## The words of a statement -/

/-- The unit of a number. -/
inductive LengthUnit where
  /-- Pixels of the screen's density, so scaled by it. -/
  | dp
  /-- Pixels as they are. -/
  | px
  | bare
deriving Repr, DecidableEq

def LengthUnit.name : LengthUnit → String
  | dp => "dp"
  | px => "px"
  | bare => ""

def LengthUnit.ofName? : String → Option LengthUnit
  | "dp" => some dp
  | "px" => some px
  | "" => some bare
  | _ => none

inductive Comparator where
  | equal
  | atLeast
  | atMost
deriving Repr, DecidableEq

namespace Comparator

def all : List Comparator := [equal, atLeast, atMost]

def symbol : Comparator → String
  | equal => "=="
  | atLeast => ">="
  | atMost => "<="

def ofSymbol? (s : String) : Option Comparator := all.find? fun c => c.symbol == s

end Comparator

/-- How strongly a statement is meant. -/
inductive Strength where
  | required
  | strong
  | medium
  | weak
deriving Repr, DecidableEq

namespace Strength

def name : Strength → String
  | required => "required"
  | strong => "strong"
  | medium => "medium"
  | weak => "weak"

def ofName? : String → Option Strength
  | "required" => some required
  | "strong" => some strong
  | "medium" => some medium
  | "weak" => some weak
  | _ => none

end Strength

inductive Operator where
  | add
  | sub
  | mul
  | div
deriving Repr, DecidableEq

def Operator.symbol : Operator → String
  | add => "+"
  | sub => "-"
  | mul => "*"
  | div => "/"

/-! ## Expressions -/

/-- An expression as written, before units and density count. -/
inductive Expr where
  | literal (value : Decimal) (unit : LengthUnit)
  | ref (r : AttributeRef)
  | neg (e : Expr)
  | binary (op : Operator) (lhs rhs : Expr)
deriving Repr, DecidableEq

namespace Expr

/-- Whether no attribute stands anywhere in it. -/
def isConstant : Expr → Bool
  | literal _ _ => true
  | ref _ => false
  | neg e => e.isConstant
  | binary _ l r => l.isConstant && r.isConstant

/-- The attributes it names, left to right, repeats kept. -/
def refs : Expr → List AttributeRef
  | literal _ _ => []
  | ref r => [r]
  | neg e => e.refs
  | binary _ l r => l.refs ++ r.refs

/-- The tree in prefix order, each inner node in brackets. -/
def outline : Expr → String
  | literal value unit => Decimal.writeFloat Decimal.plain value.toFloat ++ unit.name
  | ref r => r.text
  | neg e => "(neg " ++ e.outline ++ ")"
  | binary op l r => "(" ++ op.symbol ++ " " ++ l.outline ++ " " ++ r.outline ++ ")"

theorem isConstant_iff_refs (e : Expr) : e.isConstant = true ↔ e.refs = [] := by
  induction e with
  | literal => simp [isConstant, refs]
  | ref => simp [isConstant, refs]
  | neg e ih => simpa [isConstant, refs] using ih
  | binary op l r hl hr => simp [isConstant, refs, hl, hr]

end Expr

structure Statement where
  /-- The whole text it was read from. -/
  text : String
  target : AttributeRef
  comparator : Comparator
  expr : Expr
  strength : Strength
deriving Repr, DecidableEq

/-- The attributes a statement names, the target first. -/
def Statement.refs (s : Statement) : List AttributeRef := s.target :: s.expr.refs

/-! ## What can be wrong with one -/

/-- What a reader was looking for where it stopped. -/
inductive Expectation where
  | leftHandSide
  | attributeName
  | comparator
  | operand
  | closingParenthesis
  | strengthName
deriving Repr, DecidableEq

def Expectation.text : Expectation → String
  | leftHandSide => "`region.attribute` on the left-hand side"
  | attributeName => "an attribute (left, x, top, y, width, height, centerX, centerY, " ++
      "intrinsicWidth, intrinsicHeight)"
  | comparator => "`==`, `>=` or `<=`"
  | operand => "a number or `region.attribute`"
  | closingParenthesis => "`)`"
  | strengthName => "`required`, `strong`, `medium` or `weak`"

inductive SyntaxProblem where
  /-- What was expected, the innermost first. -/
  | expected (what : List Expectation)
  | trailing
deriving Repr, DecidableEq

def SyntaxProblem.message : SyntaxProblem → String
  | expected [] => "malformed constraint"
  | expected what => "expected " ++ ", ".intercalate (what.map Expectation.text)
  | trailing => "unexpected trailing input"

/-- Why a well formed statement is no linear relation. -/
inductive Unsupported where
  /-- It assigns a size that the host measures. -/
  | measuredTarget (target : AttributeRef)
  | product
  | divisor
  /-- The same two, found while the expression is made linear. -/
  | linearProduct
  | linearDivisor
  | zeroDivisor
deriving Repr, DecidableEq

def Unsupported.message : Unsupported → String
  | measuredTarget t => "`" ++ t.text ++ "` is measured by the host and cannot be assigned"
  | product => "multiplying two attribute terms is not linear"
  | divisor => "dividing by an attribute term is not linear"
  | linearProduct => "multiplying two attribute terms"
  | linearDivisor => "dividing by an attribute term"
  | zeroDivisor => "division by zero"

end RegionLayout
