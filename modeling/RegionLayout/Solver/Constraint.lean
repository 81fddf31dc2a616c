-- What is handed to the solver: linear expressions over variables, and constraints on them.
-- An expression keeps its terms as they were written, repeats and zeros included.
import RegionLayout.Solver.Weight

namespace RegionLayout

variable {R : Type} [Scalar R]

/-- A quantity that the solver finds a value for. -/
structure Variable where
  id : Nat
deriving Repr, DecidableEq, Inhabited

namespace Variable

instance : Ord Variable := ⟨compareOn id⟩

instance : Std.TransOrd Variable := inferInstanceAs (Std.TransCmp (compareOn id))

instance : Std.LawfulEqOrd Variable where
  eq_of_compare {a b} h := by
    cases a; cases b
    exact congrArg _ (Std.LawfulEqOrd.eq_of_compare h)

end Variable

/-! ## Expressions -/

/-- `sum (coefficient · variable) + constant`. -/
structure Expression (R : Type) where
  terms : List (Variable × R)
  constant : R

namespace Expression

def ofConstant (c : R) : Expression R := ⟨[], c⟩

def ofTerm (v : Variable) (c : R) : Expression R := ⟨[(v, c)], 0⟩

def ofVariable (v : Variable) : Expression R := ofTerm v 1

/-- Whether no variable has a coefficient. -/
def isConstant (e : Expression R) : Bool := e.terms.all fun t => t.2 == 0

def add (a b : Expression R) : Expression R := ⟨a.terms ++ b.terms, a.constant + b.constant⟩

def addConstant (a : Expression R) (c : R) : Expression R := { a with constant := a.constant + c }

def subConstant (a : Expression R) (c : R) : Expression R := { a with constant := a.constant - c }

/-- One more term. -/
def addTerm (a : Expression R) (v : Variable) (c : R) : Expression R :=
  { a with terms := a.terms ++ [(v, c)] }

def scale (a : Expression R) (factor : R) : Expression R :=
  ⟨a.terms.map fun t => (t.1, t.2 * factor), a.constant * factor⟩

/-- `a` over `divisor`, by way of the reciprocal. -/
def div (a : Expression R) (divisor : R) : Expression R := a.scale (1 / divisor)

def neg (a : Expression R) : Expression R := a.scale (-1)

/-- `a` and the negative of `b`. -/
def sub (a b : Expression R) : Expression R := a.add b.neg

/-- The value where each variable has the value `v` gives it. -/
def eval (v : Variable → R) (e : Expression R) : R :=
  e.terms.foldl (fun x t => x + t.2 * v t.1) e.constant

end Expression

/-! ## Constraints -/

/-- What tells constraints apart. The caller numbers its own; the solver numbers the ones it
makes for edit variables, and the two never meet. -/
inductive ConstraintId where
  | declared (n : Nat)
  | edit (n : Nat)
deriving Repr, DecidableEq

namespace ConstraintId

/-- Declared ids on the even places, edits on the odd. -/
def rank : ConstraintId → Nat
  | declared n => 2 * n
  | edit n => 2 * n + 1

theorem rank_injective {a b : ConstraintId} (h : a.rank = b.rank) : a = b := by
  cases a <;> cases b <;> simp only [rank] at h
  · exact congrArg declared (by omega)
  · omega
  · omega
  · exact congrArg edit (by omega)

instance : Ord ConstraintId := ⟨compareOn rank⟩

instance : Std.TransOrd ConstraintId := inferInstanceAs (Std.TransCmp (compareOn rank))

instance : Std.LawfulEqOrd ConstraintId where
  eq_of_compare h := rank_injective (Std.LawfulEqOrd.eq_of_compare h)

end ConstraintId

/-- `expression comparator 0`, at a weight. Two constraints are the same when their ids are. -/
structure Constraint (R : Type) where
  id : ConstraintId
  expression : Expression R
  comparator : Comparator
  weight : R

namespace Constraint

/-- A constraint at a weight held between zero and required. -/
def make (id : ConstraintId) (expression : Expression R) (comparator : Comparator) (weight : R) :
    Constraint R :=
  ⟨id, expression, comparator, Weight.clip weight⟩

/-- `lhs comparator rhs`, with all of it moved to the left. -/
def relate (id : ConstraintId) (lhs : Expression R) (comparator : Comparator)
    (rhs : Expression R) (weight : R) : Constraint R :=
  make id (lhs.sub rhs) comparator weight

def isRequired (c : Constraint R) : Bool := Weight.isRequired c.weight

end Constraint

end RegionLayout
