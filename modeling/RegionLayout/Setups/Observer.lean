-- Who is told how a setup ended, and what is told.
import RegionLayout.Model

namespace RegionLayout.Setups

/-- Wants to be called once, with the model of a completed setup. When it is called it may
register others. -/
inductive Observer where
  | mk (label : String) (registers : List Observer)

namespace Observer

def label : Observer → String
  | mk label _ => label

/-- The observers it registers when it is called. -/
def registers : Observer → List Observer
  | mk _ registers => registers

/-- An observer that registers nobody. -/
def plain (label : String) : Observer := mk label []

mutual
/-- How many calls it can lead to, its own included. -/
def reach : Observer → Nat
  | mk _ registers => 1 + reachAll registers

def reachAll : List Observer → Nat
  | [] => 0
  | o :: rest => reach o + reachAll rest
end

end Observer

/-- Why a setup has made no model. -/
structure Failure where
  epoch : Nat
  message : String
  /-- A statement was at fault, so the same source fails again. -/
  constraintError : Bool
deriving Repr, DecidableEq

/-- A call of an observer. -/
inductive Notice (R : Type) where
  /-- With which model, counted in the order of publishing, and how it stood at the call. -/
  | completed (label : String) (publication : Nat) (model : Model R)
  | failed (label : String) (failure : Failure)

end RegionLayout.Setups
