-- Why the solver turned a call down.

namespace RegionLayout.Solver

/-- States that a sound tableau does not reach. -/
inductive Breakdown where
  | unboundedObjective
  | noDualPivot
  | noLeavingRow
  | lostEdit
deriving Repr, DecidableEq

def Breakdown.message : Breakdown → String
  | unboundedObjective => "the objective is unbounded"
  | noDualPivot => "dual optimize failed"
  | noLeavingRow => "failed to find leaving row"
  | lostEdit => "edit constraint missing after insert"

inductive Fault where
  | duplicateConstraint
  | unsatisfiable
  | unknownConstraint
  | duplicateEdit
  | unknownEdit
  | requiredEdit
  | breakdown (b : Breakdown)
  /-- The pivots allowed for one optimisation were used up before it ended. -/
  | pivotLimit
deriving Repr, DecidableEq

def Fault.message : Fault → String
  | duplicateConstraint => "constraint has already been added"
  | unsatisfiable => "required constraint cannot be satisfied"
  | unknownConstraint => "constraint is not part of the solver"
  | duplicateEdit => "variable is already an edit variable"
  | unknownEdit => "variable is not an edit variable"
  | requiredEdit => "edit variables cannot be required"
  | breakdown b => "internal solver error: " ++ b.message
  | pivotLimit => "internal solver error: pivot limit reached"

end RegionLayout.Solver
