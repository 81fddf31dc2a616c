-- The ratio test that picks the row or the column of a pivot.
import RegionLayout.Number.Scalar

namespace RegionLayout.Solver

variable {R : Type} [Scalar R] {κ : Type}

/-- Keeps the better of the best candidate so far and a new one. A tie keeps the earlier, and
the first has to be below the ceiling. -/
def better (best : Option (κ × R)) (candidate : κ × R) : Option (κ × R) :=
  match best with
  | none => if Scalar.belowCeiling candidate.2 then some candidate else none
  | some b => if candidate.2 < b.2 then some candidate else some b

/-- The first candidate of least ratio. -/
def leastRatio (candidates : List (κ × R)) : Option κ :=
  (candidates.foldl better none).map (·.1)

end RegionLayout.Solver
