-- The size a container reports while it has no model, from a ratio of width to height alone.
import RegionLayout.Number.Scalar
import RegionLayout.Sizing.MeasureSpec

namespace RegionLayout

variable {R : Type} [Scalar R]

/-- One axis: what it is asked for, and what the other axis makes of the ratio. -/
def axisByRatio (spec other : MeasureSpec) (byRatio : Int) : Int :=
  match spec.mode with
  | .exact => spec.size
  | .atMost => if other.isExact then min byRatio spec.size else spec.size
  | .unspecified => byRatio

def sizeByRatio (width height : MeasureSpec) (ratio : R) : Size where
  width := axisByRatio width height (Scalar.truncate (Scalar.ofInt height.size * ratio))
  height := axisByRatio height width (Scalar.truncate (Scalar.ofInt width.size / ratio))

end RegionLayout
