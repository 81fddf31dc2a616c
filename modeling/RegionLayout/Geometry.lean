-- Sizes, rectangles and padding in whole pixels. A far edge that would pass the largest pixel
-- stops there.
import RegionLayout.Number.Binary64

namespace RegionLayout

open Number

structure Size where
  width : Int
  height : Int
deriving Repr, DecidableEq, Inhabited

structure Rect where
  x : Int
  y : Int
  width : Int
  height : Int
deriving Repr, DecidableEq, Inhabited

/-- The first pixel right of the rectangle. -/
def Rect.right (r : Rect) : Int := saturate (r.x + r.width)

/-- The first pixel below the rectangle. -/
def Rect.bottom (r : Rect) : Int := saturate (r.y + r.height)

structure Padding where
  left : Int
  top : Int
  right : Int
  bottom : Int
deriving Repr, DecidableEq, Inhabited

namespace Padding

def none : Padding := ⟨0, 0, 0, 0⟩

def uniform (n : Int) : Padding := ⟨n, n, n, n⟩

/-- What the left and the right side take together. -/
def horizontal (p : Padding) : Int := saturate (p.left + p.right)

/-- What the top and the bottom take together. -/
def vertical (p : Padding) : Int := saturate (p.top + p.bottom)

def hasNegativeSide (p : Padding) : Bool :=
  p.left < 0 || p.top < 0 || p.right < 0 || p.bottom < 0

end Padding

end RegionLayout
