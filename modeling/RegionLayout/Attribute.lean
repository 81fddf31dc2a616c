-- The measures of a region that statements speak of: four edges and sizes every region has,
-- two centres, and two sizes that only the host can measure.
import RegionLayout.SortedMap

namespace RegionLayout

open Std

inductive Attribute where
  | left
  | top
  | width
  | height
  | centerX
  | centerY
  | intrinsicWidth
  | intrinsicHeight
deriving Repr, DecidableEq, Inhabited

namespace Attribute

/-- Every attribute, in the order in which a region lists its own. -/
def all : List Attribute :=
  [left, top, width, height, centerX, centerY, intrinsicWidth, intrinsicHeight]

/-- The attributes of every region. -/
def primary : List Attribute := [left, top, width, height]

/-- The place in `all`. -/
def rank (a : Attribute) : Nat := a.ctorIdx

theorem rank_injective {a b : Attribute} (h : a.rank = b.rank) : a = b := by
  cases a <;> cases b <;> first | rfl | exact absurd h (by decide)

instance : Ord Attribute := ⟨compareOn rank⟩

instance : TransOrd Attribute := inferInstanceAs (TransCmp (compareOn rank))

instance : LawfulEqOrd Attribute where
  eq_of_compare h := rank_injective (LawfulEqOrd.eq_of_compare h)

def name : Attribute → String
  | left => "left"
  | top => "top"
  | width => "width"
  | height => "height"
  | centerX => "centerX"
  | centerY => "centerY"
  | intrinsicWidth => "intrinsicWidth"
  | intrinsicHeight => "intrinsicHeight"

/-- Reads a name. The left edge may be called `x` and the top edge `y`. -/
def ofName? : String → Option Attribute
  | "left" | "x" => some left
  | "top" | "y" => some top
  | "width" => some width
  | "height" => some height
  | "centerX" => some centerX
  | "centerY" => some centerY
  | "intrinsicWidth" => some intrinsicWidth
  | "intrinsicHeight" => some intrinsicHeight
  | _ => none

theorem ofName?_name (a : Attribute) : ofName? a.name = some a := by cases a <;> rfl

def isPrimary (a : Attribute) : Bool := primary.contains a

def isCenter : Attribute → Bool
  | centerX | centerY => true
  | _ => false

/-- Whether the host measures it. -/
def isIntrinsic : Attribute → Bool
  | intrinsicWidth | intrinsicHeight => true
  | _ => false

end Attribute

/-! ## Axes -/

inductive Axis where
  | horizontal
  | vertical
deriving Repr, DecidableEq

namespace Axis

def size : Axis → Attribute
  | horizontal => .width
  | vertical => .height

/-- The size along the axis that the host measures. -/
def intrinsic : Axis → Attribute
  | horizontal => .intrinsicWidth
  | vertical => .intrinsicHeight

/-- The edge that positions along the axis start from. -/
def origin : Axis → Attribute
  | horizontal => .left
  | vertical => .top

def ofName? : String → Option Axis
  | "horizontal" => some horizontal
  | "vertical" => some vertical
  | _ => none

end Axis

/-- The axis an attribute is the centre of. -/
def Attribute.centerAxis? : Attribute → Option Axis
  | .centerX => some .horizontal
  | .centerY => some .vertical
  | _ => none

/-! ## References -/

/-- An attribute of a named region. -/
structure AttributeRef where
  region : String
  attr : Attribute
deriving Repr, DecidableEq, Inhabited

namespace AttributeRef

/-- By region name, then by attribute. -/
def order (a b : AttributeRef) : Ordering :=
  compareLex (compareOn region) (compareOn attr) a b

instance : Ord AttributeRef := ⟨order⟩

instance : TransOrd AttributeRef :=
  inferInstanceAs (TransCmp (compareLex (compareOn region) (compareOn attr)))

instance : LawfulEqOrd AttributeRef where
  eq_of_compare {a b} h := by
    have h : compareLex (compareOn region) (compareOn attr) a b = .eq := h
    rw [compareLex_eq_eq] at h
    obtain ⟨h1, h2⟩ := h
    cases a; cases b
    exact congr (congrArg _ (LawfulEqOrd.eq_of_compare h1))
      (LawfulEqOrd.eq_of_compare h2)

/-- The reference as statements write it. -/
def text (r : AttributeRef) : String := r.region ++ "." ++ r.attr.name

end AttributeRef

end RegionLayout
