-- What a parent asks of one axis of a child.
import RegionLayout.Geometry

namespace RegionLayout

open Number

inductive MeasureMode where
  | exact
  | atMost
  | unspecified
deriving Repr, DecidableEq

/-- The name of a mode, as log events give it. -/
def MeasureMode.name : MeasureMode → String
  | exact => "Exact"
  | atMost => "AtMost"
  | unspecified => "Unspecified"

/-- A mode and a size in pixels, which an unspecified axis carries along unread. -/
structure MeasureSpec where
  mode : MeasureMode
  size : Int
deriving Repr, DecidableEq

namespace MeasureSpec

def exact (n : Int) : MeasureSpec := ⟨.exact, n⟩

def atMost (n : Int) : MeasureSpec := ⟨.atMost, n⟩

def unspecified : MeasureSpec := ⟨.unspecified, 0⟩

def isExact (s : MeasureSpec) : Bool := s.mode == .exact

/-- The most the axis may take. -/
def limit (s : MeasureSpec) : Option Int :=
  match s.mode with
  | .exact | .atMost => some s.size
  | .unspecified => none

/-- Leaves room for padding; no size goes below zero. -/
def shrink (s : MeasureSpec) (amount : Int) : MeasureSpec :=
  match s.mode with
  | .unspecified => s
  | _ => { s with size := max (wrapAround (s.size - amount)) 0 }

/-- The size of content that would like to be `natural` pixels long. -/
def resolve (s : MeasureSpec) (natural : Int) : Int :=
  match s.mode with
  | .exact => s.size
  | .atMost => min natural s.size
  | .unspecified => natural

def text (s : MeasureSpec) : String :=
  match s.mode with
  | .exact => "exact(" ++ toString s.size ++ ")"
  | .atMost => "at_most(" ++ toString s.size ++ ")"
  | .unspecified => "unspecified"

end MeasureSpec

end RegionLayout
