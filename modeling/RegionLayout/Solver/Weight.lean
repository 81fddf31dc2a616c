-- How much a violated constraint costs. Weights have three tiers, each a thousand times the
-- next, and a constraint as heavy as all of them together is required.
import RegionLayout.Number.Scalar
import RegionLayout.Statement

namespace RegionLayout

variable {R : Type} [Scalar R]

namespace Weight

def required : R := 1001001000
def strong : R := 1000000
def medium : R := 1000
def weak : R := 1

/-- The weight of three tiers, each scaled by `w` and held between zero and a thousand. -/
def create (a b c w : R) : R :=
  let tier (x : R) : R := Scalar.clamp (x * w) 0 1000
  tier a * 1000000 + tier b * 1000 + tier c

/-- A weight held between zero and required. -/
def clip (w : R) : R := Scalar.clamp w 0 required

def isRequired (w : R) : Bool := decide (required ≤ w)

end Weight

/-- What the strength of a statement weighs. -/
def Strength.weight : Strength → R
  | required => Weight.required
  | strong => Weight.strong
  | medium => Weight.medium
  | weak => Weight.weak

end RegionLayout
