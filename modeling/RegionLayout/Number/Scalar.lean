-- The numbers a layout is computed with. Everything from the coefficients of a statement to
-- the rows of the tableau is written once over this class. Doubles run it; rationals are the
-- same computation without rounding, where the two cut-offs are tests for zero and a ratio
-- test has no ceiling.
import RegionLayout.Number.Decimal

namespace RegionLayout

open Number

class Scalar (R : Type) extends Add R, Sub R, Mul R, Div R, Neg R, LT R, LE R, BEq R where
  decLt : DecidableLT R
  decLe : DecidableLE R
  ofNat : (n : Nat) → OfNat R n
  ofInt : Int → R
  /-- The number nearest to a decimal. -/
  ofDecimal : Decimal → R
  /-- So small that the tableau treats it as zero. -/
  nearZero : R → Bool
  /-- So small that a sum of like terms has no term left. -/
  cancels : R → Bool
  /-- Large enough to stay a coefficient after scaling. -/
  survives : R → Bool
  /-- Small enough to be the first ratio of a ratio test. -/
  belowCeiling : R → Bool
  isFinite : R → Bool
  /-- The nearest pixel, halves away from zero, held to thirty-two bits. -/
  round : R → Int
  /-- The pixel towards zero, held to thirty-two bits. -/
  truncate : R → Int
  text : R → String
  /-- The double that stands for the number in a report. -/
  toFloat : R → Float

namespace Scalar

variable {R : Type} [Scalar R]

instance (priority := low) : DecidableLT R := Scalar.decLt
instance (priority := low) : DecidableLE R := Scalar.decLe
instance (priority := low) (n : Nat) : OfNat R n := Scalar.ofNat n

/-- `x` held between `lo` and `hi`. A number that compares with neither end stays as it is. -/
def clamp (x lo hi : R) : R :=
  let x := if x < lo then lo else x
  if hi < x then hi else x

/-- A usable size or ratio. -/
def isPositive (x : R) : Bool := isFinite x && decide (0 < x)

end Scalar

/-! ## Doubles -/

instance : Scalar Float where
  decLt := inferInstance
  decLe := inferInstance
  ofNat := inferInstance
  ofInt := Float.ofInt
  ofDecimal := Decimal.toFloat
  nearZero x := x.abs < 1e-8
  cancels x := x.abs < 1e-12
  survives x := 1e-12 <= x.abs
  belowCeiling x := x < Float.ofBits 0x7FEFFFFFFFFFFFFF
  isFinite := Float.isFinite
  round x := (Binary64.ofFloat x).round
  truncate x := (Binary64.ofFloat x).truncate
  text := Decimal.writeFloat Decimal.plain
  toFloat x := x

/-! ## Rationals -/

namespace Number

/-- The decimal of a quotient, if its digits end: the denominator divides a power of ten that
has at most as many zeros as the denominator has bits. -/
def Decimal.ofQuotient? (num den : Nat) : Option Decimal :=
  (List.range (den.log2 + 2)).findSome? fun (k : Nat) =>
    if num * Nat.pow 10 k % den = 0 then some ⟨num * Nat.pow 10 k / den, -(k : Int)⟩ else none

/-- A rational as a decimal where its digits end, else as a quotient. -/
def writeRat (x : Rat) : String :=
  let body :=
    if x.num = 0 then "0"
    else match Decimal.ofQuotient? x.num.natAbs x.den with
      | some d => (Decimal.trim (d.digits.log2 + 1) d).write Decimal.plain
      | none => x.num.natAbs.repr ++ "/" ++ x.den.repr
  if x.num < 0 then "-" ++ body else body

end Number

instance : Scalar Rat where
  decLt := inferInstance
  decLe := inferInstance
  ofNat := inferInstance
  ofInt n := (n : Rat)
  ofDecimal d :=
    if d.exponent < 0 then mkRat d.digits (Nat.pow 10 d.exponent.natAbs)
    else (d.digits * Nat.pow 10 d.exponent.natAbs : Nat)
  nearZero x := x == 0
  cancels x := x == 0
  survives x := x != 0
  belowCeiling _ := true
  isFinite _ := true
  round x := saturate (signed (x.num < 0) (nearestQuotient x.num.natAbs x.den))
  truncate x := saturate (signed (x.num < 0) (x.num.natAbs / x.den))
  text := writeRat
  toFloat x := Float.ofInt x.num / Float.ofNat x.den

end RegionLayout
