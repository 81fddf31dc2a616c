-- What a double stands for. The bits of a finite double are a sign, a whole significand and a
-- power of two; rounding it to a pixel and writing it in decimal both start from these three.

namespace RegionLayout.Number

/-- What the bits of a double say. -/
inductive Binary64 where
  | nan
  | infinite (negative : Bool)
  /-- `± significand · 2 ^ exponent`, with the sign also on zero. -/
  | finite (negative : Bool) (significand : Nat) (exponent : Int)
deriving Repr, DecidableEq

namespace Binary64

/-- The exponent of the smallest doubles; the significand is the bits below it. -/
def leastExponent : Int := -1074

/-- The first significand with the leading bit that larger doubles leave unwritten. -/
def hiddenBit : Nat := 4503599627370496

/-- Reads the sign, the eleven bits of the exponent and the fifty-two of the fraction. -/
def ofBits (bits : Nat) : Binary64 :=
  let negative := bits / (2048 * hiddenBit) % 2 == 1
  let biased := bits / hiddenBit % 2048
  let fraction := bits % hiddenBit
  if biased == 2047 then
    if fraction == 0 then infinite negative else nan
  else if biased == 0 then finite negative fraction leastExponent
  else finite negative (hiddenBit + fraction) (leastExponent + (biased - 1 : Nat))

def ofFloat (x : Float) : Binary64 := ofBits x.toBits.toNat

end Binary64

/-! ## Whole numbers near a quotient -/

/-- The whole number nearest to `num / den`; a half goes up. -/
def nearestQuotient (num den : Nat) : Nat := (2 * num + den) / (2 * den)

/-- `significand · 2 ^ exponent` as a quotient of naturals. -/
def binaryQuotient (significand : Nat) (exponent : Int) : Nat × Nat :=
  (significand * Nat.pow 2 exponent.toNat, Nat.pow 2 (-exponent).toNat)

/-- The sign put back on a size. -/
def signed (negative : Bool) (size : Nat) : Int := if negative then -size else size

/-- The values of a thirty-two bit integer end here; larger ones stop at the ends. -/
def saturate (x : Int) : Int := max (-2147483648) (min 2147483647 x)

/-- A plain sum or difference of thirty-two bits. One that would pass an end goes on from the
other end, and a build that checks for overflow stops there. -/
def wrapAround (x : Int) : Int := x.bmod 4294967296

namespace Binary64

/-- The pixel nearest to a double, a half going away from zero, held to thirty-two bits.
What is not a number counts as zero. -/
def round : Binary64 → Int
  | nan => 0
  | infinite negative => if negative then -2147483648 else 2147483647
  | finite negative m q =>
    let (num, den) := binaryQuotient m q
    saturate (signed negative (nearestQuotient num den))

/-- A double with its fraction cut off, held to thirty-two bits; what is not a number counts
as zero. -/
def truncate : Binary64 → Int
  | nan => 0
  | infinite negative => if negative then -2147483648 else 2147483647
  | finite negative m q =>
    let (num, den) := binaryQuotient m q
    saturate (signed negative (num / den))

end Binary64

end RegionLayout.Number
