-- Decimal text of numbers. A double is written with the fewest digits that read back as the
-- same double, and of those with the digits nearest to it.
import RegionLayout.Number.Binary64

namespace RegionLayout.Number

/-- `digits · 10 ^ exponent`. -/
structure Decimal where
  digits : Nat
  exponent : Int
deriving Repr, DecidableEq, Inhabited

namespace Decimal

/-! ## The fewest digits -/

/-- The doubles next to a value leave it a range of decimals: all that read back as the value.
The four numbers are on one scale, `unit` being one. -/
structure Range where
  low : Nat
  value : Nat
  high : Nat
  unit : Nat
  /-- Whether the two ends themselves read back as the value. -/
  closed : Bool
deriving Repr

/-- The range of `m · 2 ^ q`. It reaches half way to each neighbour, and the neighbour below a
power of two is only half as far. -/
def Range.ofBinary (m : Nat) (q : Int) : Range :=
  let scale := Nat.pow 2 q.toNat
  let narrow := m == Binary64.hiddenBit && q > Binary64.leastExponent
  { low := (if narrow then 4 * m - 1 else 4 * m - 2) * scale
    value := 4 * m * scale
    high := (4 * m + 2) * scale
    unit := 4 * Nat.pow 2 (-q).toNat
    closed := m % 2 == 0 }

/-- The range on the scale where `10 ^ k` is one. -/
def Range.rescale (r : Range) (k : Int) : Range :=
  let up := Nat.pow 10 (-k).toNat
  { r with low := r.low * up, value := r.value * up, high := r.high * up
           unit := r.unit * Nat.pow 10 k.toNat }

/-- Whether the whole number `c` lies in the range. -/
def Range.holds (r : Range) (c : Nat) : Bool :=
  let x := c * r.unit
  if r.closed then r.low ≤ x && x ≤ r.high else r.low < x && x < r.high

/-- Where to go from a value exactly between two decimals of one length. -/
inductive Tie where
  | up
  | toEven
deriving Repr, DecidableEq

/-- The whole number in the range that is nearest to its value, if one of the value's two
neighbours is in it. -/
def Range.nearest? (r : Range) (tie : Tie) : Option Nat :=
  let c := r.value / r.unit
  let rest := r.value % r.unit
  match r.holds c, r.holds (c + 1) with
  | false, false => none
  | true, false => some c
  | false, true => some (c + 1)
  | true, true =>
    if 2 * rest < r.unit then some c
    else if r.unit < 2 * rest then some (c + 1)
    else match tie with
      | .up => some (c + 1)
      | .toEven => if c % 2 == 0 then some c else some (c + 1)

/-- How many digits stand before the point: the `p` with `10 ^ (p-1) ≤ num / den < 10 ^ p`.
It is negative for zeros after the point. -/
def pointOf (num den : Nat) : Int :=
  if den ≤ num then ((num / den).repr.length : Int)
  else
    match (List.range 400).find? fun z => den ≤ num * Nat.pow 10 (z + 1) with
    | some z => -(z : Int)
    | none => -400

/-- Takes the zeros off the end of the digits, at most `fuel` of them. -/
def trim : Nat → Decimal → Decimal
  | 0, d => d
  | fuel + 1, d =>
    if d.digits != 0 && d.digits % 10 == 0 then trim fuel ⟨d.digits / 10, d.exponent + 1⟩ else d

/-- The shortest decimal that reads back as the double `m · 2 ^ q`: of the grids with one, two,
up to seventeen digits the first that has a point in the range. -/
def shortest (tie : Tie) (m : Nat) (q : Int) : Decimal :=
  let r := Range.ofBinary m q
  let p := pointOf r.value r.unit
  let hit := (List.range 17).findSome? fun (n : Nat) =>
    let k := p - (n + 1 : Nat)
    ((r.rescale k).nearest? tie).map fun c => Decimal.mk c k
  match hit with
  | some d => trim 20 d
  | none => ⟨(r.rescale (p - 17)).value / (r.rescale (p - 17)).unit, p - 17⟩

/-! ## Written forms -/

def zeros (n : Nat) : String := String.ofList (List.replicate n '0')

/-- The choices a written form makes. -/
structure Style where
  /-- Which positions of the point are written without an exponent. -/
  positional : Int → Bool
  /-- What follows a whole number. -/
  whole : String
  /-- The sign of an exponent that is not below zero. -/
  plus : String
  tie : Tie

/-- No exponent at any size, and nothing after a whole number. -/
def plain : Style := ⟨fun _ => true, "", "", .up⟩

/-- The form of numbers in JSON text: a point in every number, and an exponent with its sign from
`10 ^ 16` on and below `10 ^ -5`. -/
def json : Style := ⟨fun p => -5 < p && p ≤ 16, ".0", "+", .toEven⟩

/-- A positive decimal in a style. -/
def write (style : Style) (d : Decimal) : String :=
  let s := d.digits.repr
  let len := s.length
  let p := d.exponent + len
  if style.positional p then
    if p ≤ 0 then "0." ++ zeros (-p).toNat ++ s
    else if (len : Int) ≤ p then s ++ zeros (p.toNat - len) ++ style.whole
    else (s.take p.toNat).toString ++ "." ++ (s.drop p.toNat).toString
  else
    let lead := if len = 1 then s else (s.take 1).toString ++ "." ++ (s.drop 1).toString
    lead ++ "e" ++ (if p ≤ 0 then "" else style.plus) ++ toString (p - 1)

/-- A double in a style. The sign of zero is kept; what is not a number has none. -/
def writeFloat (style : Style) (x : Float) : String :=
  match Binary64.ofFloat x with
  | .nan => "NaN"
  | .infinite negative => if negative then "-inf" else "inf"
  | .finite negative m q =>
    let body := if m = 0 then "0" ++ style.whole else write style (shortest style.tie m q)
    if negative then "-" ++ body else body

/-! ## Reading -/

/-- The double nearest to a decimal. Beyond the range of doubles it is infinite or zero. -/
def toFloat (d : Decimal) : Float :=
  if d.digits = 0 then 0
  else
    let point := d.exponent + d.digits.repr.length
    if 400 < point then 1 / 0
    else if point < -400 then 0
    else Float.ofScientific d.digits (d.exponent < 0) d.exponent.natAbs

/-- The value of a run of digits after `acc`. -/
def readDigits (acc : Nat) (cs : List Char) : Nat :=
  cs.foldl (fun n c => 10 * n + (c.toNat - '0'.toNat)) acc

/-- The decimal of the digits before and after a point. -/
def ofParts (whole fraction : List Char) : Decimal :=
  ⟨readDigits (readDigits 0 whole) fraction, -(fraction.length : Int)⟩

/-- Takes a sign off a text; `true` for a minus. -/
def takeSign : List Char → Bool × List Char
  | '-' :: r => (true, r)
  | '+' :: r => (false, r)
  | r => (false, r)

/-- A power of ten after its letter, or none where the text ends. -/
def readExponent? : List Char → Option Int
  | [] => some 0
  | c :: r =>
    let (negative, ds) := takeSign r
    if (c == 'e' || c == 'E') && !ds.isEmpty && ds.all Char.isDigit then
      some (signed negative (readDigits 0 ds))
    else none

/-- Digits with a point and an exponent, either of which may be left out. -/
def read? (cs : List Char) : Option Decimal :=
  let whole := cs.takeWhile Char.isDigit
  let (fraction, rest) := match cs.dropWhile Char.isDigit with
    | '.' :: r => (r.takeWhile Char.isDigit, r.dropWhile Char.isDigit)
    | r => ([], r)
  if whole.isEmpty && fraction.isEmpty then none
  else (readExponent? rest).map fun e =>
    let d := ofParts whole fraction
    { d with exponent := d.exponent + e }

/-- The double of a text in either style. -/
def readFloat? (s : String) : Option Float :=
  let (negative, cs) := takeSign s.toList
  let size := match String.ofList cs with
    | "inf" => some (1 / 0)
    | "NaN" => some (0 / 0)
    | _ => (read? cs).map toFloat
  size.map fun x => if negative then -x else x

end Decimal

end RegionLayout.Number
