-- Letters that a script draws together as one. A text is read from its end to its start, so of
-- a ligature the last letter comes first, and what was read of it says which letters continue
-- it. Marks that are not shown do not interrupt a ligature.
import RegionLayout.Text.WidthTable

namespace RegionLayout.Text

def joiner : Char := Char.ofNat 0x200D

/-! ## Letters -/

def arabicAlef : Ranges :=
  [(0x622, 0x623), (0x625, 0x625), (0x627, 0x627), (0x671, 0x673), (0x675, 0x675),
   (0x773, 0x774), (0x870, 0x882)]

def arabicLam : Ranges :=
  [(0x644, 0x644), (0x6B5, 0x6B8), (0x76A, 0x76A), (0x8A6, 0x8A6), (0x8C7, 0x8C7)]

/-- Khmer letters that are set below another letter without taking more room. -/
def khmerSubscript : Ranges :=
  [(0x1780, 0x1782), (0x1784, 0x1787), (0x1789, 0x178C), (0x178E, 0x1793), (0x1795, 0x1798),
   (0x179B, 0x179D), (0x17A0, 0x17A0), (0x17A2, 0x17A2), (0x17A7, 0x17A7), (0x17AB, 0x17AC),
   (0x17AF, 0x17AF)]

def tifinaghConsonant : Ranges := [(0x2D31, 0x2D65), (0x2D6F, 0x2D6F)]

/-- Marks that are not shown, and the joiner. -/
def ligatureTransparent : Ranges :=
  [(0x34F, 0x34F), (0x17B4, 0x17B5), (0x180B, 0x180D), (0x180F, 0x180F), (0x200D, 0x200D),
   (0xFE00, 0xFE0F), (0xE0100, 0xE01EF)]

/-- Marks between Arabic letters that join all the same. -/
def isJoiningTransparent (c : Char) : Bool := zeroWidth.holds c && !joinBreaking.holds c

/-! ## Reading a ligature -/

/-- What was read of a ligature. Where letters are drawn together only with a joiner between
them, `joined` says that it was read. -/
inductive Ligature where
  /-- An Arabic alef, drawn with a lam. -/
  | alef
  /-- A Hebrew lamed, drawn with an alef. -/
  | lamed (joined : Bool)
  /-- A Buginese ya, drawn with an a that bears the vowel sign i. -/
  | ya (joined : Bool)
  /-- The same with the vowel sign. -/
  | vowelYa
  /-- A Tifinagh consonant, drawn with another. -/
  | consonant (joined : Bool)
  /-- The same after the script's own joiner. -/
  | joinedConsonant
  /-- One of the Lisu tones that make a pair with the tone before them. -/
  | tone
  /-- An Old Turkic i, drawn with an ec. -/
  | turkicI (joined : Bool)
  /-- A Khmer letter that can be a subscript. -/
  | subscript
deriving Repr, DecidableEq

/-- The ligatures a character can be the last letter of. -/
def Ligature.ofLast? (c : Char) : Option Ligature :=
  if arabicAlef.holds c then some .alef
  else if c.toNat = 0x5DC then some (.lamed false)
  else if khmerSubscript.holds c then some .subscript
  else if c.toNat = 0x1A10 then some (.ya false)
  else if tifinaghConsonant.holds c then some (.consonant false)
  else if c.toNat = 0xA4FC || c.toNat = 0xA4FD then some .tone
  else if c.toNat = 0x10C03 then some (.turkicI false)
  else none

/-- A joiner before what was read. -/
def Ligature.withJoiner : Ligature → Ligature
  | .lamed _ => .lamed true
  | .ya _ => .ya true
  | .consonant _ => .consonant true
  | .turkicI _ => .turkicI true
  | l => l

/-- How many cells the text grows by when a character continues a ligature, and what is read
of it then. A ligature takes one cell, so the count goes back where the sign in between took
one of its own. -/
def Ligature.extend? (l : Ligature) (c : Char) : Option (Int × Option Ligature) :=
  if l = .alef then
    if arabicLam.holds c then some (0, none)
    else if isJoiningTransparent c then some (0, some .alef)
    else none
  else if c = joiner then some (0, some l.withJoiner)
  else if ligatureTransparent.holds c then some (0, some l)
  else
    match l with
    | .lamed true => if c.toNat = 0x5D0 then some (0, none) else none
    | .ya true => if c.toNat = 0x1A17 then some (0, some .vowelYa) else none
    | .vowelYa => if c.toNat = 0x1A15 then some (0, none) else none
    | .consonant joined =>
      if c.toNat = 0x2D7F then some (1, some .joinedConsonant)
      else if joined && tifinaghConsonant.holds c then some (0, none)
      else none
    | .joinedConsonant => if tifinaghConsonant.holds c then some (-1, none) else none
    | .tone => if 0xA4F8 ≤ c.toNat && c.toNat ≤ 0xA4FB then some (0, none) else none
    | .turkicI true => if c.toNat = 0x10C32 then some (0, none) else none
    | .subscript => if c.toNat = 0x17D2 then some (-1, none) else none
    | _ => none

end RegionLayout.Text
