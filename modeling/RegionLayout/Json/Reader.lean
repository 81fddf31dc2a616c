-- Reading JSON text from its start, and telling three kinds of failure apart: text that no
-- continuation could mend, text that ends too early, and well formed text of the wrong type.
import RegionLayout.Json

namespace RegionLayout.Json

open Number

inductive Flaw where
  | malformed
  | unfinished
  | mismatched
deriving Repr, DecidableEq

abbrev Reader (α : Type) := StateT (List Char) (Except Flaw) α

/-! ## Characters -/

def isBlank (c : Char) : Bool := c == ' ' || c == '\n' || c == '\t' || c == '\r'

/-- The next character that is not blank, left in place. -/
def peek : Reader (Option Char) := do
  modify fun s => s.dropWhile isBlank
  return (← get).head?

def advance : Reader Unit := modify List.tail

/-- The next character, or the flaw of a text that ends here. -/
def next (atEnd : Flaw) : Reader Char := do
  match ← get with
  | [] => throw atEnd
  | c :: r => set r; return c

/-- The rest of a word whose first character is read. -/
def word : List Char → Reader Unit
  | [] => return ()
  | c :: r => do
    if (← next .unfinished) != c then throw .malformed
    word r

/-! ## Quoted text -/

def hexValue? (c : Char) : Option Nat :=
  if c.isDigit then some (c.toNat - 48)
  else if 'a' ≤ c && c ≤ 'f' then some (c.toNat - 87)
  else if 'A' ≤ c && c ≤ 'F' then some (c.toNat - 55)
  else none

/-- Four hexadecimal digits. They may be missing only where the text ends. -/
def hexQuad : Reader Nat := do
  let s ← get
  match s with
  | a :: b :: c :: d :: r =>
    match hexValue? a, hexValue? b, hexValue? c, hexValue? d with
    | some a, some b, some c, some d => set r; return ((a * 16 + b) * 16 + c) * 16 + d
    | _, _, _, _ => throw .malformed
  | _ =>
    -- the four digits are counted in bytes, so a long character fills the place of several
    if s.foldl (fun n c => n + c.utf8Size) 0 < 4 then throw .unfinished else throw .malformed

def isLeading (n : Nat) : Bool := 0xD800 ≤ n && n ≤ 0xDBFF

def isTrailing (n : Nat) : Bool := 0xDC00 ≤ n && n ≤ 0xDFFF

/-- A character by its number in UTF-16: one unit, or a leading and a trailing one. -/
def unicodeEscape : Reader Char := do
  let n ← hexQuad
  if isTrailing n then throw .malformed
  if !isLeading n then return Char.ofNat n
  if (← next .unfinished) != '\\' then throw .malformed
  if (← next .unfinished) != 'u' then throw .malformed
  let m ← hexQuad
  if !isTrailing m then throw .malformed
  return Char.ofNat ((n - 0xD800) * 0x400 + (m - 0xDC00) + 0x10000)

/-- The character a backslash and one other stand for. -/
def simpleEscape? : Char → Option Char
  | '"' => some '"'
  | '\\' => some '\\'
  | '/' => some '/'
  | 'b' => some '\x08'
  | 'f' => some '\x0c'
  | 'n' => some '\n'
  | 'r' => some '\r'
  | 't' => some '\t'
  | _ => none

/-- The rest of a quoted text after its first quote, whose characters so far are `acc`, the
last first. `escape` reads what follows a backslash and the letter u; `turns` is more than the
characters that are left. -/
def quotedTail (escape : Reader Char) : Nat → List Char → Reader (List Char)
  | 0, _ => throw .malformed
  | turns + 1, acc => do
    let c ← next .unfinished
    if c == '"' then return acc.reverse
    else if c == '\\' then
      let e ← next .unfinished
      if e == 'u' then quotedTail escape turns ((← escape) :: acc)
      else match simpleEscape? e with
        | some d => quotedTail escape turns (d :: acc)
        | none => throw .malformed
    else if c.toNat < 0x20 then throw .malformed
    else quotedTail escape turns (c :: acc)

/-- A quoted text after its first quote. -/
def quoted : Reader String := do
  return String.ofList (← quotedTail unicodeEscape ((← get).length + 1) [])

/-- A quoted text that nobody asks for. Its numbered characters need not be ones. -/
def skipQuoted : Reader Unit := do
  let _ ← quotedTail (do let _ ← hexQuad; return ' ') ((← get).length + 1) []

/-! ## Numbers -/

/-- A number as read: whole numbers of sixty-four bits stay whole. -/
inductive Numeral where
  | whole (n : Int)
  | real (x : Float)

/-- The double of a number that may be whole. -/
def Numeral.toFloat : Numeral → Float
  | whole n => Float.ofInt n
  | real x => x

/-- The largest significand that is kept exactly. -/
def significandLimit : Nat := 18446744073709551615

/-- `significand · 10 ^ exponent`, by one multiplication or division with a power of ten; a
power too small for that is taken in steps. The last bit may differ from the nearest double. -/
def scaleByTen : Nat → Float → Int → Except Flaw Float
  | 0, _, _ => .ok 0
  | steps + 1, f, e =>
    if e.natAbs ≤ 308 then
      let power := Float.ofScientific 1 false e.natAbs
      if 0 ≤ e then
        let f := f * power
        if f.isInf then .error .malformed else .ok f
      else .ok (f / power)
    else if f == 0 then .ok f
    else if 0 ≤ e then .error .malformed
    else scaleByTen steps (f / Float.ofScientific 1 false 308) (e + 308)

/-- The value of a number in parts. After four steps down nothing is left of it. -/
def ofSignificand (negative : Bool) (significand : Nat) (exponent : Int) : Reader Float := do
  match scaleByTen 5 (Float.ofNat significand) exponent with
  | .ok f => return if negative then -f else f
  | .error flaw => throw flaw

def digits : Reader (List Char) := do
  let s ← get
  set (s.dropWhile Char.isDigit)
  return s.takeWhile Char.isDigit

/-- Takes digits into a significand while it stays within the limit. Gives the significand and
how many digits went in, and leaves the others. -/
def takeDigits (acc : Nat) : List Char → Nat × Nat
  | [] => (acc, 0)
  | c :: r =>
    let n := acc * 10 + (c.toNat - 48)
    if n ≤ significandLimit then
      let (m, k) := takeDigits n r
      (m, k + 1)
    else (acc, 0)

/-- The power of ten after its letter, with the number it applies to. -/
def exponentPart (negative : Bool) (significand : Nat) (exponent : Int) : Reader Float := do
  advance
  let downward ← match (← get) with
    | '+' :: r => set r; pure false
    | '-' :: r => set r; pure true
    | _ => pure false
  if (← get).isEmpty then throw .unfinished
  let ds ← digits
  if ds.isEmpty then throw .malformed
  let e := Decimal.readDigits 0 ds
  if 2147483647 < e then
    if significand != 0 && !downward then throw .malformed
    return if negative then -0.0 else 0.0
  ofSignificand negative significand (saturate (if downward then exponent - e else exponent + e))

def exponentOrEnd (negative : Bool) (significand : Nat) (exponent : Int) : Reader Float := do
  match (← get).head? with
  | some 'e' | some 'E' => exponentPart negative significand exponent
  | _ => ofSignificand negative significand exponent

/-- The digits after a point. Those that do not fit into the significand are passed over. -/
def fractionPart (negative : Bool) (significand : Nat) (exponent : Int) : Reader Float := do
  advance
  let ds ← digits
  if ds.isEmpty then
    if (← get).isEmpty then throw .unfinished else throw .malformed
  let (significand', taken) := takeDigits significand ds
  exponentOrEnd negative significand' (exponent - taken)

/-- A number after its sign. -/
def numeral (negative : Bool) : Reader Numeral := do
  if (← get).isEmpty then throw .unfinished
  let ds ← digits
  match ds with
  | [] => throw .malformed
  | '0' :: _ :: _ => throw .malformed
  | _ => pure ()
  let (significand, taken) := takeDigits 0 ds
  let dropped : Int := (ds.length - taken : Nat)
  match (← get).head? with
  | some '.' => return .real (← fractionPart negative significand dropped)
  | some 'e' | some 'E' => return .real (← exponentPart negative significand dropped)
  | _ =>
    if dropped != 0 then return .real (← ofSignificand negative significand dropped)
    else if !negative then return .whole significand
    else if significand == 0 || 9223372036854775808 < significand then
      return .real (-(Float.ofNat significand))
    else return .whole (-significand)

/-- A number that nobody asks for, after its sign. -/
def skipNumeral : Reader Unit := do
  match ← digits with
  | [] => throw .malformed
  | '0' :: _ :: _ => throw .malformed
  | _ => pure ()
  if (← get).head? == some '.' then
    advance
    if (← digits).isEmpty then throw .malformed
  if (← get).head? == some 'e' || (← get).head? == some 'E' then
    advance
    if (← get).head? == some '+' || (← get).head? == some '-' then advance
    if (← digits).isEmpty then throw .malformed

/-! ## Lists and objects -/

/-- Before an element: whether there is one. `first` says that none has been read yet. -/
def hasElement (first : Bool) : Reader Bool := do
  match ← peek with
  | none => throw .unfinished
  | some ']' => return false
  | some c =>
    if first then return true
    if c != ',' then throw .malformed
    advance
    match ← peek with
    | some ']' => throw .malformed
    | some _ => return true
    | none => throw .unfinished

/-- After the elements somebody asked for: the bracket that closes the list. -/
def closeList : Reader Unit := do
  match ← peek with
  | some ']' => advance
  | some ',' => throw .malformed
  | some _ => throw .malformed
  | none => throw .unfinished

/-- Before a member: whether there is one. The quote of its key is left in place. -/
def hasMember (first : Bool) : Reader Bool := do
  match ← peek with
  | none => throw .unfinished
  | some '}' => return false
  | some c =>
    if first then
      if c == '"' then return true else throw .malformed
    if c != ',' then throw .malformed
    advance
    match ← peek with
    | some '"' => return true
    | some _ => throw .malformed
    | none => throw .unfinished

def colon : Reader Unit := do
  match ← peek with
  | some ':' => advance
  | some _ => throw .malformed
  | none => throw .unfinished

/-- Passes over one value, whatever it is. Twice the length of the text is fuel enough: a
bracket takes two turns, and an element one besides its own. -/
def skip : Nat → Reader Unit
  | 0 => throw .malformed
  | fuel + 1 => do
    match ← peek with
    | none => throw .unfinished
    | some 'n' => advance; word "ull".toList
    | some 't' => advance; word "rue".toList
    | some 'f' => advance; word "alse".toList
    | some '-' => advance; skipNumeral
    | some '"' => advance; skipQuoted
    | some '[' => advance; skipElements fuel true
    | some '{' => advance; skipMembers fuel true
    | some c => if c.isDigit then skipNumeral else throw .malformed
where
  skipElements : Nat → Bool → Reader Unit
    | 0, _ => throw .malformed
    | fuel + 1, first => do
      if ← hasElement first then
        skip fuel
        skipElements fuel false
      else advance
  skipMembers : Nat → Bool → Reader Unit
    | 0, _ => throw .malformed
    | fuel + 1, first => do
      if ← hasMember first then
        advance
        skipQuoted
        colon
        skip fuel
        skipMembers fuel false
      else advance

/-- What to answer where a value of another type stands: the flaw in its text if it has one. -/
def mismatch {α : Type} : Reader α := do
  match (← get).head? with
  | some 'n' => advance; word "ull".toList; throw .mismatched
  | some 't' => advance; word "rue".toList; throw .mismatched
  | some 'f' => advance; word "alse".toList; throw .mismatched
  | some '-' => advance; let _ ← numeral true; throw .mismatched
  | some '"' => advance; let _ ← quoted; throw .mismatched
  | some '[' | some '{' => throw .mismatched
  | some c => if c.isDigit then let _ ← numeral false; throw .mismatched else throw .malformed
  | none => throw .malformed

/-! ## Values of one type -/

/-- The first character of a value. -/
def start : Reader Char := do
  match ← peek with
  | some c => return c
  | none => throw .unfinished

def readBool : Reader Bool := do
  match ← start with
  | 't' => advance; word "rue".toList; return true
  | 'f' => advance; word "alse".toList; return false
  | _ => mismatch

def readText : Reader String := do
  if (← start) == '"' then advance; quoted else mismatch

def readReal : Reader Float := do
  let c ← start
  if c == '-' then advance; return (← numeral true).toFloat
  else if c.isDigit then return (← numeral false).toFloat
  else mismatch

/-- The elements that are left of a list, its bracket included. -/
def elements {α : Type} (item : Reader α) : Nat → Bool → List α → Reader (List α)
  | 0, _, _ => throw .malformed
  | turns + 1, first, acc => do
    if ← hasElement first then
      let a ← item
      elements item turns false (a :: acc)
    else
      closeList
      return acc.reverse

def readList {α : Type} (item : Reader α) : Reader (List α) := do
  if (← start) == '[' then
    advance
    elements item ((← get).length + 1) true []
  else mismatch

def readOption {α : Type} (item : Reader α) : Reader (Option α) := do
  if (← peek) == some 'n' then advance; word "ull".toList; return none
  else return some (← item)

/-- Any value. -/
def readValue : Nat → Reader Json
  | 0 => throw .malformed
  | fuel + 1 => do
    match ← start with
    | 'n' => advance; word "ull".toList; return .null
    | 't' | 'f' => return .bool (← readBool)
    | '"' => return .text (← readText)
    | '[' => advance; return .array (← readElements fuel true [])
    | '{' => advance; return .ofMembers (← readMembers fuel true [])
    | '-' => advance; return ofNumeral (← numeral true)
    | c => if c.isDigit then return ofNumeral (← numeral false) else throw .malformed
where
  ofNumeral : Numeral → Json
    | .whole n => .integer n
    | .real x => .real x
  readElements : Nat → Bool → List Json → Reader (List Json)
    | 0, _, _ => throw .malformed
    | fuel + 1, first, acc => do
      if ← hasElement first then
        let v ← readValue fuel
        readElements fuel false (v :: acc)
      else advance; return acc.reverse
  readMembers : Nat → Bool → List (String × Json) → Reader (List (String × Json))
    | 0, _, _ => throw .malformed
    | fuel + 1, first, acc => do
      if ← hasMember first then
        advance
        let k ← quoted
        colon
        let v ← readValue fuel
        readMembers fuel false ((k, v) :: acc)
      else advance; return acc.reverse

/-- Runs a reader on a whole text; only blanks may follow the value. -/
def readAll {α : Type} (r : Reader α) (text : String) : Except Flaw α := do
  let (a, rest) ← r text.toList
  if (rest.dropWhile isBlank).isEmpty then return a else throw .malformed

/-- Reads one value. -/
def parse (text : String) : Except Flaw Json := readAll (readValue (2 * text.length + 4)) text

end RegionLayout.Json
