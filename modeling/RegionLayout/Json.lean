-- JSON values and their compact text. Log lines are written in it, and a constraint source is
-- read from it.
import RegionLayout.Number.Decimal
import RegionLayout.SortedMap

namespace RegionLayout

open Number

inductive Json where
  | null
  | bool (b : Bool)
  | integer (n : Int)
  | real (x : Float)
  | text (s : String)
  | array (items : List Json)
  /-- The members in the order in which they are written. -/
  | object (members : List (String × Json))
deriving Inhabited, Repr

namespace Json

def ofNat (n : Nat) : Json := integer n

/-- Members in the order of their keys; of two with one key the later stands. -/
def ofMembers (members : List (String × Json)) : Json :=
  object (SortedMap.ofList members).entries

/-! ## Text -/

def hexDigit (n : Nat) : Char := if n < 10 then Char.ofNat (48 + n) else Char.ofNat (87 + n)

/-- A character inside a quoted text. Quotes, backslashes and control characters are escaped,
and nothing else is. -/
def escapeChar (c : Char) : List Char :=
  match c with
  | '"' => ['\\', '"']
  | '\\' => ['\\', '\\']
  | '\x08' => ['\\', 'b']
  | '\x09' => ['\\', 't']
  | '\x0a' => ['\\', 'n']
  | '\x0c' => ['\\', 'f']
  | '\x0d' => ['\\', 'r']
  | c =>
    if c.toNat < 0x20 then ['\\', 'u', '0', '0', hexDigit (c.toNat / 16), hexDigit (c.toNat % 16)]
    else [c]

def quote (s : String) : String := "\"" ++ String.ofList (s.toList.flatMap escapeChar) ++ "\""

/-- A double as JSON text; what is not finite is `null`. -/
def realText (x : Float) : String :=
  if x.isFinite then Decimal.writeFloat Decimal.json x else "null"

mutual
/-- The text of a value, without blanks. -/
def render : Json → String
  | null => "null"
  | bool b => if b then "true" else "false"
  | integer n => toString n
  | real x => realText x
  | text s => quote s
  | array items => "[" ++ ",".intercalate (renderItems items) ++ "]"
  | object members => "\x7b" ++ ",".intercalate (renderMembers members) ++ "\x7d"

def renderItems : List Json → List String
  | [] => []
  | v :: rest => render v :: renderItems rest

def renderMembers : List (String × Json) → List String
  | [] => []
  | (k, v) :: rest => (quote k ++ ":" ++ render v) :: renderMembers rest
end

/-! ## ASCII -/

/-- A unit of UTF-16 as an escape. -/
def escapeUnit (n : Nat) : List Char :=
  '\\' :: 'u' :: [4096, 256, 16, 1].map fun d => hexDigit (n / d % 16)

/-- A character of a JSON text in ASCII alone: what is beyond it is written by its units. -/
def asciiChar (c : Char) : List Char :=
  let n := c.toNat
  if n < 0x7F then [c]
  else if n < 0x10000 then escapeUnit n
  else escapeUnit (0xD7C0 + n / 1024) ++ escapeUnit (0xDC00 + n % 1024)

/-- The same JSON text in ASCII alone. -/
def ascii (text : String) : String := String.ofList (text.toList.flatMap asciiChar)

end Json

end RegionLayout
