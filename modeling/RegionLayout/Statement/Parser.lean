-- Reading a statement. A reader takes what is left of the text and gives a value and what is
-- left after it, or where it stopped and what it wanted there.
--
--   statement := term comparator sum ( '!' strength )?
--   sum       := product ( ( '+' | '-' ) product )*
--   product   := unary ( ( '*' | '/' ) unary )*
--   unary     := '-' unary | primary
--   primary   := '(' sum ')' | number unit? | term
--   term      := region '.' attribute
import RegionLayout.Error

namespace RegionLayout

open Number

namespace Statement

/-- Where a reader stopped, and what it wanted there, the innermost wish first. -/
structure Stop where
  rest : List Char
  expected : List Expectation
deriving Repr, DecidableEq

abbrev Reader (α : Type) := StateT (List Char) (Except Stop) α

/-! ## Characters -/

/-- Space, tab and the two line ends; no other character counts as blank. -/
def isBlank (c : Char) : Bool := c == ' ' || c == '\t' || c == '\r' || c == '\n'

def isNameStart (c : Char) : Bool := c.isAlpha || c == '_'

def isNameChar (c : Char) : Bool := c.isAlphanum || c == '_'

def skipBlanks (s : List Char) : List Char := s.dropWhile isBlank

/-- Stops where it stands. -/
def stop {α : Type} (expected : List Expectation) : Reader α :=
  fun s => .error ⟨s, expected⟩

/-- Adds a wish of the surrounding rule to a stop inside it. -/
def within {α : Type} (e : Expectation) (r : Reader α) : Reader α :=
  fun s => match r s with
    | .ok v => .ok v
    | .error f => .error { f with expected := f.expected ++ [e] }

def blanks : Reader Unit := modify skipBlanks

/-! ## Words and numbers -/

/-- A name and what follows it: a letter or an underscore, then letters, digits and
underscores as far as they go. -/
def name? : List Char → Option (String × List Char)
  | [] => none
  | c :: r =>
    if isNameStart c then
      some (String.ofList (c :: r.takeWhile isNameChar), r.dropWhile isNameChar)
    else none

def name : Reader String := fun s =>
  match name? s with
  | some (n, r) => .ok (n, r)
  | none => .error ⟨s, []⟩

/-- A name that `f` knows. An unknown one stops the reader at its first character. -/
def nameOf {α : Type} (f : String → Option α) : Reader α := fun s =>
  match name? s with
  | some (n, r) => match f n with
    | some a => .ok (a, r)
    | none => .error ⟨s, []⟩
  | none => .error ⟨s, []⟩

def char (c : Char) : Reader Unit := fun s =>
  match s with
  | [] => .error ⟨s, []⟩
  | d :: r => if d = c then .ok ((), r) else .error ⟨s, []⟩

/-- `region.attribute`, without blanks. -/
def term : Reader AttributeRef := do
  let region ← name
  char '.'
  let attr ← within .attributeName (nameOf Attribute.ofName?)
  return ⟨region, attr⟩

/-- Digits, and digits after a point if any follow it. A point without digits is left. -/
def number? (s : List Char) : Option (Decimal × List Char) :=
  let whole := s.takeWhile Char.isDigit
  if whole.isEmpty then none
  else
    let afterWhole := s.dropWhile Char.isDigit
    match afterWhole with
    | '.' :: r =>
      let fraction := r.takeWhile Char.isDigit
      if fraction.isEmpty then some (Decimal.ofParts whole [], afterWhole)
      else some (Decimal.ofParts whole fraction, r.dropWhile Char.isDigit)
    | _ => some (Decimal.ofParts whole [], afterWhole)

def unitOf : List Char → LengthUnit × List Char
  | 'd' :: 'p' :: r => (.dp, r)
  | 'p' :: 'x' :: r => (.px, r)
  | r => (.bare, r)

/-! ## Expressions -/

/-- A number with its unit, or else a term. -/
def operand : Reader Expr := within .operand fun s =>
  match number? s with
  | some (value, r) =>
    let (unit, r) := unitOf r
    .ok (.literal value unit, r)
  | none => (Expr.ref <$> term) s

/-- An operand, or a sum in parentheses read by `inner`. -/
def primary (inner : Reader Expr) : Reader Expr := fun s =>
  match skipBlanks s with
  | '(' :: r => (do
      let e ← inner
      blanks
      within .closingParenthesis (char ')')
      return e : Reader Expr) r
  | s => operand s

/-- A primary after any number of minus signs. -/
def unary (inner : Reader Expr) : List Char → Except Stop (Expr × List Char)
  | [] => primary inner []
  | c :: r =>
    if isBlank c then unary inner r
    else if c = '-' then (fun (e, s) => (Expr.neg e, s)) <$> unary inner r
    else primary inner (c :: r)

def additive? : List Char → Option (Operator × List Char)
  | '+' :: r => some (.add, r)
  | '-' :: r => some (.sub, r)
  | _ => none

def multiplicative? : List Char → Option (Operator × List Char)
  | '*' :: r => some (.mul, r)
  | '/' :: r => some (.div, r)
  | _ => none

/-- The rest of a left associative chain whose value so far is `acc`. Each turn reads an
operator, so the length of the text is turns enough. -/
def chainTail (op? : List Char → Option (Operator × List Char)) (next : Reader Expr) :
    Nat → Expr → Reader Expr
  | 0, acc => fun s => .ok (acc, s)
  | turns + 1, acc => fun s =>
    match op? (skipBlanks s) with
    | none => .ok (acc, skipBlanks s)
    | some (op, r) => match next r with
      | .ok (rhs, r) => chainTail op? next turns (.binary op acc rhs) r
      | .error f => .error f

/-- Operands joined by operators of one rank, grouped from the left. -/
def chain (op? : List Char → Option (Operator × List Char)) (next : Reader Expr) :
    Reader Expr := fun s =>
  match next s with
  | .ok (e, r) => chainTail op? next (r.length + 1) e r
  | .error f => .error f

/-- A sum whose parentheses are at most `depth` deep. -/
def sum : Nat → Reader Expr
  | 0 => stop []
  | depth + 1 => chain additive? (chain multiplicative? (unary (sum depth)))

/-! ## Statements -/

def comparison : Reader Comparator := fun s =>
  match s with
  | '=' :: '=' :: r => .ok (.equal, r)
  | '>' :: '=' :: r => .ok (.atLeast, r)
  | '<' :: '=' :: r => .ok (.atMost, r)
  | _ => .error ⟨s, [.comparator]⟩

/-- The strength after an exclamation mark; without one the statement is required. -/
def strengthMark : Reader Strength := fun s =>
  match s with
  | '!' :: r => within .strengthName (nameOf Strength.ofName?) r
  | _ => .ok (.required, s)

def body (depth : Nat) : Reader (AttributeRef × Comparator × Expr × Strength) := do
  blanks
  let target ← within .leftHandSide term
  blanks
  let comparator ← comparison
  let expr ← sum depth
  blanks
  let strength ← strengthMark
  blanks
  return (target, comparator, expr, strength)

def utf8Length (s : List Char) : Nat := s.foldl (fun n c => n + c.utf8Size) 0

/-- The statement a text spells, whatever it asks for. A text nests no deeper than it is
long. -/
def read (text : String) : Except LayoutError Statement :=
  let s := text.toList
  let offset (rest : List Char) := utf8Length s - utf8Length rest
  match body (s.length + 1) s with
  | .error f => .error (.malformed text (offset f.rest) (.expected f.expected))
  | .ok ((target, comparator, expr, strength), []) =>
    .ok { text, target, comparator, expr, strength }
  | .ok (_, rest) => .error (.malformed text (offset rest) .trailing)

/-! ## Statements that are no linear relation -/

/-- The first operation, operands before it, that is not linear. -/
def nonlinear? : Expr → Option Unsupported
  | .literal .. | .ref _ => none
  | .neg e => nonlinear? e
  | .binary op l r =>
    (nonlinear? l).or <| (nonlinear? r).or <|
      match op with
      | .mul => if !l.isConstant && !r.isConstant then some .product else none
      | .div => if !r.isConstant then some .divisor else none
      | _ => none

def unsupported? (s : Statement) : Option Unsupported :=
  if s.target.attr.isIntrinsic then some (.measuredTarget s.target) else nonlinear? s.expr

/-- Reads one statement and refuses what cannot become a linear relation. -/
def parse (text : String) : Except LayoutError Statement := do
  let s ← read text
  match s.unsupported? with
  | some reason => throw (.unsupported text reason)
  | none => return s

end Statement

end RegionLayout
