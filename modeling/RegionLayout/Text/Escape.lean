-- Taking the escape sequences of a terminal out of a text. The text is read as a terminal
-- reads its bytes: characters outside a sequence are kept, and of the control characters only
-- a line end that the terminal would obey.

namespace RegionLayout.Text

/-! ## States -/

/-- Where in a sequence a terminal is. -/
inductive Terminal where
  | ground
  | escape
  | escapeIntermediate
  | csiEntry
  | csiParameter
  | csiIntermediate
  | csiIgnored
  | dcsEntry
  | dcsParameter
  | dcsIntermediate
  | dcsIgnored
  | dcsData
  /-- An operating system command. -/
  | osc
  /-- A start of string, privacy message or application command. -/
  | quiet
deriving Repr, DecidableEq

/-- What a byte does in a sequence: the next state, and whether the byte is obeyed. -/
structure Move where
  next : Terminal
  obeyed : Bool := false
deriving Repr, DecidableEq

/-- The bytes that a sequence obeys and goes on: all below the space but cancel, substitute and
escape. -/
def isInnerControl (b : Nat) : Bool := b < 0x20 && b != 0x18 && b != 0x1A && b != 0x1B

/-- What cancel, substitute and escape do wherever they stand. -/
def anywhere (state : Terminal) (b : Nat) : Move :=
  if b == 0x18 || b == 0x1A then ⟨.ground, true⟩
  else if b == 0x1B then ⟨.escape, false⟩
  else ⟨state, false⟩

def isIntermediate (b : Nat) : Bool := 0x20 ≤ b && b ≤ 0x2F

def isParameter (b : Nat) : Bool := 0x30 ≤ b && b ≤ 0x3B

def isPrivate (b : Nat) : Bool := 0x3C ≤ b && b ≤ 0x3F

def isFinal (b : Nat) : Bool := 0x40 ≤ b && b ≤ 0x7E

/-- The state that the byte after an escape opens. -/
def afterEscape (b : Nat) : Terminal :=
  if b == 0x50 then .dcsEntry
  else if b == 0x5B then .csiEntry
  else if b == 0x5D then .osc
  else if b == 0x58 || b == 0x5E || b == 0x5F then .quiet
  else .ground

/-- One byte inside a sequence. -/
def move (state : Terminal) (b : Nat) : Move :=
  match state with
  | .ground => ⟨.ground, false⟩
  | .escape =>
    if isInnerControl b then ⟨.escape, true⟩
    else if isIntermediate b then ⟨.escapeIntermediate, false⟩
    else if 0x30 ≤ b && b ≤ 0x7E then ⟨afterEscape b, false⟩
    else anywhere state b
  | .escapeIntermediate =>
    if isInnerControl b then ⟨state, true⟩
    else if 0x30 ≤ b && b ≤ 0x7E then ⟨.ground, false⟩
    else anywhere state b
  | .csiEntry =>
    if isInnerControl b then ⟨state, true⟩
    else if isIntermediate b then ⟨.csiIntermediate, false⟩
    else if isParameter b || isPrivate b then ⟨.csiParameter, false⟩
    else if isFinal b then ⟨.ground, false⟩
    else anywhere state b
  | .csiParameter =>
    if isInnerControl b then ⟨state, true⟩
    else if isIntermediate b then ⟨.csiIntermediate, false⟩
    else if isPrivate b then ⟨.csiIgnored, false⟩
    else if isFinal b then ⟨.ground, false⟩
    else anywhere state b
  | .csiIntermediate =>
    if isInnerControl b then ⟨state, true⟩
    else if isParameter b || isPrivate b then ⟨.csiIgnored, false⟩
    else if isFinal b then ⟨.ground, false⟩
    else anywhere state b
  | .csiIgnored =>
    if isInnerControl b then ⟨state, true⟩
    else if isFinal b then ⟨.ground, false⟩
    else anywhere state b
  | .dcsEntry =>
    if isIntermediate b then ⟨.dcsIntermediate, false⟩
    else if isParameter b || isPrivate b then ⟨.dcsParameter, false⟩
    else if isFinal b then ⟨.dcsData, false⟩
    else anywhere state b
  | .dcsParameter =>
    if isIntermediate b then ⟨.dcsIntermediate, false⟩
    else if isPrivate b then ⟨.dcsIgnored, false⟩
    else if isFinal b then ⟨.dcsData, false⟩
    else anywhere state b
  | .dcsIntermediate =>
    if isParameter b || isPrivate b then ⟨.dcsIgnored, false⟩
    else if isFinal b then ⟨.dcsData, false⟩
    else anywhere state b
  | .dcsIgnored => anywhere state b
  | .dcsData => if b == 0x9C then ⟨.ground, false⟩ else anywhere state b
  | .osc => if b == 0x07 then ⟨.ground, false⟩ else anywhere state b
  | .quiet => anywhere state b

/-! ## Characters -/

def lineEnd (b : Nat) : List Char := if b == 0x0A then ['\n'] else []

/-- A byte from the middle of a character, met outside a sequence: a control byte is dropped
and any other leaves the mark of a damaged character. -/
def strayByte (b : Nat) : List Char := if b ≤ 0x9F then [] else [Char.ofNat 0xFFFD]

/-- Feeds the bytes of one character to a sequence. A string that ends at one of them leaves
the others to the ground. -/
def feedBytes : Terminal → List Nat → Terminal × List Char
  | state, [] => (state, [])
  | .ground, b :: rest =>
    let (state, out) := feedBytes .ground rest
    (state, strayByte b ++ out)
  | state, b :: rest =>
    let m := move state b
    let (next, out) := feedBytes m.next rest
    (next, (if m.obeyed then lineEnd b else []) ++ out)

/-- A character outside a sequence. -/
def ground (c : Char) : Terminal × List Char :=
  if c.toNat == 0x1B then (.escape, [])
  else if c.toNat < 0x20 then (.ground, lineEnd c.toNat)
  else if 0x80 ≤ c.toNat && c.toNat ≤ 0x9F then (.ground, [])
  else (.ground, [c])

def feed (state : Terminal) (c : Char) : Terminal × List Char :=
  match state with
  | .ground => ground c
  | state => feedBytes state ((String.utf8EncodeChar c).map UInt8.toNat)

/-- What is left of a text read from a state on. -/
def stripFrom : Terminal → List Char → List Char
  | _, [] => []
  | state, c :: r =>
    let (next, out) := feed state c
    out ++ stripFrom next r

/-- A text without escape sequences. -/
def strip (s : List Char) : List Char := stripFrom .ground s

end RegionLayout.Text
