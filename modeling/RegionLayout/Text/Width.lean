-- How many cells of a text grid a text takes. Characters count nothing, one or two; in a text
-- some letters and pictures are written with several characters and are counted together.
import RegionLayout.Text.Emoji

namespace RegionLayout.Text

/-! ## One character -/

def isControl (c : Char) : Bool := c.toNat < 0x20 || (0x7F ≤ c.toNat && c.toNat ≤ 0x9F)

/-- The cells of a character that is shown. One Khmer sign, drawn with dots on both sides, is
the only one of three. -/
def cells (c : Char) : Nat :=
  if zeroWidth.holds c then 0
  else if wide.holds c then 2
  else if c.toNat = 0x17D8 then 3
  else 1

/-- The cells of a character by itself; control characters have no width. -/
def charWidth? (c : Char) : Option Nat := if isControl c then none else some (cells c)

/-! ## A text -/

/-- How a selector asks for the character before it to be shown. -/
inductive Presentation where
  | text
  | picture
deriving Repr, DecidableEq

def Presentation.ofSelector? (c : Char) : Option Presentation :=
  if c.toNat = 0xFE0E then some .text
  else if c.toNat = 0xFE0F then some .picture
  else none

/-- Pictures that are as narrow as a letter when they are shown as text. Those in the block of
enclosed ideographs stay wide. -/
def narrowsToText (c : Char) : Bool :=
  emojiPresentation.holds c && presentationBase.holds c &&
    !(0x1F200 ≤ c.toNat && c.toNat ≤ 0x1F2FF)

/-- What stands right of a character, as far as it matters for the width. -/
inductive Neighbour where
  | plain
  | ligature (read : Ligature)
  | emoji (read : Emoji)
deriving Repr, DecidableEq

namespace Neighbour

/-- What a character alone is to the one on its left. -/
def ofChar (c : Char) : Neighbour :=
  match Ligature.ofLast? c with
  | some l => .ligature l
  | none => ((Emoji.ofLast? c).map .emoji).getD .plain

def isJoined : Neighbour → Bool
  | .emoji e => e.isJoined
  | _ => false

/-- What remains past a selector that had no effect: it interrupts a picture but no
ligature. -/
def pastSelector : Neighbour → Neighbour
  | .ligature l => .ligature l
  | _ => .plain

/-- The cells a character adds when it continues what was read. -/
def extend? (n : Neighbour) (c : Char) : Option (Int × Neighbour) :=
  match n with
  | .plain => none
  | .ligature l => (l.extend? c).map fun (k, l) => (k, (l.map .ligature).getD .plain)
  | .emoji e => (e.extend? c).map fun (k, e) => (k, .emoji e)

end Neighbour

/-- What stands right of a character: a selector first, if there is one, and what is behind
it. -/
structure Context where
  neighbour : Neighbour
  selector : Option Presentation
deriving Repr, DecidableEq

namespace Context

def start : Context := ⟨.plain, none⟩

/-- What a character that no selector is for stands before. -/
def visible (right : Context) : Neighbour :=
  if right.selector.isSome then right.neighbour.pastSelector else right.neighbour

/-- A selector on the left. The one for pictures may stand before a joiner. -/
def withSelector (right : Context) (p : Presentation) : Context :=
  let n := right.visible
  ⟨if p = .picture && n.isJoined then n else n.pastSelector, some p⟩

end Context

/-- The cells a character adds to the text right of it, and what it is to the left. A picture
made of several characters is counted where its last one stands. A line end takes no cell, but
the delete character takes one. -/
def widthBefore (c : Char) (right : Context) : Int × Context :=
  if right.selector = some .picture && presentationBase.holds c then
    (if right.neighbour.isJoined then 0 else 2, ⟨.emoji .picture, none⟩)
  else if c.toNat ≤ 0xA0 then (if c.toNat < 0x20 then 0 else 1, .start)
  else
    match Presentation.ofSelector? c with
    | some p => (0, right.withSelector p)
    | none =>
      if right.selector = some .text && narrowsToText c then (1, .start)
      else
        let (k, n) := (right.visible.extend? c).getD (cells c, .ofChar c)
        (k, ⟨n, none⟩)

/-- Width and left context of a text, from its end to its start. -/
def widthIn (s : List Char) : Int × Context :=
  s.foldr
    (fun c right =>
      let (n, left) := widthBefore c right.2
      (n + right.1, left))
    (0, .start)

/-- The cells of a text without escape sequences. -/
def width (s : List Char) : Nat := (widthIn s).1.toNat

end RegionLayout.Text
