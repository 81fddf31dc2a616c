-- Breaking a text into lines of a width. Words are joined by one space as long as they fit; a
-- word that is wider than a whole line is broken between characters.
import RegionLayout.Text.Blank
import RegionLayout.Text.Escape
import RegionLayout.Text.Width

namespace RegionLayout.Text

/-- The cells of a text, escape sequences not counted. -/
def displayWidth (s : List Char) : Nat := width (strip s)

/-- The lines that are full, the latest first, and the one being filled. -/
structure Wrapping where
  full : List (List Char)
  current : List Char
  /-- The cells that count as used in the current line. -/
  used : Nat

namespace Wrapping

def start : Wrapping := ⟨[], [], 0⟩

/-- Starts a new line. -/
def newLine (w : Wrapping) : Wrapping := ⟨w.current :: w.full, [], 0⟩

/-- Adds a character of a long word, on a new line if it does not fit on a used one. -/
def addChar (limit : Nat) (w : Wrapping) (c : Char) : Wrapping :=
  let n := (charWidth? c).getD 0
  let w := if limit < w.used + n && 0 < w.used then w.newLine else w
  { w with current := w.current ++ [c], used := w.used + n }

/-- Adds a word after a space if that fits, else on a new line. -/
def addWord (limit : Nat) (w : Wrapping) (word : List Char) : Wrapping :=
  let n := displayWidth word
  if 0 < w.used && w.used + 1 + n ≤ limit then
    { w with current := w.current ++ ' ' :: word, used := w.used + 1 + n }
  else
    let w := if 0 < w.used then w.newLine else w
    if n ≤ limit then { w with current := w.current ++ word, used := n }
    else word.foldl (addChar limit) w

/-- The lines, the last included even when it is empty. -/
def toList (w : Wrapping) : List (List Char) := (w.current :: w.full).reverse

end Wrapping

/-- The lines of one line of text. -/
def wrapLine (limit : Nat) (line : List Char) : List (List Char) :=
  ((words line).foldl (Wrapping.addWord limit) .start).toList

/-- The lines of a text no wider than a limit. Without one above zero they are the text's
own. -/
def wrap (text : String) (limit : Option Int) : List String :=
  let own := lines (strip text.toList)
  let wrapped := match limit with
    | some n => if 0 < n then own.flatMap (wrapLine n.toNat) else own
    | none => own
  wrapped.map String.ofList

end RegionLayout.Text
