-- Pictures that are written with several characters: a base with a skin tone, pictures held
-- together by joiners, flags. They are read from the end of a text to its start.
import RegionLayout.Text.EmojiTable
import RegionLayout.Text.Ligature

namespace RegionLayout.Text

/-- The letters that name the region of a flag, two by two. -/
def regionalIndicator : Ranges := [(0x1F1E6, 0x1F1FF)]

/-- Letters and digits of the tags that follow a black flag. -/
def tagLetter : Ranges := [(0xE0061, 0xE007A)]

def tagDigit : Ranges := [(0xE0030, 0xE0039)]

def isTagEnd (c : Char) : Bool := c.toNat = 0xE007F

def isBlackFlag (c : Char) : Bool := c.toNat = 0x1F3F4

def isKeycap (c : Char) : Bool := c.toNat = 0x20E3

/-- What was read of a picture. -/
inductive Emoji where
  | picture
  | skinTone
  /-- One letter of a flag. -/
  | indicator
  /-- Several of them. -/
  | indicators
  /-- A joiner with a picture after it: what stands before it belongs to the same picture. -/
  | joined
  /-- A keycap before that. -/
  | keycap
  /-- A letter of a flag before the joiner. -/
  | joinedIndicator
  /-- Several of them, and whether they make whole flags. -/
  | joinedIndicators (whole : Bool)
  /-- The end of a flag's tags before the joiner, and so many letters. -/
  | tagLetters (count : Nat)
  /-- The same with digits before the letters. -/
  | tagDigits (count : Nat)
deriving Repr, DecidableEq

namespace Emoji

/-- The pictures a character can be the last of. -/
def ofLast? (c : Char) : Option Emoji :=
  if emojiModifier.holds c then some .skinTone
  else if regionalIndicator.holds c then some .indicator
  else if emojiPresentation.holds c then some .picture
  else none

/-- Whether a character before is counted with what was read. -/
def isJoined : Emoji → Bool
  | joined | keycap => true
  | _ => false

/-- Whether a joiner before makes the character before it a part of the picture. -/
def isJoinable : Emoji → Bool
  | picture | skinTone | indicators | joinedIndicators _ => true
  | _ => false

/-- Whether the tags read name a region and a part of it. -/
def isTagged : Emoji → Bool
  | tagLetters n => 3 ≤ n
  | tagDigits n => n = 3
  | _ => false

/-- A tag before what was read. Letters come up to six; three digits stand before at most four
letters. -/
def withTag? (e : Emoji) (c : Char) : Option Emoji :=
  match e with
  | tagLetters n =>
    if tagLetter.holds c && n < 6 then some (tagLetters (n + 1))
    else if tagDigit.holds c && n ≤ 4 then some (tagDigits 1)
    else none
  | tagDigits n => if tagDigit.holds c && n < 3 then some (tagDigits (n + 1)) else none
  | _ => none

/-- How many cells the text grows by when a character continues a picture, and what is read of
it then. Before a joiner the second letter of a flag takes back the cell that the first was
given, and the first letter of the flag before it returns it. -/
def extend? (e : Emoji) (c : Char) : Option (Int × Emoji) :=
  if c = joiner then if e.isJoinable then some (0, joined) else none
  else if isBlackFlag c && e.isTagged then some (0, picture)
  else
    match e with
    | skinTone => if modifierBase.holds c then some (0, picture) else none
    | indicator | indicators => if regionalIndicator.holds c then some (1, indicators) else none
    | joined =>
      if isKeycap c then some (0, keycap)
      else if isTagEnd c then some (0, tagLetters 0)
      else
        match ofLast? c with
        | some .indicator => some (1, joinedIndicator)
        | last => last.map fun e => (0, e)
    | joinedIndicator | joinedIndicators false =>
      if regionalIndicator.holds c then some (-1, joinedIndicators true) else none
    | joinedIndicators true =>
      if regionalIndicator.holds c then some (3, joinedIndicators false) else none
    | e => (e.withTag? c).map fun e => (0, e)

end Emoji

end RegionLayout.Text
