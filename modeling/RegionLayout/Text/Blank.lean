-- Where words and lines end.

namespace RegionLayout.Text

/-- The characters with the Unicode property White_Space. -/
def isBlank (c : Char) : Bool :=
  let n := c.toNat
  (0x9 ≤ n && n ≤ 0xD) || n == 0x20 || n == 0x85 || n == 0xA0 || n == 0x1680 ||
    (0x2000 ≤ n && n ≤ 0x200A) || n == 0x2028 || n == 0x2029 || n == 0x202F || n == 0x205F ||
    n == 0x3000

/-- The pieces between the characters that pass `p`; one more than there are such. -/
def splitAt (p : Char → Bool) : List Char → List (List Char)
  | [] => [[]]
  | c :: r =>
    if p c then [] :: splitAt p r
    else match splitAt p r with
      | [] => [[c]]
      | w :: ws => (c :: w) :: ws

/-- The words: the longest runs without a blank. -/
def words (s : List Char) : List (List Char) := (splitAt isBlank s).filter fun w => !w.isEmpty

/-- The lines. A line end closes a line and opens none by itself. -/
def lines (s : List Char) : List (List Char) :=
  let pieces := splitAt (· == '\n') s
  if pieces.getLast? = some [] then pieces.dropLast else pieces

theorem splitAt_ne_nil (p : Char → Bool) (s : List Char) : splitAt p s ≠ [] := by
  cases s with
  | nil => simp [splitAt]
  | cons c r =>
    simp only [splitAt]
    split
    · simp
    · split <;> simp

end RegionLayout.Text
