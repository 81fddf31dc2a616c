-- The sizes of what fills a child. A block of text is measured on a grid of cells: a column is
-- one unit wide and a line one unit tall.
import RegionLayout.Sizing.MeasureSpec
import RegionLayout.Text.Wrap

namespace RegionLayout

open Number

/-- The size of a text under two specs. A limit on the width wraps it. -/
def measureText (text : String) (width height : MeasureSpec) : Size :=
  let lines := Text.wrap text width.limit
  let natural := (lines.map fun l => Text.displayWidth l.toList).foldl max 0
  ⟨width.resolve (saturate natural), height.resolve (saturate lines.length)⟩

/-- What fills a child, as far as its size goes. -/
inductive Content where
  /-- A box that takes its natural size where it may. -/
  | box (natural : Size)
  /-- Always of one size. -/
  | rigid (size : Size)
  | text (t : String)

/-- The size of a child under two specs. -/
def Content.measure (c : Content) (width height : MeasureSpec) : Size :=
  match c with
  | box natural => ⟨width.resolve natural.width, height.resolve natural.height⟩
  | rigid size => size
  | text t => measureText t width height

end RegionLayout
