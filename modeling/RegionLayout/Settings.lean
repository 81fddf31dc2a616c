-- The settings of a container.
import RegionLayout.Error
import RegionLayout.Geometry
import RegionLayout.Number.Scalar

namespace RegionLayout

structure Settings (R : Type) where
  /-- Models are built by a worker, not on the caller's thread. -/
  asyncSetup : Bool
  /-- Width over height while there is no model. -/
  aspectRatio : R
  /-- Pixels in one `dp`. -/
  density : R
  padding : Padding

namespace Settings

variable {R : Type} [Scalar R]

def standard : Settings R := ⟨true, 1, 1, .none⟩

/-- A number that must be positive. `setting` is its name in messages. -/
def positive (setting : String) (x : R) : Except LayoutError Unit :=
  if Scalar.isPositive x then .ok ()
  else .error (.configuration (.notPositive setting (Scalar.text x)))

def checkRatio (x : R) : Except LayoutError Unit := positive "preSetupAspectRatio" x

/-- Whether a container can use the settings; of several flaws the first in this order counts. -/
def validate (s : Settings R) : Except LayoutError Unit := do
  checkRatio s.aspectRatio
  positive "density" s.density
  if s.padding.hasNegativeSide then throw (.configuration .negativePadding)

end Settings

end RegionLayout
