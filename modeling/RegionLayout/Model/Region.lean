-- Regions as a model keeps them: four variables each one always has, and centres and measured
-- sizes once a statement speaks of them.
import RegionLayout.Attribute
import RegionLayout.Solver.Constraint

namespace RegionLayout

/-- The name of the region that contains all others. -/
def containerName : String := "parent"

structure Region where
  name : String
  vars : SortedMap Attribute Variable

namespace Region

/-- A region whose primary variables are numbered from `first` on. -/
def make (name : String) (first : Nat) : Region where
  name := name
  vars := SortedMap.ofList <| Attribute.primary.zipIdx.map fun (a, i) => (a, ⟨first + i⟩)

def isContainer (r : Region) : Bool := r.name == containerName

def get? (r : Region) (a : Attribute) : Option Variable := r.vars.get? a

def has (r : Region) (a : Attribute) : Bool := r.vars.contains a

/-- Whether the host measures the region along an axis. -/
def hasIntrinsic (r : Region) (x : Axis) : Bool := r.has x.intrinsic

def attributes (r : Region) : List Attribute := r.vars.keys

end Region

end RegionLayout
