-- Which attributes of which regions a batch of relations asks for. A model has them all before
-- its solver sees the first of the relations.
import RegionLayout.Relation

namespace RegionLayout

/-- Which attributes of which regions are needed. -/
structure Demand where
  regions : SortedMap String (SortedMap Attribute Unit)

namespace Demand

def empty : Demand := ⟨∅⟩

def insert (d : Demand) (region : String) (a : Attribute) : Demand :=
  ⟨d.regions.alter region fun old => some ((old.getD ∅).insert a ())⟩

def contains (d : Demand) (region : String) (a : Attribute) : Bool :=
  match d.regions.get? region with
  | some attributes => attributes.contains a
  | none => false

/-- Every attribute that a relation has left. -/
def ofRelations {R : Type} [Scalar R] (relations : List (Relation R)) : Demand :=
  (relations.flatMap Relation.refs).foldl (fun d r => d.insert r.region r.attr) empty

/-- The regions by name, each with its attributes in their order. -/
def toList (d : Demand) : List (String × List Attribute) :=
  d.regions.entries.map fun (region, attributes) => (region, attributes.keys)

end Demand

end RegionLayout
