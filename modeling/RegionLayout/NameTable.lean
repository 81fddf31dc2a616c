-- Which region a host's handle stands for. Each handle has at most one name and each name at
-- most one handle; a pair that is entered puts out the older pairs it shares a side with.
import RegionLayout.Error
import RegionLayout.SortedMap

namespace RegionLayout

/-- The number by which a host knows a child. -/
abbrev Handle := Int

structure NameTable where
  byHandle : SortedMap Handle String := ∅
  byName : SortedMap String Handle := ∅

namespace NameTable

def empty : NameTable := {}

def name? (t : NameTable) (h : Handle) : Option String := t.byHandle.get? h

def handle? (t : NameTable) (name : String) : Option Handle := t.byName.get? name

/-- The name of a handle that must have one. -/
def nameOf (t : NameTable) (h : Handle) : Except LayoutError String :=
  match t.name? h with
  | some name => .ok name
  | none => .error (.unknownHandle h)

/-- The handles by name, less the name that the handle has. -/
def namesWithout (t : NameTable) (h : Handle) : SortedMap String Handle :=
  match t.name? h with
  | some old => t.byName.erase old
  | none => t.byName

/-- Enters a pair: the handle's older name loses its handle, and then the name's older handle
its name. -/
def register (t : NameTable) (h : Handle) (name : String) : NameTable :=
  let byHandle := t.byHandle.insert h name
  let byName := t.namesWithout h
  match byName.get? name with
  | some other =>
    ⟨if other = h then byHandle else byHandle.erase other, byName.insert name h⟩
  | none => ⟨byHandle, byName.insert name h⟩

/-- The table of a list of pairs, entered in turn. -/
def ofList (pairs : List (Handle × String)) : NameTable :=
  pairs.foldl (fun t p => t.register p.1 p.2) empty

/-- How many handles have a name. -/
def size (t : NameTable) : Nat := t.byHandle.size

def isEmpty (t : NameTable) : Bool := t.byHandle.isEmpty

end NameTable

end RegionLayout
