-- Rows of the tableau. A row is a constant and a coefficient for each of some symbols; it
-- stands for the sum, and a basic symbol equals the row kept for it.
import RegionLayout.Number.Scalar
import RegionLayout.SortedMap

namespace RegionLayout.Solver

variable {R : Type} [Scalar R]

inductive SymbolKind where
  /-- Stands for a variable, and may have any value. -/
  | external
  /-- The gap of an inequality, never negative. -/
  | slack
  /-- How far a constraint that may be violated is off, never negative. -/
  | error
  /-- Marks a required equation, and is always zero. -/
  | dummy
deriving Repr, DecidableEq

def SymbolKind.rank (k : SymbolKind) : Nat := k.ctorIdx

/-- Symbols are numbered as they are made. -/
structure Symbol where
  id : Nat
  kind : SymbolKind
deriving Repr, DecidableEq

namespace Symbol

/-- By number, then by kind. -/
def order (a b : Symbol) : Ordering :=
  compareLex (compareOn id) (compareOn fun s => s.kind.rank) a b

instance : Ord Symbol := ⟨order⟩

instance : Std.TransOrd Symbol :=
  inferInstanceAs (Std.TransCmp (compareLex (compareOn id) (compareOn fun s => s.kind.rank)))

instance : Std.LawfulEqOrd Symbol where
  eq_of_compare {a b} h := by
    have h : compareLex (compareOn id) (compareOn fun s : Symbol => s.kind.rank) a b = .eq := h
    rw [compareLex_eq_eq] at h
    obtain ⟨h1, h2⟩ := h
    have h1 := Std.LawfulEqOrd.eq_of_compare h1
    have h2 := Std.LawfulEqOrd.eq_of_compare h2
    obtain ⟨i, k⟩ := a
    obtain ⟨j, l⟩ := b
    cases k <;> cases l <;> simp_all [SymbolKind.rank] <;> contradiction

def isExternal (s : Symbol) : Bool := s.kind == .external

def isDummy (s : Symbol) : Bool := s.kind == .dummy

/-- Whether the symbol is restricted and may be the subject of a row. -/
def isPivotable (s : Symbol) : Bool := s.kind == .slack || s.kind == .error

end Symbol

/-- `constant + sum (coefficient · symbol)`. -/
structure Row (R : Type) where
  cells : SortedMap Symbol R
  constant : R

namespace Row

def ofConstant (c : R) : Row R := ⟨∅, c⟩

def coefficient (r : Row R) (s : Symbol) : R := (r.cells.get? s).getD 0

/-- Adds `c · s`. A coefficient that comes near zero leaves the row. -/
def insertSymbol (r : Row R) (s : Symbol) (c : R) : Row R :=
  { r with
    cells := r.cells.alter s fun old =>
      let c := old.getD 0 + c
      if Scalar.nearZero c then none else some c }

/-- Adds `c · other`. -/
def insertRow (r other : Row R) (c : R) : Row R :=
  other.cells.entries.foldl (fun r e => r.insertSymbol e.1 (e.2 * c))
    { r with constant := r.constant + other.constant * c }

def remove (r : Row R) (s : Symbol) : Row R := { r with cells := r.cells.erase s }

def shift (r : Row R) (x : R) : Row R := { r with constant := r.constant + x }

def negate (r : Row R) : Row R := ⟨r.cells.mapValues fun _ c => -c, -r.constant⟩

def scale (r : Row R) (factor : R) : Row R :=
  ⟨r.cells.mapValues fun _ c => c * factor, r.constant * factor⟩

/-- From `0 = r` to the row that `s` equals. -/
def solveFor (r : Row R) (s : Symbol) : Row R :=
  match r.cells.get? s with
  | none => r
  | some c => (r.remove s).scale (-1 / c)

/-- From `leaving = r` to the row that `entering` equals. -/
def exchange (r : Row R) (leaving entering : Symbol) : Row R :=
  (r.insertSymbol leaving (-1)).solveFor entering

/-- Puts the row `definition` in the place of `s`. -/
def substitute (r : Row R) (s : Symbol) (definition : Row R) : Row R :=
  match r.cells.get? s with
  | none => r
  | some c => (r.remove s).insertRow definition c

/-- Whether only dummies stand in it, so that it says `constant = 0`. -/
def allDummies (r : Row R) : Bool := r.cells.keys.all Symbol.isDummy

end Row

end RegionLayout.Solver
