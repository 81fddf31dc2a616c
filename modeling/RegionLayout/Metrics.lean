-- Counters of passes and setups. Each stops at the largest number of sixty-four bits.
import RegionLayout.Log.Event

namespace RegionLayout

structure Metrics where
  placeholderMeasures : Nat := 0
  solvedMeasures : Nat := 0
  layoutPasses : Nat := 0
  solves : Nat := 0
  intrinsicEdits : Nat := 0
  setupsStarted : Nat := 0
  setupsCompleted : Nat := 0
  setupsDiscarded : Nat := 0
  setupsFailed : Nat := 0
deriving Repr, DecidableEq

namespace Metrics

/-- The largest count. -/
def ceiling : Nat := 18446744073709551615

/-- A count and so many more. -/
def raise (count more : Nat) : Nat := min (count + more) ceiling

def recordPlaceholderMeasure (m : Metrics) : Metrics :=
  { m with placeholderMeasures := raise m.placeholderMeasures 1 }

def recordSolvedMeasure (m : Metrics) : Metrics :=
  { m with solvedMeasures := raise m.solvedMeasures 1 }

def recordLayout (m : Metrics) : Metrics := { m with layoutPasses := raise m.layoutPasses 1 }

def recordSolves (n : Nat) (m : Metrics) : Metrics := { m with solves := raise m.solves n }

def recordIntrinsicEdits (n : Nat) (m : Metrics) : Metrics :=
  { m with intrinsicEdits := raise m.intrinsicEdits n }

def recordSetupStarted (m : Metrics) : Metrics :=
  { m with setupsStarted := raise m.setupsStarted 1 }

def recordSetupCompleted (m : Metrics) : Metrics :=
  { m with setupsCompleted := raise m.setupsCompleted 1 }

def recordSetupDiscarded (m : Metrics) : Metrics :=
  { m with setupsDiscarded := raise m.setupsDiscarded 1 }

def recordSetupFailed (m : Metrics) : Metrics :=
  { m with setupsFailed := raise m.setupsFailed 1 }

/-- The counters by name. -/
def fields (m : Metrics) : List (String × Json) :=
  [("placeholder_measures", .ofNat m.placeholderMeasures),
    ("solved_measures", .ofNat m.solvedMeasures),
    ("layout_passes", .ofNat m.layoutPasses),
    ("solves", .ofNat m.solves),
    ("intrinsic_edits", .ofNat m.intrinsicEdits),
    ("setups_started", .ofNat m.setupsStarted),
    ("setups_completed", .ofNat m.setupsCompleted),
    ("setups_discarded", .ofNat m.setupsDiscarded),
    ("setups_failed", .ofNat m.setupsFailed)]

/-- The counters as an event. -/
def event (m : Metrics) (time : Nat) (target : String) : Log.Event :=
  ⟨time, .info, target, "layout_metrics", .ofList m.fields⟩

end Metrics

end RegionLayout
