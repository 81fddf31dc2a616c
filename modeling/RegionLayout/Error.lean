-- The errors of a layout, each as its cause. The wording is in one place.
import RegionLayout.Statement
import RegionLayout.Solver.Fault

namespace RegionLayout

/-- A setting or a call that cannot be used. -/
inductive Misconfiguration where
  /-- The number is given as text. -/
  | notPositive (setting value : String)
  | negativePadding
  | noSource
  | sourceWithoutConstraints
  | unmeasuredChild (name : String)
deriving Repr, DecidableEq

def Misconfiguration.message : Misconfiguration → String
  | notPositive setting value => setting ++ " must be a positive number, got " ++ value
  | negativePadding => "padding must not be negative"
  | noSource => "no constraint source was supplied"
  | sourceWithoutConstraints => "missing `constraints` in constraint source"
  | unmeasuredChild name => "child `" ++ name ++ "` was not measured before the pass finished"

inductive LayoutError where
  /-- The reader stopped `offset` bytes into the text. -/
  | malformed (text : String) (offset : Nat) (problem : SyntaxProblem)
  | unsupported (text : String) (reason : Unsupported)
  | conflict (text : String) (reason : Solver.Fault)
  | notFound (what : String)
  | unknownHandle (handle : Int)
  | configuration (m : Misconfiguration)
  | setupIncomplete
  | solver (f : Solver.Fault)
deriving Repr, DecidableEq

namespace LayoutError

def message : LayoutError → String
  | malformed text offset problem =>
    "syntax error in constraint `" ++ text ++ "` at offset " ++ toString offset ++ ": " ++
      problem.message
  | unsupported text reason =>
    "unsupported expression in constraint `" ++ text ++ "`: " ++ reason.message
  | conflict text reason =>
    "constraint `" ++ text ++ "` conflicts with the constraint system: " ++ reason.message
  | notFound what => "region `" ++ what ++ "` not found"
  | unknownHandle h => "no region is registered for handle " ++ toString h
  | configuration m => "configuration error: " ++ m.message
  | setupIncomplete => "constraint setup has not completed"
  | solver f => "solver error: " ++ f.message

/-- Whether a statement itself is at fault, so that trying it again fails again. -/
def isConstraintError : LayoutError → Bool
  | malformed .. | unsupported .. | conflict .. => true
  | _ => false

end LayoutError

end RegionLayout
