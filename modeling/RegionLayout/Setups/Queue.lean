-- The callbacks that wait for the host's thread, in the order in which they were posted, and how
-- the thread runs them. Once the queue is closed nothing waits and nothing can be posted.

namespace RegionLayout.Setups

structure Queue (C : Type) where
  /-- The oldest first. -/
  waiting : List C := []
  isOpen : Bool := true

namespace Queue

variable {C : Type}

/-- Puts a callback at the end, if the queue is open. -/
def post (q : Queue C) (c : C) : Queue C :=
  if q.isOpen then { q with waiting := q.waiting ++ [c] } else q

/-- The oldest callback, and the queue without it. -/
def next? (q : Queue C) : Option (C × Queue C) :=
  match q.waiting with
  | [] => none
  | c :: rest => some (c, { q with waiting := rest })

/-- A closed queue. What was waiting is lost. -/
def close (_ : Queue C) : Queue C := { isOpen := false }

end Queue

/-- The thread that owns a queue: where its state has the queue, and what a callback does to that
state when it runs. -/
structure Thread (C σ : Type) where
  queue : σ → Queue C
  withQueue : Queue C → σ → σ
  run : C → StateM σ Unit

namespace Thread

variable {C σ : Type} (t : Thread C σ)

/-- Runs the oldest waiting callback, if one waits. -/
def next : StateM σ (Option C) := do
  match (t.queue (← get)).next? with
  | none => return none
  | some (k, queue) =>
    modify (t.withQueue queue)
    t.run k
    return some k

/-- Runs waiting callbacks in turn, those posted meanwhile included, at most so many. Answers which
have run. -/
def runAtMost : Nat → StateM σ (List C)
  | 0 => return []
  | turns + 1 => do
    match ← t.next with
    | none => return []
    | some k => return k :: (← runAtMost turns)

end Thread

end RegionLayout.Setups
