-- How the thread of a queue runs what waits. One call goes by rounds: it runs all that wait when it
-- comes, in the order in which they were posted, then all that these have posted meanwhile, and so
-- on until a round has posted nothing. So a call leaves nothing to the next, and it comes to an end
-- only if there is such a round.
import RegionLayout.Proofs.Setups.Calling
import Mathlib.Algebra.GroupWithZero.Nat
import Mathlib.Logic.Function.Iterate

namespace RegionLayout.Setups

/-! ## Rounds -/

namespace Thread

variable {C σ : Type} {t : Thread C σ} {s s' : σ} {k : C} {rest ran later : List C} {n : ℕ}

def waiting (t : Thread C σ) (s : σ) : List C := (t.queue s).waiting

/-- A callback that runs can put others at the end of the queue, and that is all it can do to it. -/
structure PostsOnly (t : Thread C σ) : Prop where
  queue_withQueue : ∀ q s, t.queue (t.withQueue q s) = q
  run : ∀ k s, ∃ posted, t.waiting (t.run k s).2 = t.waiting s ++ posted

/-- The state when a callback has run that stood before these. -/
def afterRun (t : Thread C σ) (k : C) (rest : List C) (s : σ) : σ :=
  (t.run k (t.withQueue { t.queue s with waiting := rest } s)).2

/-- The state when all that wait in this one have run. -/
def round (t : Thread C σ) (s : σ) : σ := (t.runAtMost (t.waiting s).length s).2

/-- The call comes to an end: after some turns nothing waits. -/
def Drains (t : Thread C σ) (s : σ) (ran : List C) (s' : σ) : Prop :=
  ∃ turns, t.runAtMost turns s = (ran, s') ∧ t.waiting s' = []

theorem runAtMost_of_nil (h : t.waiting s = []) (n : ℕ) : t.runAtMost n s = ([], s) := by
  cases n with
  | zero => rfl
  | succ n =>
    unfold runAtMost
    simp only [bind, StateT.bind, next_of_nil h]
    rfl

theorem runAtMost_of_cons (h : t.waiting s = k :: rest) (n : ℕ) : t.runAtMost (n + 1) s =
    (k :: (t.runAtMost n (t.afterRun k rest s)).1, (t.runAtMost n (t.afterRun k rest s)).2) := by
  rw [runAtMost]
  simp only [bind, StateT.bind, next_of_cons h]
  rfl

/-- Turns that are taken in two parts. -/
theorem runAtMost_add (m n : ℕ) (s : σ) : t.runAtMost (m + n) s =
    ((t.runAtMost m s).1 ++ (t.runAtMost n (t.runAtMost m s).2).1,
      (t.runAtMost n (t.runAtMost m s).2).2) := by
  induction m generalizing s with
  | zero =>
    rw [Nat.zero_add]
    rfl
  | succ m ih =>
    rw [Nat.succ_add]
    cases h : t.waiting s with
    | nil => simp only [runAtMost_of_nil h, List.nil_append]
    | cons k rest => simp only [runAtMost_of_cons h, ih, List.cons_append]

theorem PostsOnly.afterRun (h : t.PostsOnly) (k : C) (rest : List C) (s : σ) :
    ∃ posted, t.waiting (t.afterRun k rest s) = rest ++ posted := by
  obtain ⟨posted, hposted⟩ := h.run k (t.withQueue { t.queue s with waiting := rest } s)
  exact ⟨posted, by rw [Thread.afterRun, hposted, waiting, h.queue_withQueue]⟩

/-- As many turns as callbacks wait run these, in turn, and what waits then they have posted. -/
theorem PostsOnly.runAtMost (h : t.PostsOnly) {first : List C} (hs : t.waiting s = first ++ later) :
    ∃ s₁ posted, t.runAtMost first.length s = (first, s₁) ∧ t.waiting s₁ = later ++ posted := by
  induction first generalizing s later with
  | nil => exact ⟨s, [], rfl, by simpa using hs⟩
  | cons k rest ih =>
    obtain ⟨posted, hposted⟩ := h.afterRun k (rest ++ later) s
    rw [List.append_assoc] at hposted
    obtain ⟨s₁, posted', hran, hs₁⟩ := ih hposted
    refine ⟨s₁, posted ++ posted', ?_, by rw [hs₁, List.append_assoc]⟩
    rw [List.length_cons, runAtMost_of_cons hs, List.append_eq, hran]

theorem PostsOnly.runAtMost_waiting (h : t.PostsOnly) (s : σ) :
    t.runAtMost (t.waiting s).length s = (t.waiting s, t.round s) := by
  obtain ⟨s₁, posted, hran, -⟩ := h.runAtMost (s := s) (List.append_nil _).symm
  rw [round, hran]

/-! ## Calls that end -/

/-- A call that runs nothing found nothing to run. -/
theorem Drains.waiting_eq_nil (h : t.Drains s [] s') : t.waiting s = [] := by
  obtain ⟨turns, hran, hs'⟩ := h
  cases hs : t.waiting s with
  | nil => rfl
  | cons k rest =>
    cases turns with
    | zero =>
      obtain rfl : s = s' := congrArg Prod.snd hran
      rw [hs] at hs'
      cases hs'
    | succ n =>
      rw [runAtMost_of_cons hs] at hran
      cases congrArg Prod.fst hran

theorem drains_of_nil (h : t.waiting s = []) : t.Drains s [] s := ⟨0, rfl, h⟩

/-- A call that ends has run all that wait, and then it ends from there. -/
theorem PostsOnly.drains_iff (h : t.PostsOnly) : t.Drains s ran s' ↔
    ∃ later, ran = t.waiting s ++ later ∧ t.Drains (t.round s) later s' := by
  have hround := h.runAtMost_waiting s
  constructor
  · rintro ⟨turns, hran, hs'⟩
    -- turns that come after the end change nothing
    have hmore : t.runAtMost (turns + (t.waiting s).length) s = (ran, s') := by
      rw [runAtMost_add, hran, runAtMost_of_nil hs', List.append_nil]
    rw [Nat.add_comm, runAtMost_add, hround, Prod.mk.injEq] at hmore
    exact ⟨_, hmore.1.symm, turns, Prod.ext rfl hmore.2, hs'⟩
  · rintro ⟨later, rfl, turns, hran, hs'⟩
    refine ⟨(t.waiting s).length + turns, ?_, hs'⟩
    rw [runAtMost_add, hround, hran]

theorem PostsOnly.ends_iff (h : t.PostsOnly) :
    (∃ ran s', t.Drains s ran s') ↔ ∃ n, t.waiting (t.round^[n] s) = [] := by
  constructor
  · rintro ⟨ran, s', hs⟩
    induction hlength : ran.length using Nat.strongRecOn generalizing s ran with
    | ind l ih =>
      obtain ⟨later, rfl, hlater⟩ := h.drains_iff.1 hs
      cases hw : t.waiting s with
      | nil => exact ⟨0, hw⟩
      | cons k rest =>
        rw [hw, List.length_append, List.length_cons] at hlength
        obtain ⟨n, hn⟩ := ih later.length (by omega) later hlater rfl
        exact ⟨n + 1, hn⟩
  · rintro ⟨n, hn⟩
    induction n generalizing s with
    | zero => exact ⟨[], s, drains_of_nil hn⟩
    | succ n ih =>
      obtain ⟨later, s', hlater⟩ := ih hn
      exact ⟨_, s', h.drains_iff.2 ⟨later, rfl, hlater⟩⟩

end Thread

/-! ## The thread of the setups -/

variable {R : Type} {c c' c'' : Setups R} {k : Callback R} {n n' : ℕ}

theorem reachAll_eq (os : List Observer) :
    Observer.reachAll os = (os.map Observer.reach).sum := by
  induction os with
  | nil => simp [Observer.reachAll]
  | cons o os ih => simp [Observer.reachAll, ih]

theorem reach_eq (o : Observer) : o.reach = 1 + (o.registers.map Observer.reach).sum := by
  cases o with
  | mk label os => rw [Observer.reach, reachAll_eq, Observer.registers]

theorem backlog_eq (c : Setups R) : c.backlog =
    (c.queue.waiting.map Callback.reach).sum + (c.observers.map Observer.reach).sum := by
  have hfold (l : List (Callback R)) (n : ℕ) :
      l.foldl (fun n k => n + k.reach) n = n + (l.map Callback.reach).sum := by
    induction l generalizing n with
    | nil => simp
    | cons k l ih => simp [ih, Nat.add_assoc]
  rw [backlog, hfold, reachAll_eq, Nat.zero_add]

/-- The queue has only got longer, and at most so many more calls are to come. -/
structure Grown (n : ℕ) (c c' : Setups R) : Prop where
  posted : ∃ posted, c'.queue.waiting = c.queue.waiting ++ posted
  backlog : c'.backlog ≤ c.backlog + n

theorem Grown.of_eq (hwaiting : c'.queue.waiting = c.queue.waiting)
    (hobservers : c'.observers = c.observers) : Grown 0 c c' where
  posted := ⟨[], by rw [hwaiting, List.append_nil]⟩
  backlog := Nat.le_of_eq (by rw [backlog_eq, hwaiting, hobservers, ← backlog_eq, Nat.add_zero])

theorem Grown.mono (h : Grown n c c') (hn : n ≤ n') : Grown n' c c' :=
  ⟨h.posted, Nat.le_trans h.backlog (Nat.add_le_add_left hn _)⟩

theorem Grown.trans (h : Grown n c c') (h' : Grown n' c' c'') : Grown (n + n') c c'' where
  posted := by
    obtain ⟨posted, h⟩ := h.posted
    obtain ⟨posted', h'⟩ := h'.posted
    exact ⟨posted ++ posted', by rw [h', h, List.append_assoc]⟩
  backlog := by
    have hfirst := h.backlog
    have hlast := h'.backlog
    omega

theorem grown_post (k : Callback R) (c : Setups R) : Grown k.reach c (post k c).2 := by
  change Grown k.reach c { c with queue := c.queue.post k }
  cases hopen : c.queue.isOpen with
  | false =>
    have hqueue : c.queue.post k = c.queue := by rw [Queue.post, if_neg (by simp [hopen])]
    rw [hqueue]
    exact (Grown.of_eq rfl rfl).mono (Nat.zero_le _)
  | true =>
    have hwaiting : (c.queue.post k).waiting = c.queue.waiting ++ [k] := by
      rw [Queue.post, if_pos hopen]
    refine ⟨⟨[k], hwaiting⟩, ?_⟩
    simp only [backlog_eq, hwaiting, List.map_append, List.map_cons, List.map_nil, List.sum_append,
      List.sum_cons, List.sum_nil]
    omega

theorem grown_forM {α : Type} {f : α → Step R Unit} {w : α → ℕ}
    (hf : ∀ a c, Grown (w a) c (f a c).2) (l : List α) (c : Setups R) :
    Grown (l.map w).sum c (l.forM f c).2 := by
  induction l generalizing c with
  | nil => exact .of_eq rfl rfl
  | cons a l ih =>
    rw [List.map_cons, List.sum_cons]
    exact (hf a c).trans (ih (f a c).2)

/-- Whether it is called or waits, an observer that registers leads to as many calls. -/
theorem grown_onComplete (o : Observer) (c : Setups R) : Grown o.reach c (onComplete o c).2 := by
  cases h : c.activePublication? with
  | none =>
    rw [onComplete_of_none h]
    refine ⟨⟨[], (List.append_nil _).symm⟩, Nat.le_of_eq ?_⟩
    simp only [backlog_eq, List.map_append, List.map_cons, List.map_nil, List.sum_append,
      List.sum_cons, List.sum_nil, Nat.add_zero, Nat.add_assoc]
  | some p =>
    rw [onComplete_of_some h]
    exact grown_post (.notify o p) c

/-- The call of an observer registers others, and is itself one less to come. -/
theorem grown_notify (o : Observer) (p : ℕ) (c : Setups R) :
    Grown (o.registers.map Observer.reach).sum c (notify o p c).2 := by
  rw [notify_apply]
  split
  · rename_i m _
    have hnoted : Grown 0 c { c with notices := c.notices ++ [.completed o.label p m] } :=
      .of_eq rfl rfl
    have hregister := hnoted.trans (grown_forM grown_onComplete o.registers _)
    rwa [Nat.zero_add] at hregister
  · exact (Grown.of_eq rfl rfl).mono (Nat.zero_le _)

theorem grown_complete (e : ℕ) (built : Except LayoutError (Model R)) (c : Setups R) :
    Grown 0 c (complete e built c).2 := by
  by_cases h : c.epoch = e
  · cases built with
    | error x =>
      obtain ⟨telemetry, hcomplete, -⟩ := complete_error_apply h x
      rw [hcomplete]
      exact .of_eq rfl rfl
    | ok m =>
      obtain ⟨telemetry, hcomplete, -⟩ := complete_ok_apply h m
      rw [hcomplete]
      have hcall (o : Observer) (c' : Setups R) :
          Grown o.reach c' (notify o c.published.length c').2 :=
        (grown_notify o _ c').mono (by rw [reach_eq]; exact Nat.le_add_left _ _)
      have hcalls := grown_forM hcall c.observers
        { c with
          published := c.published ++ [m]
          inFlight := if c.inFlight = some e then none else c.inFlight
          layoutRequested := true, observers := [], telemetry }
      -- those who waited are called now, and count as waiting no more
      refine ⟨hcalls.posted, Nat.le_trans hcalls.backlog (Nat.le_of_eq ?_)⟩
      simp only [backlog_eq, List.map_nil, List.sum_nil, Nat.add_zero]
  · obtain ⟨telemetry, hcomplete, -⟩ := complete_of_ne_apply h built
    rw [hcomplete]
    exact .of_eq rfl rfl

/-- Whatever runs, it only posts, and there is one callback less to come. -/
theorem grown_run (k : Callback R) (c : Setups R) : Grown (k.reach - 1) c (run k c).2 := by
  cases k with
  | notify o p =>
    rw [Callback.reach, reach_eq, Nat.add_sub_cancel_left]
    exact grown_notify o p c
  | completion e built =>
    obtain ⟨telemetry, hrun, -⟩ := run_completion e built c
    rw [hrun]
    have hnoted : Grown 0 c { c with telemetry } := .of_eq rfl rfl
    exact hnoted.trans (grown_complete e built _)

theorem thread_postsOnly : (thread (R := R)).PostsOnly where
  queue_withQueue _ _ := rfl
  run k c := (grown_run k c).posted

/-! ## Calls of the setups end -/

/-- Every callback leads to itself at least. -/
theorem Callback.reach_pos (k : Callback R) : 0 < k.reach := by
  cases k with
  | completion e built => exact Nat.one_pos
  | notify o p =>
    rw [Callback.reach, reach_eq]
    omega

theorem backlog_pop {rest : List (Callback R)} (h : c.queue.waiting = k :: rest) : c.backlog =
    backlog { c with queue := { c.queue with waiting := rest } } + k.reach := by
  simp only [backlog_eq, h, List.map_cons, List.sum_cons]
  omega

theorem waiting_runAtMost_of_backlog_le (h : c.backlog ≤ n) :
    thread.waiting (thread.runAtMost n c).2 = [] := by
  induction n generalizing c with
  | zero =>
    cases hw : c.queue.waiting with
    | nil => exact hw
    | cons k rest =>
      have hpop := backlog_pop hw
      have hk := k.reach_pos
      omega
  | succ n ih =>
    cases hw : thread.waiting c with
    | nil =>
      rw [Thread.runAtMost_of_nil hw]
      exact hw
    | cons k rest =>
      have hpop := backlog_pop hw
      have hrun := (grown_run k { c with queue := { c.queue with waiting := rest } }).backlog
      have hk := k.reach_pos
      rw [Thread.runAtMost_of_cons hw]
      refine ih ?_
      change (run k { c with queue := { c.queue with waiting := rest } }).2.backlog ≤ n
      omega

/-- A call of the host for all that waits comes to an end: observers are finite, and what one leads
to are finitely many calls. -/
theorem runPending_drains (c : Setups R) :
    ∃ ran, thread.Drains c ran (runPending c).2 ∧ (runPending c).1 = ran.length :=
  ⟨_, ⟨c.backlog, rfl, waiting_runAtMost_of_backlog_le (Nat.le_refl _)⟩, rfl⟩

/-! ## What is posted meanwhile -/

/-- First all that wait run, in the order in which they were posted, and a call ends with them just
when they have posted nothing. Otherwise it goes on with what they have posted, and it ends just when
some round posts nothing; then it leaves nothing to the next call. -/
theorem Thread.call_ends_with_what_waited_iff {C σ : Type} {t : Thread C σ} (h : t.PostsOnly)
    (s : σ) :
    t.runAtMost (t.waiting s).length s = (t.waiting s, t.round s) ∧
    ((∃ s', t.Drains s (t.waiting s) s') ↔ t.waiting (t.round s) = []) ∧
    (∀ ran s', t.Drains s ran s' ↔
      ∃ later, ran = t.waiting s ++ later ∧ t.Drains (t.round s) later s') ∧
    ((∃ ran s', t.Drains s ran s') ↔ ∃ n, t.waiting (t.round^[n] s) = []) := by
  refine ⟨h.runAtMost_waiting s, ⟨?_, fun hround => ?_⟩, fun ran s' => h.drains_iff, h.ends_iff⟩
  · rintro ⟨s', hs⟩
    obtain ⟨later, hran, hlater⟩ := h.drains_iff.1 hs
    obtain rfl : later = [] := by simpa using hran
    exact hlater.waiting_eq_nil
  · exact ⟨_, h.drains_iff.2 ⟨[], (List.append_nil _).symm, Thread.drains_of_nil hround⟩⟩

/-- One observer waits to be called with the active model, and it will register another. -/
def followed : Setups Rat :=
  (onComplete (.mk "A" [.plain "B"]) (runSync (tenWide "a") {}).2).2

theorem followed_eq : ∃ m : Model Rat,
    followed = (onComplete (.mk "A" [.plain "B"]) (runSync (.ok m) {}).2).2 := by
  obtain ⟨m, hm, -⟩ := tenWide_builds "a" (by decide +kernel)
  exact ⟨m, by rw [followed, hm]⟩

/-- The call does not end with the one that waited. -/
theorem followed_call_goes_on : (thread (R := Rat)).PostsOnly ∧
    thread.waiting followed = [.notify (.mk "A" [.plain "B"]) 0] ∧
    thread.waiting (thread.round followed) = [.notify (.plain "B") 0] ∧
    ¬ ∃ c, thread.Drains followed (thread.waiting followed) c := by
  obtain ⟨-, hends, -⟩ := Thread.call_ends_with_what_waited_iff thread_postsOnly followed
  have hround : thread.waiting (thread.round followed) = [.notify (.plain "B") 0] := by
    obtain ⟨m, hm⟩ := followed_eq
    rw [hm]
    rfl
  refine ⟨thread_postsOnly, ?_, hround, fun h => ?_⟩
  · obtain ⟨m, hm⟩ := followed_eq
    rw [hm]
    rfl
  · rw [hends, hround] at h
    cases h

/-- The thread of a queue whose one callback posts itself again. -/
def echoing : Thread Unit (Queue Unit) := ⟨id, fun q _ => q, fun k => modify (·.post k)⟩

theorem echoing_postsOnly : echoing.PostsOnly where
  queue_withQueue _ _ := rfl
  run k q := by
    change ∃ posted, (q.post k).waiting = q.waiting ++ posted
    unfold Queue.post
    split
    · exact ⟨[k], rfl⟩
    · exact ⟨[], (List.append_nil _).symm⟩

/-- An observer that another one registers is called by the same call of the host, and a callback
that posts itself again never gives the host's thread back. -/
theorem posted_meanwhile_runs_at_once :
    thread.waiting followed = [.notify (.mk "A" [.plain "B"]) 0] ∧
    (runPending followed).1 = 2 ∧ (runPending followed).2.told = [("A", 0), ("B", 0)] ∧
    (runPending followed).2.queue.waiting = [] ∧
    ∀ ran q, ¬ echoing.Drains { waiting := [()] } ran q := by
  obtain ⟨m, hm⟩ := followed_eq
  rw [hm]
  refine ⟨rfl, rfl, rfl, rfl, fun ran q h => ?_⟩
  obtain ⟨n, hn⟩ := echoing_postsOnly.ends_iff.1 ⟨ran, q, h⟩
  have hround : echoing.round { waiting := [()] } = { waiting := [()] } := rfl
  rw [Function.iterate_fixed hround] at hn
  cases hn

end RegionLayout.Setups
