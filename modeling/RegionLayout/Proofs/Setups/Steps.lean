-- What each call of the setups does to the part of them that decides what is published: the
-- epoch, the published models, the layout request, the observers that wait and the completions
-- that are queued. Reports, notices and failures are of no account in it.
import RegionLayout.Setups
import Mathlib.Data.List.Basic

namespace RegionLayout.Setups

variable {R : Type} {c c' c'' : Setups R} {k k' : Callback R} {q : Queue (Callback R)}
  {e p : ℕ} {m : Model R} {x : LayoutError} {built : Except LayoutError (Model R)} {o : Observer}
  {os : List Observer}

/-! ## What is left as it was -/

/-- Only calls of observers may have been queued, and no model, no layout request and no waiting
observer is new or gone. -/
structure Spared (c c' : Setups R) : Prop where
  epoch : c'.epoch = c.epoch
  published : c'.published = c.published
  layoutRequested : c'.layoutRequested = c.layoutRequested
  observers : c'.observers = c.observers
  completions : ∀ e built,
    .completion e built ∈ c'.queue.waiting → .completion e built ∈ c.queue.waiting

theorem Spared.refl (c : Setups R) : Spared c c := ⟨rfl, rfl, rfl, rfl, fun _ _ h => h⟩

theorem Spared.trans (h : Spared c c') (h' : Spared c' c'') : Spared c c'' where
  epoch := h'.epoch.trans h.epoch
  published := h'.published.trans h.published
  layoutRequested := h'.layoutRequested.trans h.layoutRequested
  observers := h'.observers.trans h.observers
  completions := fun e built hc => h.completions e built (h'.completions e built hc)

/-- A model is published: it is the active one, a layout is asked for and nobody waits. -/
structure Installed (m : Model R) (c c' : Setups R) : Prop where
  epoch : c'.epoch = c.epoch
  published : c'.published = c.published ++ [m]
  layoutRequested : c'.layoutRequested = true
  observers : c'.observers = []
  completions : ∀ e built,
    .completion e built ∈ c'.queue.waiting → .completion e built ∈ c.queue.waiting

theorem Spared.installed_trans (h : Spared c c') (h' : Installed m c' c'') :
    Installed m c c'' where
  epoch := h'.epoch.trans h.epoch
  published := h'.published.trans (by rw [h.published])
  layoutRequested := h'.layoutRequested
  observers := h'.observers
  completions := fun e built hc => h.completions e built (h'.completions e built hc)

/-! ## Posting -/

theorem mem_post : k ∈ (q.post k').waiting → k ∈ q.waiting ∨ k = k' := by
  unfold Queue.post
  split
  · simp
  · exact .inl

theorem forM_post {α : Type} (k : α → Callback R) (l : List α) (c : Setups R) :
    (l.forM (fun a => do let _ ← post (k a)) c).2 =
      { c with queue := l.foldl (fun q a => q.post (k a)) c.queue } := by
  induction l generalizing c with
  | nil => rfl
  | cons a l ih => exact ih (post (k a) c).2

/-- Calls that are posted are no completions. -/
theorem mem_foldl_post (h : .completion e built ∈
    (os.foldl (fun q o => q.post (.notify o p)) q).waiting) : .completion e built ∈ q.waiting := by
  induction os generalizing q with
  | nil => exact h
  | cons o os ih =>
    rcases mem_post (ih h) with h | h
    · exact h
    · cases h

theorem spared_post (o : Observer) (p : ℕ) (c : Setups R) :
    Spared c (post (.notify o p) c).2 where
  epoch := rfl
  published := rfl
  layoutRequested := rfl
  observers := rfl
  completions := by
    intro e built h
    rcases mem_post h with h | h
    · exact h
    · cases h

theorem get_bind {β : Type} (g : Setups R → Step R β) (c : Setups R) : (get >>= g) c = g c c := rfl

theorem onComplete_of_some (h : c.activePublication? = some p) :
    (onComplete o c).2 = (post (.notify o p) c).2 := by
  rw [onComplete, get_bind, h]
  rfl

theorem onComplete_of_none (h : c.activePublication? = none) :
    (onComplete o c).2 = { c with observers := c.observers ++ [o] } := by
  rw [onComplete, get_bind, h]
  rfl

theorem activePublication?_of_ne (h : c.published ≠ []) :
    c.activePublication? = some (c.published.length - 1) := by
  unfold activePublication?
  rw [if_neg (by simpa using h)]

/-- A worker that ends posts its completion. -/
theorem finishWorker_apply (e : ℕ) (built : Except LayoutError (Model R)) (c : Setups R) :
    ∃ telemetry : Telemetry, (finishWorker e built c).2 =
      { c with queue := c.queue.post (.completion e built), telemetry } ∧
        telemetry.metrics = c.telemetry.metrics := by
  have hrun (b : Bool) (c : Setups R) : ∃ telemetry : Telemetry, ((if !b then
      emit .warn "completion_dropped" [epochField e] else return () : Step R Unit) c).2 =
        { c with telemetry } ∧ telemetry.metrics = c.telemetry.metrics := by
    cases b <;> exact ⟨_, rfl, rfl⟩
  exact hrun c.queue.isOpen _

/-- With a model active an observer that registers does not wait. -/
theorem spared_onComplete (h : c.published ≠ []) (o : Observer) : Spared c (onComplete o c).2 := by
  rw [onComplete_of_some (activePublication?_of_ne h)]
  exact spared_post o _ c

/-- An observer that registers is called or waits, and nothing else comes of it. -/
theorem onComplete_keeps (o : Observer) (c : Setups R) : (onComplete o c).2.epoch = c.epoch ∧
    (onComplete o c).2.published = c.published ∧ ∀ e built,
      .completion e built ∈ (onComplete o c).2.queue.waiting →
        .completion e built ∈ c.queue.waiting := by
  cases h : c.activePublication? with
  | none =>
    rw [onComplete_of_none h]
    exact ⟨rfl, rfl, fun _ _ h => h⟩
  | some p =>
    rw [onComplete_of_some h]
    exact ⟨rfl, rfl, (spared_post o p c).completions⟩

/-- A call for each of a list spares the setups if each call does while a model is active. -/
theorem spared_forM {α : Type} {f : α → Step R Unit} (hf : ∀ a c, c.published ≠ [] →
    Spared c (f a c).2) (l : List α) (h : c.published ≠ []) : Spared c (l.forM f c).2 := by
  induction l generalizing c with
  | nil => exact .refl c
  | cons a l ih =>
    have hfirst := hf a c h
    have hnext : (f a c).2.published ≠ [] := by rwa [hfirst.published]
    exact hfirst.trans (ih hnext)

theorem notify_apply (o : Observer) (p : ℕ) (c : Setups R) : (notify o p c).2 =
    match c.published[p]? with
    | some m => (o.registers.forM onComplete
        { c with notices := c.notices ++ [.completed o.label p m] }).2
    | none => c := by
  change ((match c.published[p]? with
    | some m => do
      modify fun c => { c with notices := c.notices ++ [.completed o.label p m] }
      o.registers.forM onComplete
    | none => return () : Step R Unit) c).2 = _
  cases c.published[p]? <;> rfl

/-- An observer that is called registers others while a model is active. -/
theorem spared_notify (o : Observer) (p : ℕ) (c : Setups R) : Spared c (notify o p c).2 := by
  rw [notify_apply]
  cases hp : c.published[p]? with
  | none => exact .refl c
  | some m =>
    have hactive : c.published ≠ [] := by
      rintro h
      simp [h] at hp
    have hnotice : Spared c { c with notices := c.notices ++ [.completed o.label p m] } :=
      ⟨rfl, rfl, rfl, rfl, fun _ _ h => h⟩
    exact hnotice.trans (spared_forM (fun o c h => spared_onComplete h o) o.registers hactive)

/-! ## Attempts -/

theorem begin_apply (c : Setups R) :
    (begin c).1 = c.epoch + 1 ∧ Spared { c with epoch := c.epoch + 1 } (begin c).2 :=
  ⟨rfl, rfl, rfl, rfl, rfl, fun _ _ h => h⟩

theorem clearInFlight_eq (e : ℕ) : (clearInFlight e : Step R Unit) = modify fun c =>
    { c with inFlight := if c.inFlight = some e then none else c.inFlight } := by
  funext c
  change ((), if c.inFlight = some e then { c with inFlight := none } else c) =
    ((), { c with inFlight := if c.inFlight = some e then none else c.inFlight })
  split <;> rfl

theorem install_apply (e : ℕ) (m : Model R) (c : Setups R) : ∃ telemetry : Telemetry,
    install e m c = (c.published.length, { c with
      published := c.published ++ [m]
      inFlight := if c.inFlight = some e then none else c.inFlight
      layoutRequested := true, telemetry }) ∧ telemetry.metrics = c.telemetry.metrics := by
  unfold install
  rw [clearInFlight_eq]
  exact ⟨_, rfl, rfl⟩

theorem Spared.installed {inFlight : Option ℕ} {telemetry : Telemetry} (h : Spared { c with
      published := c.published ++ [m], inFlight, layoutRequested := true, observers := []
      telemetry } c') : Installed m c c' :=
  ⟨h.epoch, h.published, h.layoutRequested, h.observers, h.completions⟩

theorem complete_apply (e : ℕ) (built : Except LayoutError (Model R)) (c : Setups R) :
    complete e built c = (if c.epoch ≠ e then (do
      record Metrics.recordSetupDiscarded
      emit .debug "setup_discarded" [epochField e, ("current_epoch", .ofNat c.epoch)])
    else match built with
      | .ok m => do
        let publication ← install e m
        record Metrics.recordSetupCompleted
        (← takeObservers).forM (notify · publication)
      | .error x => do
        record Metrics.recordSetupFailed
        emit .warn "setup_failed" [epochField e, errorField x]
        clearInFlight e
        let failure ← setFailure e x
        modify fun c =>
          { c with notices := c.notices ++ c.failureObservers.map (.failed · failure) }
        : Step R Unit) c := by
  simp only [← bne_iff_ne]
  rfl

/-- A completion whose epoch is over is only counted. -/
theorem complete_of_ne_apply (h : c.epoch ≠ e) (built : Except LayoutError (Model R)) :
    ∃ telemetry : Telemetry, (complete e built c).2 = { c with telemetry } ∧
      telemetry.metrics = c.telemetry.metrics.map Metrics.recordSetupDiscarded := by
  rw [complete_apply, if_pos h]
  exact ⟨_, rfl, rfl⟩

theorem spared_complete_of_ne (h : c.epoch ≠ e) (built : Except LayoutError (Model R)) :
    Spared c (complete e built c).2 := by
  obtain ⟨telemetry, hcomplete, -⟩ := complete_of_ne_apply h built
  rw [hcomplete]
  exact ⟨rfl, rfl, rfl, rfl, fun _ _ h => h⟩

/-- The failed completion of the current attempt is told to those who asked for failures. -/
theorem complete_error_apply (h : c.epoch = e) (x : LayoutError) : ∃ telemetry : Telemetry,
    (complete e (.error x) c).2 = { c with
      inFlight := if c.inFlight = some e then none else c.inFlight
      lastFailure := some ⟨e, x.message, x.isConstraintError⟩
      notices := c.notices ++
        c.failureObservers.map (.failed · ⟨e, x.message, x.isConstraintError⟩), telemetry } ∧
    telemetry.metrics = c.telemetry.metrics.map Metrics.recordSetupFailed := by
  rw [complete_apply, if_neg (not_not.2 h), clearInFlight_eq]
  exact ⟨_, rfl, rfl⟩

theorem spared_complete_error (e : ℕ) (x : LayoutError) (c : Setups R) :
    Spared c (complete e (.error x) c).2 := by
  by_cases h : c.epoch = e
  · obtain ⟨telemetry, hcomplete, -⟩ := complete_error_apply h x
    rw [hcomplete]
    exact ⟨rfl, rfl, rfl, rfl, fun _ _ h => h⟩
  · exact spared_complete_of_ne h _

/-- The completion of the current attempt publishes, and then everyone who waits is called. -/
theorem complete_ok_apply (h : c.epoch = e) (m : Model R) : ∃ telemetry : Telemetry,
    (complete e (.ok m) c).2 = (c.observers.forM (notify · c.published.length) { c with
      published := c.published ++ [m]
      inFlight := if c.inFlight = some e then none else c.inFlight
      layoutRequested := true, observers := [], telemetry }).2 ∧
    telemetry.metrics = c.telemetry.metrics.map Metrics.recordSetupCompleted := by
  obtain ⟨telemetry, hinstall, hmetrics⟩ := install_apply e m c
  rw [complete_apply, if_neg (not_not.2 h)]
  simp only [bind, StateT.bind, hinstall]
  exact ⟨telemetry.record Metrics.recordSetupCompleted, rfl, congrArg (Option.map _) hmetrics⟩

theorem installed_complete (h : c.epoch = e) (m : Model R) :
    Installed m c (complete e (.ok m) c).2 := by
  obtain ⟨telemetry, hcomplete, -⟩ := complete_ok_apply h m
  rw [hcomplete]
  exact (spared_forM (fun o c _ => spared_notify o _ c) c.observers (by simp)).installed

/-- An attempt on the caller's thread publishes, and a call is posted for everyone who waits. -/
theorem finishSync_ok_apply (e : ℕ) (m : Model R) (c : Setups R) : ∃ telemetry : Telemetry,
    (finishSync e (.ok m) c).2 = { c with
      published := c.published ++ [m]
      inFlight := if c.inFlight = some e then none else c.inFlight
      layoutRequested := true, observers := [], telemetry
      queue := c.observers.foldl (fun q o => q.post (.notify o c.published.length)) c.queue } ∧
    telemetry.metrics = c.telemetry.metrics.map Metrics.recordSetupCompleted := by
  obtain ⟨telemetry, hinstall, hmetrics⟩ := install_apply e m c
  let c' : Setups R := { c with
    published := c.published ++ [m]
    inFlight := if c.inFlight = some e then none else c.inFlight
    layoutRequested := true, observers := []
    telemetry := telemetry.record Metrics.recordSetupCompleted }
  have hrun : (finishSync e (.ok m) c).2 = (emit .debug "sync_setup_complete" [epochField e]
      (c.observers.forM (fun o => do let _ ← post (.notify o c.published.length)) c').2).2 := by
    unfold finishSync
    simp only [bind, StateT.bind, hinstall]
    rfl
  rw [hrun, forM_post]
  exact ⟨_, rfl, congrArg (Option.map _) hmetrics⟩

theorem finishSync_error_apply (e : ℕ) (x : LayoutError) (c : Setups R) :
    ∃ telemetry : Telemetry, (finishSync e (.error x) c).2 = { c with
      inFlight := if c.inFlight = some e then none else c.inFlight
      lastFailure := some ⟨e, x.message, x.isConstraintError⟩, telemetry } ∧
    telemetry.metrics = c.telemetry.metrics.map Metrics.recordSetupFailed := by
  unfold finishSync
  rw [clearInFlight_eq]
  exact ⟨_, rfl, rfl⟩

theorem runSync_ok_apply (m : Model R) (c : Setups R) : ∃ telemetry : Telemetry,
    (runSync (.ok m) c).2 = { c with
      epoch := c.epoch + 1
      published := c.published ++ [m]
      inFlight := none, layoutRequested := true, observers := [], telemetry
      queue := c.observers.foldl (fun q o => q.post (.notify o c.published.length)) c.queue } ∧
    telemetry.metrics = (c.telemetry.metrics.map Metrics.recordSetupStarted).map
      Metrics.recordSetupCompleted := by
  obtain ⟨telemetry, hfinish, hmetrics⟩ := finishSync_ok_apply (c.epoch + 1) m (begin c).2
  have hmine : (begin c).2.inFlight = some (c.epoch + 1) := rfl
  rw [if_pos hmine] at hfinish
  exact ⟨telemetry, hfinish, hmetrics⟩

theorem runSync_ok (m : Model R) (c : Setups R) :
    Installed m { c with epoch := c.epoch + 1 } (runSync (.ok m) c).2 := by
  obtain ⟨telemetry, hsync, -⟩ := runSync_ok_apply m c
  rw [hsync]
  exact ⟨rfl, rfl, rfl, rfl, fun e built h => mem_foldl_post h⟩

theorem runSync_error_apply (x : LayoutError) (c : Setups R) : ∃ telemetry : Telemetry,
    (runSync (.error x) c).2 = { c with
      epoch := c.epoch + 1, inFlight := none
      lastFailure := some ⟨c.epoch + 1, x.message, x.isConstraintError⟩, telemetry } ∧
    telemetry.metrics = (c.telemetry.metrics.map Metrics.recordSetupStarted).map
      Metrics.recordSetupFailed := by
  obtain ⟨telemetry, hfinish, hmetrics⟩ := finishSync_error_apply (c.epoch + 1) x (begin c).2
  have hmine : (begin c).2.inFlight = some (c.epoch + 1) := rfl
  rw [if_pos hmine] at hfinish
  exact ⟨telemetry, hfinish, hmetrics⟩

theorem runSync_error (x : LayoutError) (c : Setups R) :
    Spared { c with epoch := c.epoch + 1 } (runSync (.error x) c).2 := by
  obtain ⟨telemetry, hsync, -⟩ := runSync_error_apply x c
  rw [hsync]
  exact ⟨rfl, rfl, rfl, rfl, fun _ _ h => h⟩

/-! ## The host's thread -/

section Thread

variable {C σ : Type} {t : Thread C σ} {s : σ} {k : C} {rest : List C}

theorem Thread.next_apply (t : Thread C σ) (s : σ) : t.next s = match (t.queue s).next? with
    | none => (none, s)
    | some (k, queue) => (some k, (t.run k (t.withQueue queue s)).2) := by
  change (match (t.queue s).next? with
    | none => return none
    | some (k, queue) => do
      modify (t.withQueue queue)
      t.run k
      return some k : StateM σ (Option C)) s = _
  cases (t.queue s).next? <;> rfl

theorem Thread.next_of_nil (h : (t.queue s).waiting = []) : t.next s = (none, s) := by
  rw [next_apply, Queue.next?, h]

theorem Thread.next_of_cons (h : (t.queue s).waiting = k :: rest) : t.next s =
    (some k, (t.run k (t.withQueue { t.queue s with waiting := rest } s)).2) := by
  rw [next_apply, Queue.next?, h]

end Thread

theorem runNext_of_nil (h : c.queue.waiting = []) : (runNext c).2 = c :=
  congrArg Prod.snd (Thread.next_of_nil (t := thread) h)

theorem runNext_of_cons {rest : List (Callback R)} (h : c.queue.waiting = k :: rest) :
    (runNext c).2 = (run k { c with queue := { c.queue with waiting := rest } }).2 :=
  congrArg Prod.snd (Thread.next_of_cons (t := thread) h)

theorem spared_next {rest : List (Callback R)} (h : c.queue.waiting = k :: rest) :
    Spared c { c with queue := { c.queue with waiting := rest } } :=
  ⟨rfl, rfl, rfl, rfl, fun _ _ hmem => h ▸ List.mem_cons_of_mem k hmem⟩

/-- A completion that runs first reports that it does. -/
theorem run_completion (e : ℕ) (built : Except LayoutError (Model R)) (c : Setups R) :
    ∃ telemetry : Telemetry,
      (run (.completion e built) c).2 = (complete e built { c with telemetry }).2 ∧
        telemetry.metrics = c.telemetry.metrics :=
  ⟨_, rfl, rfl⟩

end RegionLayout.Setups
