-- Attempts on a caller's thread, taken apart. While the model of such an attempt is built, other
-- threads, and the building itself, can do anything else with the setups. The completion of a
-- worker is checked against the epoch before it publishes. The end of an attempt on a caller's
-- thread is not: its model becomes the active one though a detach or a later attempt has made it
-- void.
import RegionLayout.Proofs.Setups.Calling

namespace RegionLayout.Setups

variable {R : Type}

/-! ## Turns -/

/-- The scene of a container, and the attempts on callers' threads whose models are being built. -/
structure Stage (R : Type) where
  scene : Scene R
  building : List ℕ := []

/-- What can come next. -/
inductive Turn (R : Type) where
  /-- An attempt opens on a caller's thread. From here on its model is being built. -/
  | enter
  /-- The attempt ends, with what was built. -/
  | leave (epoch : ℕ) (built : Except LayoutError (Model R))
  /-- A move with nothing in between. -/
  | whole (m : Move R)

namespace Turn

/-- Whether it makes the attempts before it void. -/
def supersedes : Turn R → Bool
  | enter => true
  | leave .. => false
  | whole m => m.supersedes

/-- Whether it opens an attempt. -/
def opens : Turn R → Bool
  | enter | whole .start | whole (.sync _) => true
  | _ => false

/-- Whether it ends an attempt on a caller's thread. -/
def onCaller : Turn R → Bool
  | leave .. | whole (.sync _) => true
  | _ => false

/-- The stage after the turn. An attempt that is not under way cannot end. -/
def apply : Turn R → Stage R → Stage R
  | enter, s => ⟨{ s.scene with setups := (begin s.scene.setups).2 },
      s.building ++ [(begin s.scene.setups).1]⟩
  | leave e built, s =>
    if e ∈ s.building then
      ⟨{ s.scene with setups := (finishSync e built s.scene.setups).2 }, s.building.erase e⟩
    else s
  | whole m, s => { s with scene := m.apply s.scene }

/-- The attempt that the turn brings to its end with a model, and the model. -/
def ends? : Turn R → Stage R → Option (ℕ × Model R)
  | leave e (.ok model), s => if e ∈ s.building then some (e, model) else none
  | whole (.sync (.ok model)), s => some ((begin s.scene.setups).1, model)
  | whole .next, s =>
    match s.scene.setups.queue.waiting.head? with
    | some (.completion e (.ok model)) => some (e, model)
    | _ => none
  | _, _ => none

end Turn

/-- The stage after a run from setups that have seen nothing yet. -/
def perform (t : Telemetry) (xs : List (Turn R)) : Stage R :=
  xs.foldl (fun s x => x.apply s) { scene := { setups := { telemetry := t } } }

/-- In the run the attempt `e` was opened, and `after` is what came then. -/
def Begun (t : Telemetry) (xs : List (Turn R)) (e : ℕ) (after : List (Turn R)) : Prop :=
  ∃ before x, xs = before ++ x :: after ∧ x.opens = true ∧
    e = (begin (perform t before).scene.setups).1

variable {t : Telemetry} {xs after : List (Turn R)} {x : Turn R} {s : Stage R} {e : ℕ}
  {built : Except LayoutError (Model R)} {model : Model R}

@[simp] theorem perform_snoc (t : Telemetry) (xs : List (Turn R)) (x : Turn R) :
    perform t (xs ++ [x]) = x.apply (perform t xs) := by
  simp [perform]

theorem Begun.snoc (h : Begun t xs e after) (x : Turn R) :
    Begun t (xs ++ [x]) e (after ++ [x]) := by
  obtain ⟨before, y, rfl, hy, he⟩ := h
  exact ⟨before, y, by simp, hy, he⟩

/-! ## One turn -/

theorem leave_apply (h : e ∈ s.building) (built : Except LayoutError (Model R)) :
    (Turn.leave e built).apply s =
      ⟨{ s.scene with setups := (finishSync e built s.scene.setups).2 }, s.building.erase e⟩ :=
  if_pos h

theorem leave_apply_of_not_mem (h : e ∉ s.building) : (Turn.leave e built).apply s = s := if_neg h

/-- With nothing in between an attempt that is taken apart is a whole one. -/
theorem scene_leave_enter (built : Except LayoutError (Model R)) (s : Stage R) :
    ((Turn.leave (begin s.scene.setups).1 built).apply (Turn.enter.apply s)).scene =
      ((Turn.whole (.sync built)).apply s).scene := by
  have hmem : (begin s.scene.setups).1 ∈ (Turn.enter.apply s).building :=
    List.mem_append_right _ (List.mem_singleton_self _)
  rw [leave_apply hmem]
  rfl

/-- An attempt that ends on a caller's thread publishes its model, whatever its epoch. -/
theorem finishSync_publishes (e : ℕ) (built : Except LayoutError (Model R)) (c : Setups R) :
    (finishSync e built c).2.epoch = c.epoch ∧
      (finishSync e built c).2.published = c.published ++ built.toOption.toList ∧
      ∀ e' built', .completion e' built' ∈ (finishSync e built c).2.queue.waiting →
        .completion e' built' ∈ c.queue.waiting := by
  cases built with
  | ok model =>
    obtain ⟨telemetry, hfinish, -⟩ := finishSync_ok_apply e model c
    rw [hfinish]
    exact ⟨rfl, rfl, fun e' built' h => mem_foldl_post h⟩
  | error error =>
    obtain ⟨telemetry, hfinish, -⟩ := finishSync_error_apply e error c
    rw [hfinish]
    exact ⟨rfl, (List.append_nil _).symm, fun e' built' h => h⟩

theorem epoch_turn (x : Turn R) (s : Stage R) : (x.apply s).scene.setups.epoch =
    s.scene.setups.epoch + if x.supersedes then 1 else 0 := by
  cases x with
  | enter => rfl
  | leave e built =>
    by_cases h : e ∈ s.building
    · rw [leave_apply h]
      exact (finishSync_publishes e built s.scene.setups).1
    · rw [leave_apply_of_not_mem h]
      rfl
  | whole m => exact epoch_apply m s.scene

/-- An attempt that is under way at a stage: its model is being built on a caller's thread or by a
worker, or waits to be published. -/
def Pending (s : Stage R) (e : ℕ) : Prop :=
  e ∈ s.building ∨ e ∈ s.scene.working ∨
    ∃ built, .completion e built ∈ s.scene.setups.queue.waiting

/-- Only an attempt that is opened comes under way. -/
theorem pending_turn (h : Pending (x.apply s) e) :
    Pending s e ∨ x.opens = true ∧ e = (begin s.scene.setups).1 := by
  cases x with
  | enter =>
    rcases h with h | h
    · rcases List.mem_append.1 h with h | h
      · exact .inl (.inl h)
      · exact .inr ⟨rfl, List.mem_singleton.1 h⟩
    · exact .inl (.inr h)
  | leave e' built' =>
    by_cases he : e' ∈ s.building
    · rw [leave_apply he] at h
      rcases h with h | h | ⟨built, h⟩
      · exact .inl (.inl (List.mem_of_mem_erase h))
      · exact .inl (.inr (.inl h))
      · exact .inl (.inr (.inr ⟨built, (finishSync_publishes e' built' _).2.2 e built h⟩))
    · rw [leave_apply_of_not_mem he] at h
      exact .inl h
  | whole m =>
    rcases h with h | h | ⟨built, h⟩
    · exact .inl (.inl h)
    · rcases working_apply h with h | ⟨rfl, he⟩
      · exact .inl (.inr (.inl h))
      · exact .inr ⟨rfl, he⟩
    · rcases completion_apply h with h | h
      · exact .inl (.inr (.inr ⟨built, h⟩))
      · exact .inl (.inr (.inl h))

/-- An attempt that ends with a model is taken apart, or it is a whole one, or it is a worker's. -/
theorem ends?_eq_some : x.ends? s = some (e, model) ↔
    (x = .leave e (.ok model) ∧ e ∈ s.building) ∨
    (x = .whole (.sync (.ok model)) ∧ e = (begin s.scene.setups).1) ∨
    (x = .whole .next ∧
      s.scene.setups.queue.waiting.head? = some (.completion e (.ok model))) := by
  constructor
  · intro h
    unfold Turn.ends? at h
    split at h
    · split at h
      · cases h
        exact .inl ⟨rfl, by assumption⟩
      · cases h
    · cases h
      exact .inr (.inl ⟨rfl, rfl⟩)
    · split at h
      · cases h
        exact .inr (.inr ⟨rfl, by assumption⟩)
      · cases h
    · cases h
  · rintro (⟨rfl, h⟩ | ⟨rfl, rfl⟩ | ⟨rfl, h⟩)
    · exact if_pos h
    · rfl
    · simp [Turn.ends?, h]

/-- Such an attempt was under way, or it is opened by the very turn. -/
theorem pending_of_ends (h : x.ends? s = some (e, model)) :
    Pending s e ∨ x.opens = true ∧ e = (begin s.scene.setups).1 := by
  rcases ends?_eq_some.1 h with ⟨-, he⟩ | ⟨rfl, he⟩ | ⟨-, hhead⟩
  · exact .inl (.inl he)
  · exact .inr ⟨rfl, he⟩
  · exact .inl (.inr (.inr ⟨_, List.mem_of_mem_head? hhead⟩))

theorem published_of_ends_none (h : x.ends? s = none) :
    (x.apply s).scene.setups.published = s.scene.setups.published := by
  cases x with
  | enter => rfl
  | leave e built =>
    by_cases he : e ∈ s.building
    · rw [leave_apply he]
      cases built with
      | ok model => rw [ends?_eq_some.2 (.inl ⟨rfl, he⟩)] at h; cases h
      | error error => exact (finishSync_publishes e _ _).2.1.trans (List.append_nil _)
    · rw [leave_apply_of_not_mem he]
  | whole m =>
    rcases published_apply m s.scene with hp | ⟨model, -, rfl | ⟨rfl, hhead⟩⟩
    · exact hp
    · cases h
    · rw [ends?_eq_some.2 (.inr (.inr ⟨rfl, hhead⟩))] at h
      cases h

/-- The model of an attempt on a caller's thread is published, and that of a worker if its attempt
is the current one. -/
theorem published_of_ends (h : x.ends? s = some (e, model)) :
    (x.apply s).scene.setups.published =
      if x.onCaller = true ∨ (x.apply s).scene.setups.epoch = e then
        s.scene.setups.published ++ [model]
      else s.scene.setups.published := by
  rcases ends?_eq_some.1 h with ⟨rfl, he⟩ | ⟨rfl, -⟩ | ⟨rfl, hhead⟩
  · rw [if_pos (.inl rfl), leave_apply he]
    exact (finishSync_publishes e _ _).2.1
  · rw [if_pos (.inl rfl)]
    exact (runSync_ok model s.scene.setups).published
  · obtain ⟨rest, hw⟩ := List.head?_eq_some_iff.1 hhead
    rcases next_cases s.scene with ⟨e', model', rest', hw', he, hnext⟩ | ⟨hstale, hnext⟩
    · rw [hw] at hw'
      cases hw'
      rw [if_pos (.inr (hnext.epoch.trans he))]
      exact hnext.published
    · have hne : ((Turn.whole .next).apply s).scene.setups.epoch ≠ e := by
        apply ne_of_eq_of_ne hnext.epoch
        exact hstale e model rest hw
      have hvoid : ¬ ((.whole .next : Turn R).onCaller = true ∨
          ((Turn.whole .next).apply s).scene.setups.epoch = e) :=
        not_or.2 ⟨Bool.false_ne_true, hne⟩
      rw [if_neg hvoid]
      exact hnext.published

/-! ## Whole runs -/

/-- Every attempt under way was opened. -/
theorem begun_of_pending (t : Telemetry) (xs : List (Turn R)) (e : ℕ) :
    Pending (perform t xs) e → ∃ after, Begun t xs e after := by
  induction xs using List.reverseRecOn with
  | nil => rintro (h | h | ⟨built, h⟩) <;> cases h
  | append_singleton xs x ih =>
    intro h
    rw [perform_snoc] at h
    rcases pending_turn h with h | ⟨hx, he⟩
    · obtain ⟨after, hafter⟩ := ih h
      exact ⟨after ++ [x], hafter.snoc x⟩
    · exact ⟨[], xs, x, rfl, hx, he⟩

theorem epoch_foldl_turn (xs : List (Turn R)) (s : Stage R) :
    (xs.foldl (fun s x => x.apply s) s).scene.setups.epoch =
      s.scene.setups.epoch + xs.countP (·.supersedes) := by
  induction xs generalizing s with
  | nil => rfl
  | cons x xs ih =>
    rw [List.foldl_cons, ih, epoch_turn, List.countP_cons]
    omega

theorem Turn.supersedes_of_opens (h : x.opens = true) : x.supersedes = true := by
  cases x with
  | enter => rfl
  | leave => cases h
  | whole m => cases m <;> first | rfl | cases h

/-- Since the attempt was opened the epoch has counted what superseded it. -/
theorem Begun.epoch_eq (h : Begun t xs e after) :
    (perform t xs).scene.setups.epoch = e + after.countP (·.supersedes) := by
  obtain ⟨before, x, rfl, hx, rfl⟩ := h
  have hfold : perform t (before ++ x :: after) =
      after.foldl (fun s x => x.apply s) (x.apply (perform t before)) := by
    simp [perform]
  rw [hfold, epoch_foldl_turn, epoch_turn, x.supersedes_of_opens hx, (begin_apply _).1]
  rfl

/-- The epoch of an attempt is the current one while nothing that supersedes it has come. -/
theorem Begun.current_iff (h : Begun t xs e after) :
    (perform t xs).scene.setups.epoch = e ↔ ∀ x ∈ after, x.supersedes = false := by
  rw [h.epoch_eq, Nat.add_eq_left, List.countP_eq_zero]
  simp

theorem Begun.void_iff (h : Begun t xs e after) :
    (perform t xs).scene.setups.epoch ≠ e ↔ ∃ x ∈ after, x.supersedes = true := by
  rw [Ne, h.current_iff]
  simp

/-- An attempt that ends with a model was opened, be it in the same turn. -/
theorem begun_of_ends (h : x.ends? (perform t xs) = some (e, model)) :
    ∃ after, Begun t (xs ++ [x]) e after := by
  rcases pending_of_ends h with h | ⟨hx, he⟩
  · obtain ⟨after, hafter⟩ := begun_of_pending t xs e h
    exact ⟨after ++ [x], hafter.snoc x⟩
  · exact ⟨[], xs, x, rfl, hx, he⟩

/-- After any run a turn publishes nothing, or it ends an attempt with a model. A model that a worker
has built is published just when nothing has superseded the attempt since it was opened. One that
was built on a caller's thread always is, and so a void one just when something that supersedes its
attempt came in between. -/
theorem void_model_is_published_iff (t : Telemetry) (xs : List (Turn R)) (x : Turn R) :
    (x.ends? (perform t xs) = none →
      (perform t (xs ++ [x])).scene.setups.published = (perform t xs).scene.setups.published) ∧
    (∀ e model, x.ends? (perform t xs) = some (e, model) →
      (perform t (xs ++ [x])).scene.setups.published =
        if x.onCaller = true ∨ (perform t (xs ++ [x])).scene.setups.epoch = e then
          (perform t xs).scene.setups.published ++ [model]
        else (perform t xs).scene.setups.published) ∧
    (∀ e model, x.ends? (perform t xs) = some (e, model) →
      ∃ after, Begun t (xs ++ [x]) e after ∧
        ((perform t (xs ++ [x])).scene.setups.epoch = e ↔ ∀ y ∈ after, y.supersedes = false)) ∧
    ∀ e model, (x.ends? (perform t xs) = some (e, model) ∧
        (perform t (xs ++ [x])).scene.setups.epoch ≠ e ∧
        (perform t (xs ++ [x])).scene.setups.published =
          (perform t xs).scene.setups.published ++ [model]) ↔
      x = .leave e (.ok model) ∧ e ∈ (perform t xs).building ∧
        ∃ after, Begun t xs e after ∧ ∃ y ∈ after, y.supersedes = true := by
  refine ⟨fun h => ?_, fun e model h => ?_, fun e model h => ?_, fun e model => ⟨?_, ?_⟩⟩
  · rw [perform_snoc]
    exact published_of_ends_none h
  · rw [perform_snoc]
    exact published_of_ends h
  · obtain ⟨after, hafter⟩ := begun_of_ends h
    exact ⟨after, hafter, hafter.current_iff⟩
  · rintro ⟨h, hvoid, hpublished⟩
    rw [perform_snoc] at hvoid hpublished
    rcases ends?_eq_some.1 h with ⟨rfl, he⟩ | ⟨rfl, rfl⟩ | ⟨rfl, -⟩
    · obtain ⟨after, hafter⟩ := begun_of_pending t xs e (.inl he)
      rw [epoch_turn] at hvoid
      exact ⟨rfl, he, after, hafter, hafter.void_iff.1 hvoid⟩
    · exact absurd (epoch_turn _ _) hvoid
    · -- a worker's completion whose epoch is over publishes nothing
      simp [published_of_ends h, Turn.onCaller, hvoid] at hpublished
  · rintro ⟨rfl, he, after, hafter, hafter'⟩
    have h : (Turn.leave e (.ok model)).ends? (perform t xs) = some (e, model) :=
      ends?_eq_some.2 (.inl ⟨rfl, he⟩)
    rw [perform_snoc, published_of_ends h, if_pos (.inl rfl), epoch_turn]
    exact ⟨h, hafter.void_iff.2 hafter', rfl⟩

/-- A model is being built on a caller's thread when the container is detached. -/
def abandoned : List (Turn Rat) := [.enter, .whole .detach]

/-- The detach supersedes the attempt, so it is a void model that is published in the end. -/
theorem abandoned_attempt_publishes_void_model : ∃ m : Model Rat, tenWide "a" = .ok m ∧
    (∃ after, Begun {} abandoned 1 after ∧ ∃ y ∈ after, y.supersedes = true) ∧
    (perform {} (abandoned ++ [.leave 1 (.ok m)])).scene.setups.epoch ≠ 1 ∧
    (perform {} (abandoned ++ [.leave 1 (.ok m)])).scene.setups.published =
      (perform {} abandoned).scene.setups.published ++ [m] := by
  obtain ⟨m, hm, -⟩ := tenWide_builds "a" (by decide +kernel)
  have hbegun : Begun {} abandoned 1 [.whole .detach] := ⟨[], .enter, rfl, rfl, rfl⟩
  have hafter : ∃ after, Begun {} abandoned 1 after ∧ ∃ y ∈ after, y.supersedes = true :=
    ⟨_, hbegun, _, List.mem_singleton_self _, rfl⟩
  have hbuilding : 1 ∈ (perform {} abandoned).building := List.mem_singleton_self 1
  obtain ⟨-, -, -, hvoid⟩ := void_model_is_published_iff {} abandoned (.leave 1 (.ok m))
  obtain ⟨-, hepoch, hpublished⟩ := (hvoid 1 m).2 ⟨rfl, hbuilding, hafter⟩
  exact ⟨m, hm, hafter, hepoch, hpublished⟩

/-- The attempt is void when its model is ready, and yet that becomes the active one. -/
theorem model_of_abandoned_attempt_is_active : ∃ m : Model Rat, tenWide "a" = .ok m ∧
    m.names = ["a"] ∧ (Turn.leave 1 (tenWide "a")).ends? (perform {} abandoned) = some (1, m) ∧
    (perform {} abandoned).scene.setups.epoch = 2 ∧
    (perform {} abandoned).scene.setups.active? = none ∧
    (perform {} (abandoned ++ [.leave 1 (tenWide "a")])).scene.setups.epoch = 2 ∧
    (perform {} (abandoned ++ [.leave 1 (tenWide "a")])).scene.setups.active? = some m := by
  obtain ⟨m, hm, hnames⟩ := tenWide_builds "a" (by decide +kernel)
  refine ⟨m, hm, hnames, ?_⟩
  rw [hm]
  exact ⟨rfl, rfl, rfl, rfl, rfl⟩

end RegionLayout.Setups
