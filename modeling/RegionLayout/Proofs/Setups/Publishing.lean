-- When the setups of a container publish a model. A run is any list of moves of the host, of the
-- workers and of the host's thread. A later attempt or a detach raises the epoch, so a worker's
-- model is published just when its attempt is still the latest of these.
import RegionLayout.Proofs.Setups.Steps
import Mathlib.Data.List.Induction

namespace RegionLayout.Setups

variable {R : Type}

/-! ## Runs -/

/-- The setups of a container, and the attempts whose workers have not ended. -/
structure Scene (R : Type) where
  setups : Setups R
  /-- The epochs of those attempts. -/
  working : List ℕ := []

/-- What the host, a worker or the host's thread can do next. -/
inductive Move (R : Type) where
  /-- Opens an attempt for a worker. -/
  | start
  /-- The worker of the attempt ends, with what it has built. -/
  | finish (epoch : ℕ) (built : Except LayoutError (Model R))
  /-- A whole attempt on the caller's thread. -/
  | sync (built : Except LayoutError (Model R))
  | detach
  | register (o : Observer)
  | registerFailed (label : String)
  | takeRequest
  /-- The host's thread runs the oldest waiting callback. -/
  | next
  /-- The host's thread ends. -/
  | close

namespace Move

/-- Whether it makes the attempts before it void. -/
def supersedes : Move R → Bool
  | start | sync _ | detach => true
  | _ => false

/-- The scene after the move. A worker that is not at work cannot end. -/
def apply : Move R → Scene R → Scene R
  | start, s => ⟨(begin s.setups).2, s.working ++ [(begin s.setups).1]⟩
  | finish e built, s =>
    if e ∈ s.working then ⟨(finishWorker e built s.setups).2, s.working.erase e⟩ else s
  | sync built, s => { s with setups := (runSync built s.setups).2 }
  | detach, s => { s with setups := (Setups.detach s.setups).2 }
  | register o, s => { s with setups := (onComplete o s.setups).2 }
  | registerFailed label, s => { s with setups := (onFailed label s.setups).2 }
  | takeRequest, s => { s with setups := (takeLayoutRequest s.setups).2 }
  | next, s => { s with setups := (runNext s.setups).2 }
  | close, s => { s with setups := (dropQueue s.setups).2 }

end Move

/-- The scene after a run from setups that have seen nothing yet. -/
def play (t : Telemetry) (ms : List (Move R)) : Scene R :=
  ms.foldl (fun s m => m.apply s) { setups := { telemetry := t } }

/-- In the run the attempt `e` was opened for a worker, and `after` is what came then. -/
def Opened (t : Telemetry) (ms : List (Move R)) (e : ℕ) (after : List (Move R)) : Prop :=
  ∃ before, ms = before ++ .start :: after ∧ e = (begin (play t before).setups).1

/-- Nothing has made the attempt void. -/
def Current (after : List (Move R)) : Prop := ∀ x ∈ after, x.supersedes = false

/-- The models, the layout request and the observers that wait are what they were. -/
def Untouched (c c' : Setups R) : Prop :=
  c'.published = c.published ∧ c'.layoutRequested = c.layoutRequested ∧ c'.observers = c.observers

variable {t : Telemetry} {ms after rest : List (Move R)} {m : Move R} {s : Scene R} {e : ℕ}
  {built : Except LayoutError (Model R)} {model : Model R}

@[simp] theorem play_snoc (t : Telemetry) (ms : List (Move R)) (m : Move R) :
    play t (ms ++ [m]) = m.apply (play t ms) := by
  simp [play]

theorem play_append (t : Telemetry) (ms rest : List (Move R)) :
    play t (ms ++ rest) = rest.foldl (fun s m => m.apply s) (play t ms) := by
  simp [play]

theorem Opened.snoc (h : Opened t ms e after) (m : Move R) :
    Opened t (ms ++ [m]) e (after ++ [m]) := by
  obtain ⟨before, rfl, he⟩ := h
  exact ⟨before, by simp, he⟩

/-! ## One move -/

/-- The oldest callback runs. A completion publishes its model if its attempt is the current one;
any other spares the setups, and so does a call of an observer. -/
theorem next_cases (s : Scene R) :
    (∃ e model rest, s.setups.queue.waiting = .completion e (.ok model) :: rest ∧
      s.setups.epoch = e ∧ Installed model s.setups (Move.next.apply s).setups) ∨
    (∀ e model rest, s.setups.queue.waiting = .completion e (.ok model) :: rest →
      s.setups.epoch ≠ e) ∧ Spared s.setups (Move.next.apply s).setups := by
  change (∃ e model rest, s.setups.queue.waiting = .completion e (.ok model) :: rest ∧
    s.setups.epoch = e ∧ Installed model s.setups (runNext s.setups).2) ∨
    _ ∧ Spared s.setups (runNext s.setups).2
  cases hw : s.setups.queue.waiting with
  | nil =>
    rw [runNext_of_nil hw]
    exact .inr ⟨by simp, .refl _⟩
  | cons k rest =>
    rw [runNext_of_cons hw]
    have hpop := spared_next hw
    cases k with
    | notify o p => exact .inr ⟨by simp, hpop.trans (spared_notify o p _)⟩
    | completion e built =>
      obtain ⟨telemetry, hrun, -⟩ := run_completion e built
        { s.setups with queue := { s.setups.queue with waiting := rest } }
      rw [hrun]
      have hspared : Spared s.setups
          { s.setups with queue := { s.setups.queue with waiting := rest }, telemetry } :=
        hpop.trans ⟨rfl, rfl, rfl, rfl, fun _ _ h => h⟩
      cases built with
      | error x => exact .inr ⟨by simp, hspared.trans (spared_complete_error e x _)⟩
      | ok model =>
        by_cases he : s.setups.epoch = e
        · have hinstalled := installed_complete (hspared.epoch.trans he) model
          exact .inl ⟨e, model, rest, rfl, he, hspared.installed_trans hinstalled⟩
        · refine .inr ⟨?_, hspared.trans (spared_complete_of_ne (hspared.epoch ▸ he) _)⟩
          rintro e' model' rest' hcons
          cases hcons
          exact he

theorem finish_apply (h : e ∈ s.working) (built : Except LayoutError (Model R)) :
    ∃ telemetry : Telemetry, (Move.finish e built).apply s =
      ⟨{ s.setups with queue := s.setups.queue.post (.completion e built), telemetry },
        s.working.erase e⟩ ∧ telemetry.metrics = s.setups.telemetry.metrics := by
  obtain ⟨telemetry, hposted, hmetrics⟩ := finishWorker_apply e built s.setups
  refine ⟨telemetry, ?_, hmetrics⟩
  rw [← hposted]
  exact if_pos h

theorem finish_apply_of_not_mem (h : e ∉ s.working) : (Move.finish e built).apply s = s := if_neg h

theorem epoch_apply (m : Move R) (s : Scene R) :
    (m.apply s).setups.epoch = s.setups.epoch + if m.supersedes then 1 else 0 := by
  cases m with
  | start => rfl
  | finish e built =>
    by_cases h : e ∈ s.working
    · obtain ⟨telemetry, hscene, -⟩ := finish_apply h built
      rw [hscene]
      rfl
    · rw [finish_apply_of_not_mem h]
      rfl
  | sync built =>
    cases built with
    | ok model => exact (runSync_ok model s.setups).epoch
    | error x => exact (runSync_error x s.setups).epoch
  | detach => rfl
  | register o => exact (onComplete_keeps o s.setups).1
  | registerFailed label => rfl
  | takeRequest => rfl
  | next =>
    rcases next_cases s with ⟨e, model, rest, -, -, h⟩ | ⟨-, h⟩
    · exact h.epoch
    · exact h.epoch
  | close => rfl

/-- A model is published by an attempt on the caller's thread or by the completion of the current
attempt, and by nothing else. -/
theorem published_apply (m : Move R) (s : Scene R) :
    (m.apply s).setups.published = s.setups.published ∨
      ∃ model, (m.apply s).setups.published = s.setups.published ++ [model] ∧
        (m = .sync (.ok model) ∨ m = .next ∧
          s.setups.queue.waiting.head? = some (.completion s.setups.epoch (.ok model))) := by
  cases m with
  | start => exact .inl rfl
  | finish e built =>
    by_cases h : e ∈ s.working
    · obtain ⟨telemetry, hscene, -⟩ := finish_apply h built
      rw [hscene]
      exact .inl rfl
    · rw [finish_apply_of_not_mem h]
      exact .inl rfl
  | sync built =>
    cases built with
    | ok model => exact .inr ⟨model, (runSync_ok model s.setups).published, .inl rfl⟩
    | error x => exact .inl (runSync_error x s.setups).published
  | detach => exact .inl rfl
  | register o => exact .inl (onComplete_keeps o s.setups).2.1
  | registerFailed label => exact .inl rfl
  | takeRequest => exact .inl rfl
  | next =>
    rcases next_cases s with ⟨e, model, rest, hw, rfl, h⟩ | ⟨-, h⟩
    · exact .inr ⟨model, h.published, .inr ⟨rfl, by rw [hw]; rfl⟩⟩
    · exact .inl h.published
  | close => exact .inl rfl

/-- A worker is at work from the start of its attempt until it ends. -/
theorem working_apply (h : e ∈ (m.apply s).working) :
    e ∈ s.working ∨ m = .start ∧ e = (begin s.setups).1 := by
  cases m with
  | start =>
    rcases List.mem_append.1 h with h | h
    · exact .inl h
    · exact .inr ⟨rfl, List.mem_singleton.1 h⟩
  | finish e' built =>
    by_cases he : e' ∈ s.working
    · obtain ⟨telemetry, hscene, -⟩ := finish_apply he built
      rw [hscene] at h
      exact .inl (List.mem_of_mem_erase h)
    · rw [finish_apply_of_not_mem he] at h
      exact .inl h
  | sync | detach | register | registerFailed | takeRequest | next | close => exact .inl h

/-- A completion that waits was posted by a worker at work. -/
theorem completion_apply (h : .completion e built ∈ (m.apply s).setups.queue.waiting) :
    .completion e built ∈ s.setups.queue.waiting ∨ e ∈ s.working := by
  cases m with
  | start => exact .inl h
  | finish e' built' =>
    by_cases he : e' ∈ s.working
    · obtain ⟨telemetry, hscene, -⟩ := finish_apply he built'
      rw [hscene] at h
      rcases mem_post h with h | h
      · exact .inl h
      · cases h
        exact .inr he
    · rw [finish_apply_of_not_mem he] at h
      exact .inl h
  | sync built' =>
    cases built' with
    | ok model => exact .inl ((runSync_ok model s.setups).completions _ _ h)
    | error x => exact .inl ((runSync_error x s.setups).completions _ _ h)
  | detach => exact .inl h
  | register o => exact .inl ((onComplete_keeps o s.setups).2.2 _ _ h)
  | registerFailed label => exact .inl h
  | takeRequest => exact .inl h
  | next =>
    rcases next_cases s with ⟨e', model, rest, -, -, hnext⟩ | ⟨-, hnext⟩
    · exact .inl (hnext.completions _ _ h)
    · exact .inl (hnext.completions _ _ h)
  | close => cases h

/-! ## Whole runs -/

/-- Every worker at work and every completion that waits belongs to an attempt that was opened. -/
theorem opened_of_pending (t : Telemetry) (ms : List (Move R)) (e : ℕ) :
    e ∈ (play t ms).working ∨ (∃ built, .completion e built ∈ (play t ms).setups.queue.waiting) →
      ∃ after, Opened t ms e after := by
  induction ms using List.reverseRecOn with
  | nil => rintro (h | ⟨built, h⟩) <;> cases h
  | append_singleton ms m ih =>
    rw [play_snoc]
    have hback (h : e ∈ (play t ms).working ∨
        ∃ built, .completion e built ∈ (play t ms).setups.queue.waiting) :
        ∃ after, Opened t (ms ++ [m]) e after := by
      obtain ⟨after, hafter⟩ := ih h
      exact ⟨after ++ [m], hafter.snoc m⟩
    rintro (h | ⟨built, h⟩)
    · rcases working_apply h with h | ⟨rfl, he⟩
      · exact hback (.inl h)
      · exact ⟨[], ms, rfl, he⟩
    · rcases completion_apply h with h | h
      · exact hback (.inr ⟨built, h⟩)
      · exact hback (.inl h)

/-- The epoch counts the attempts and the detaches. -/
theorem epoch_foldl (ms : List (Move R)) (s : Scene R) :
    (ms.foldl (fun s m => m.apply s) s).setups.epoch = s.setups.epoch + ms.countP (·.supersedes) := by
  induction ms generalizing s with
  | nil => rfl
  | cons m ms ih =>
    rw [List.foldl_cons, ih, epoch_apply, List.countP_cons]
    omega

/-- Since the attempt was opened the epoch has counted what superseded it. -/
theorem Opened.epoch_eq (h : Opened t ms e after) :
    (play t ms).setups.epoch = e + after.countP (·.supersedes) := by
  obtain ⟨before, rfl, rfl⟩ := h
  rw [play_append, List.foldl_cons, epoch_foldl, epoch_apply, (begin_apply _).1]
  rfl

/-- An attempt is the current one while nothing that supersedes it has come. -/
theorem Opened.current_iff (h : Opened t ms e after) :
    (play t ms).setups.epoch = e ↔ Current after := by
  rw [h.epoch_eq, Nat.add_eq_left, List.countP_eq_zero]
  simp [Current]

theorem active?_isSome_iff (c : Setups R) : c.active?.isSome = true ↔ c.published ≠ [] := by
  simp [active?]

/-- Once a model is active there always is one. -/
theorem active?_foldl (h : s.setups.active?.isSome = true) (rest : List (Move R)) :
    (rest.foldl (fun s m => m.apply s) s).setups.active?.isSome = true := by
  induction rest generalizing s with
  | nil => exact h
  | cons m rest ih =>
    apply ih
    rw [active?_isSome_iff] at h ⊢
    rcases published_apply m s with hp | ⟨model, hp, -⟩ <;> rw [hp]
    · exact h
    · simp

/-- After any run a move changes the active model only if it is a successful attempt on the
caller's thread, or the successful completion of an attempt that nothing has superseded. A
completion that has failed or whose attempt was superseded leaves the models, the layout request
and the waiting observers as they were. Once a model is active there always is one. -/
theorem models_come_from_current_attempts (t : Telemetry) (ms : List (Move R)) :
    (∀ m, (play t (ms ++ [m])).setups.published = (play t ms).setups.published ∨
      ∃ model, (play t (ms ++ [m])).setups.published = (play t ms).setups.published ++ [model] ∧
        (m = .sync (.ok model) ∨ m = .next ∧ ∃ e after,
          (play t ms).setups.queue.waiting.head? = some (.completion e (.ok model)) ∧
            Opened t ms e after ∧ Current after)) ∧
    (∀ model, (play t (ms ++ [.sync (.ok model)])).setups.published =
      (play t ms).setups.published ++ [model]) ∧
    (∀ e built, (play t ms).setups.queue.waiting.head? = some (.completion e built) →
      (∃ after, Opened t ms e after) ∧ ∀ after, Opened t ms e after →
        (∃ model, built = .ok model ∧ Current after ∧
          (play t (ms ++ [.next])).setups.published = (play t ms).setups.published ++ [model]) ∨
        ((∀ model, built = .ok model → ¬ Current after) ∧
          Untouched (play t ms).setups (play t (ms ++ [.next])).setups)) ∧
    ((play t ms).setups.active?.isSome = true →
      ∀ rest, (play t (ms ++ rest)).setups.active?.isSome = true) := by
  have hopened {e : ℕ} {built : Except LayoutError (Model R)}
      (h : (play t ms).setups.queue.waiting.head? = some (.completion e built)) :
      ∃ after, Opened t ms e after :=
    opened_of_pending t ms e (.inr ⟨built, List.mem_of_mem_head? h⟩)
  refine ⟨fun m => ?_, fun model => ?_, fun e built hhead => ?_, fun h rest => ?_⟩
  · rw [play_snoc]
    refine (published_apply m (play t ms)).imp_right ?_
    rintro ⟨model, hp, hsync | ⟨hnext, hhead⟩⟩
    · exact ⟨model, hp, .inl hsync⟩
    · obtain ⟨after, hafter⟩ := hopened hhead
      exact ⟨model, hp, .inr ⟨hnext, _, after, hhead, hafter, hafter.current_iff.1 rfl⟩⟩
  · rw [play_snoc]
    exact (runSync_ok model (play t ms).setups).published
  · refine ⟨hopened hhead, fun after hafter => ?_⟩
    rw [play_snoc, ← hafter.current_iff]
    rcases next_cases (play t ms) with ⟨e', model, rest, hw, he, h⟩ | ⟨hstale, h⟩
    · rw [hw] at hhead
      cases hhead
      exact .inl ⟨model, rfl, he, h.published⟩
    · refine .inr ⟨?_, h.published, h.layoutRequested, h.observers⟩
      rintro model rfl
      obtain ⟨rest, hw⟩ := List.head?_eq_some_iff.1 hhead
      exact hstale e model rest hw
  · rw [play_append]
    exact active?_foldl h rest

end RegionLayout.Setups
