-- What becomes of the attempts of a run. The completion of an attempt is run once at the most,
-- and each attempt that was started is completed, failed, discarded or still awaited. How far a
-- container is follows from what was published and from the last call that raised the epoch.
import RegionLayout.Proofs.Setups.Publishing
import Mathlib.Data.Set.Card

namespace RegionLayout

/-! ## Counters -/

namespace Metrics

/-- How many attempts have ended. -/
def settled (M : Metrics) : ℕ := M.setupsCompleted + M.setupsFailed + M.setupsDiscarded

/-- One more attempt has ended, for whatever reason, and none was started. -/
def Settles (f : Metrics → Metrics) : Prop := ∀ M : Metrics, M.settled < ceiling →
  (f M).setupsStarted = M.setupsStarted ∧ (f M).settled = M.settled + 1

theorem raise_one {count : ℕ} (h : count < ceiling) : raise count 1 = count + 1 :=
  Nat.min_eq_left h

theorem settles_completed : Settles recordSetupCompleted := by
  intro M h
  have hone : raise M.setupsCompleted 1 = M.setupsCompleted + 1 :=
    raise_one (by unfold settled at h; omega)
  refine ⟨rfl, ?_⟩
  simp only [settled, recordSetupCompleted, hone]
  omega

theorem settles_failed : Settles recordSetupFailed := by
  intro M h
  have hone : raise M.setupsFailed 1 = M.setupsFailed + 1 :=
    raise_one (by unfold settled at h; omega)
  refine ⟨rfl, ?_⟩
  simp only [settled, recordSetupFailed, hone]
  omega

theorem settles_discarded : Settles recordSetupDiscarded := by
  intro M h
  have hone : raise M.setupsDiscarded 1 = M.setupsDiscarded + 1 :=
    raise_one (by unfold settled at h; omega)
  refine ⟨rfl, ?_⟩
  simp only [settled, recordSetupDiscarded, hone]
  omega

end Metrics

namespace Setups

variable {R : Type}

/-! ## Attempts of a run -/

/-- The attempt that the move opens for a worker. -/
def Move.opens? : Move R → Scene R → Option ℕ
  | start, s => some (begin s.setups).1
  | _, _ => none

def Callback.epoch? : Callback R → Option ℕ
  | completion e _ => some e
  | notify .. => none

/-- The attempt whose completion the move runs. -/
def Move.delivers? : Move R → Scene R → Option ℕ
  | next, s => s.setups.queue.waiting.head?.bind Callback.epoch?
  | _, _ => none

/-- Whether the move is an attempt or opens one. -/
def Move.attempts : Move R → Bool
  | start | sync _ => true
  | _ => false

/-- In the run the completion of the attempt `e` was run. -/
def Delivered (t : Telemetry) (ms : List (Move R)) (e : ℕ) : Prop :=
  ∃ before m after, ms = before ++ m :: after ∧ m.delivers? (play t before) = some e

/-- The attempts of workers whose completions have not run. -/
def awaited (t : Telemetry) (ms : List (Move R)) : Set ℕ :=
  {e | (∃ after, Opened t ms e after) ∧ ¬ Delivered t ms e}

/-- After the run the move publishes a model: it is a successful attempt on the caller's thread,
or it runs the successful completion of an attempt that is still the latest. -/
def Publishes (t : Telemetry) (before : List (Move R)) (m : Move R) : Prop :=
  ∃ model, m = .sync (.ok model) ∨ m = .next ∧ ∃ e after,
    (play t before).setups.queue.waiting.head? = some (.completion e (.ok model)) ∧
      Opened t before e after ∧ Current after

/-- Some attempt of the run has published a model. -/
def HasPublished (t : Telemetry) (ms : List (Move R)) : Prop :=
  ∃ before m after, ms = before ++ m :: after ∧ Publishes t before m

/-- The latest call that raises the epoch opened an attempt, whose completion has not run. -/
def LatestAwaited (t : Telemetry) (ms : List (Move R)) : Prop :=
  ∃ e after, Opened t ms e after ∧ Current after ∧ ¬ Delivered t ms e

variable {t : Telemetry} {ms after : List (Move R)} {m : Move R} {s : Scene R} {c c' c'' : Setups R}
  {e : ℕ} {built : Except LayoutError (Model R)} {o : Observer} {p : ℕ} {model : Model R}

theorem exists_split_snoc_iff {Q : List (Move R) → Move R → Prop} :
    (∃ before x after, ms ++ [m] = before ++ x :: after ∧ Q before x) ↔
      (∃ before x after, ms = before ++ x :: after ∧ Q before x) ∨ Q ms m := by
  constructor
  · rintro ⟨before, x, after, heq, hq⟩
    rcases List.eq_nil_or_concat after with rfl | ⟨after, y, rfl⟩
    · obtain ⟨rfl, rfl⟩ := List.append_singleton_inj.1 heq
      exact .inr hq
    · rw [List.concat_eq_append, ← List.cons_append, ← List.append_assoc] at heq
      obtain ⟨rfl, -⟩ := List.append_singleton_inj.1 heq
      exact .inl ⟨before, x, after, rfl, hq⟩
  · rintro (⟨before, x, after, rfl, hq⟩ | hq)
    · exact ⟨before, x, after ++ [m], by simp, hq⟩
    · exact ⟨ms, m, [], rfl, hq⟩

theorem delivered_snoc : Delivered t (ms ++ [m]) e ↔
    Delivered t ms e ∨ m.delivers? (play t ms) = some e := exists_split_snoc_iff

theorem hasPublished_snoc : HasPublished t (ms ++ [m]) ↔
    HasPublished t ms ∨ Publishes t ms m := exists_split_snoc_iff

theorem opens?_eq_some : m.opens? s = some e ↔ m = .start ∧ e = (begin s.setups).1 := by
  cases m <;> simp [Move.opens?, eq_comm]

theorem delivers?_of_supersedes (h : m.supersedes = true) : m.delivers? s = none := by
  cases m <;> first | rfl | cases h

theorem opens?_of_not_supersedes (h : m.supersedes = false) : m.opens? s = none := by
  cases m <;> first | rfl | cases h

theorem exists_opened_iff : (∃ after, Opened t ms e after) ↔
    ∃ before x after, ms = before ++ x :: after ∧ x.opens? (play t before) = some e := by
  constructor
  · rintro ⟨after, before, rfl, rfl⟩
    exact ⟨before, .start, after, rfl, rfl⟩
  · rintro ⟨before, x, after, rfl, hx⟩
    obtain ⟨rfl, he⟩ := opens?_eq_some.1 hx
    exact ⟨after, before, rfl, he⟩

theorem opened_snoc : (∃ after, Opened t (ms ++ [m]) e after) ↔
    (∃ after, Opened t ms e after) ∨ m.opens? (play t ms) = some e := by
  rw [exists_opened_iff, exists_opened_iff]
  exact exists_split_snoc_iff

theorem Opened.le (h : Opened t ms e after) : e ≤ (play t ms).setups.epoch :=
  h.epoch_eq ▸ Nat.le_add_right _ _

theorem latestAwaited_iff : LatestAwaited t ms ↔ (play t ms).setups.epoch ∈ awaited t ms := by
  constructor
  · rintro ⟨e, after, hopened, hcurrent, hdue⟩
    rw [hopened.current_iff.2 hcurrent]
    exact ⟨⟨after, hopened⟩, hdue⟩
  · rintro ⟨⟨after, hopened⟩, hdue⟩
    exact ⟨_, after, hopened, hopened.current_iff.1 rfl, hdue⟩

/-! ## One move -/

/-- No matter of the attempts: the same one is under way, the same completions wait, and nothing
is counted. -/
structure Idle (c c' : Setups R) : Prop where
  inFlight : c'.inFlight = c.inFlight
  metrics : c'.telemetry.metrics = c.telemetry.metrics
  completions : c'.queue.waiting.filterMap Callback.epoch? =
    c.queue.waiting.filterMap Callback.epoch?

theorem Idle.refl (c : Setups R) : Idle c c := ⟨rfl, rfl, rfl⟩

theorem Idle.trans (h : Idle c c') (h' : Idle c' c'') : Idle c c'' :=
  ⟨h'.inFlight.trans h.inFlight, h'.metrics.trans h.metrics, h'.completions.trans h.completions⟩

theorem filterMap_post (o : Observer) (p : ℕ) (q : Queue (Callback R)) :
    (q.post (.notify o p)).waiting.filterMap Callback.epoch? =
      q.waiting.filterMap Callback.epoch? := by
  unfold Queue.post
  split
  · simp [Callback.epoch?]
  · rfl

theorem filterMap_foldl_post (os : List Observer) (p : ℕ) (q : Queue (Callback R)) :
    (os.foldl (fun q o => q.post (.notify o p)) q).waiting.filterMap Callback.epoch? =
      q.waiting.filterMap Callback.epoch? := by
  induction os generalizing q with
  | nil => rfl
  | cons o os ih => exact (ih _).trans (filterMap_post o p q)

/-- An attempt on the caller's thread ends at once, and no completion is posted for it. -/
theorem runSync_ends (built : Except LayoutError (Model R)) (c : Setups R) :
    (runSync built c).2.inFlight = none ∧
      (runSync built c).2.queue.waiting.filterMap Callback.epoch? =
        c.queue.waiting.filterMap Callback.epoch? ∧
      ∃ f, Metrics.Settles f ∧ (runSync built c).2.telemetry.metrics =
        (c.telemetry.metrics.map Metrics.recordSetupStarted).map f := by
  cases built with
  | ok model =>
    obtain ⟨telemetry, hsync, hmetrics⟩ := runSync_ok_apply model c
    rw [hsync]
    exact ⟨rfl, filterMap_foldl_post c.observers _ _, _, Metrics.settles_completed, hmetrics⟩
  | error x =>
    obtain ⟨telemetry, hsync, hmetrics⟩ := runSync_error_apply x c
    rw [hsync]
    exact ⟨rfl, rfl, _, Metrics.settles_failed, hmetrics⟩

theorem idle_onComplete (o : Observer) (c : Setups R) : Idle c (onComplete o c).2 := by
  cases h : c.activePublication? with
  | none =>
    rw [onComplete_of_none h]
    exact ⟨rfl, rfl, rfl⟩
  | some p =>
    rw [onComplete_of_some h]
    exact ⟨rfl, rfl, filterMap_post o p _⟩

theorem idle_forM {α : Type} {f : α → Step R Unit} (hf : ∀ a c, Idle c (f a c).2) (l : List α)
    (c : Setups R) : Idle c (l.forM f c).2 := by
  induction l generalizing c with
  | nil => exact .refl c
  | cons a l ih => exact (hf a c).trans (ih _)

theorem idle_notify (o : Observer) (p : ℕ) (c : Setups R) : Idle c (notify o p c).2 := by
  rw [notify_apply]
  cases c.published[p]? with
  | none => exact .refl c
  | some m =>
    have hnotice : Idle c { c with notices := c.notices ++ [.completed o.label p m] } :=
      ⟨rfl, rfl, rfl⟩
    exact hnotice.trans (idle_forM idle_onComplete o.registers _)

/-- What the end of an attempt on the host's thread leaves. The attempt is not under way any
longer. It only was if its epoch is the current one. -/
theorem complete_ends (e : ℕ) (built : Except LayoutError (Model R)) (c : Setups R) :
    (complete e built c).2.inFlight =
        (if c.epoch = e ∧ c.inFlight = some e then none else c.inFlight) ∧
      (complete e built c).2.queue.waiting.filterMap Callback.epoch? =
        c.queue.waiting.filterMap Callback.epoch? ∧
      ∃ f, Metrics.Settles f ∧
        (complete e built c).2.telemetry.metrics = c.telemetry.metrics.map f := by
  by_cases h : c.epoch = e
  · cases built with
    | ok m =>
      obtain ⟨telemetry, hcomplete, hmetrics⟩ := complete_ok_apply h m
      rw [hcomplete]
      have hcalls := idle_forM (fun o (c' : Setups R) => idle_notify o c.published.length c')
        c.observers { c with
          published := c.published ++ [m]
          inFlight := if c.inFlight = some e then none else c.inFlight
          layoutRequested := true, observers := [], telemetry }
      exact ⟨hcalls.inFlight.trans (by simp [h]), hcalls.completions, _,
        Metrics.settles_completed, hcalls.metrics.trans hmetrics⟩
    | error x =>
      obtain ⟨telemetry, hcomplete, hmetrics⟩ := complete_error_apply h x
      rw [hcomplete]
      exact ⟨by simp [h], rfl, _, Metrics.settles_failed, hmetrics⟩
  · obtain ⟨telemetry, hcomplete, hmetrics⟩ := complete_of_ne_apply h built
    rw [hcomplete]
    exact ⟨by simp [h], rfl, _, Metrics.settles_discarded, hmetrics⟩

/-! ## Attempts under way -/

/-- The attempts whose workers have not ended or whose completions wait. -/
def pending (s : Scene R) : List ℕ :=
  s.working ++ s.setups.queue.waiting.filterMap Callback.epoch?

/-- What the oldest callback leaves. -/
theorem next_ends (s : Scene R) :
    Move.next.delivers? s = none ∧ Idle s.setups (Move.next.apply s).setups ∨
    ∃ e, Move.next.delivers? s = some e ∧
      (Move.next.apply s).setups.inFlight =
        (if s.setups.epoch = e ∧ s.setups.inFlight = some e then none else s.setups.inFlight) ∧
      s.setups.queue.waiting.filterMap Callback.epoch? =
        e :: (Move.next.apply s).setups.queue.waiting.filterMap Callback.epoch? ∧
      ∃ f, Metrics.Settles f ∧
        (Move.next.apply s).setups.telemetry.metrics = s.setups.telemetry.metrics.map f := by
  change _ ∧ Idle _ (runNext s.setups).2 ∨ ∃ e, _ ∧ (runNext s.setups).2.inFlight = _ ∧
    _ = _ :: (runNext s.setups).2.queue.waiting.filterMap _ ∧
      ∃ f, _ ∧ (runNext s.setups).2.telemetry.metrics = _
  have hhead : Move.next.delivers? s = s.setups.queue.waiting.head?.bind Callback.epoch? := rfl
  rw [hhead]
  cases hw : s.setups.queue.waiting with
  | nil =>
    rw [runNext_of_nil hw]
    exact .inl ⟨rfl, .refl _⟩
  | cons k rest =>
    rw [runNext_of_cons hw]
    cases k with
    | notify o p =>
      have hpop : Idle s.setups
          { s.setups with queue := { s.setups.queue with waiting := rest } } := by
        refine ⟨rfl, rfl, ?_⟩
        rw [hw]
        rfl
      exact .inl ⟨rfl, hpop.trans (idle_notify o p _)⟩
    | completion e built =>
      obtain ⟨telemetry, hrun, hmetrics⟩ := run_completion e built
        { s.setups with queue := { s.setups.queue with waiting := rest } }
      rw [hrun]
      obtain ⟨hinFlight, hcompletions, f, hf, hcount⟩ := complete_ends e built
        { s.setups with queue := { s.setups.queue with waiting := rest }, telemetry }
      rw [hmetrics] at hcount
      exact .inr ⟨e, rfl, hinFlight, congrArg (e :: ·) hcompletions.symm, f, hf, hcount⟩

theorem Idle.pending_eq (h : Idle s.setups (m.apply s).setups)
    (hworking : (m.apply s).working = s.working) : pending (m.apply s) = pending s := by
  rw [pending, pending, hworking, h.completions]

/-- What one move does to the attempts under way: a start adds one, and what is delivered was
there before and is gone. -/
theorem pending_apply (m : Move R) (s : Scene R) : List.Subperm
    ((m.delivers? s).toList ++ pending (m.apply s)) ((m.opens? s).toList ++ pending s) := by
  cases m with
  | start =>
    have hpending : pending (Move.start.apply s) = s.working ++
        (begin s.setups).1 :: s.setups.queue.waiting.filterMap Callback.epoch? :=
      List.append_assoc _ _ _
    rw [hpending]
    exact List.perm_middle.subperm
  | finish e built =>
    by_cases h : e ∈ s.working
    · obtain ⟨telemetry, hscene, -⟩ := finish_apply h built
      rw [hscene]
      change (s.working.erase e ++ (s.setups.queue.post _).waiting.filterMap _).Subperm (pending s)
      unfold Queue.post
      split
      · -- the attempt passes from the workers to the queue, and a closed queue drops it
        have hmoved := (List.perm_append_singleton e (s.working.erase e ++
          s.setups.queue.waiting.filterMap Callback.epoch?)).trans
            ((List.perm_cons_erase h).symm.append_right _)
        rw [List.filterMap_append, ← List.append_assoc]
        exact hmoved.subperm
      · exact (List.erase_sublist.append_right _).subperm
    · rw [finish_apply_of_not_mem h]
      exact List.Subperm.refl _
  | sync built =>
    change (s.working ++ (runSync built s.setups).2.queue.waiting.filterMap _).Subperm (pending s)
    rw [(runSync_ends built s.setups).2.1]
    exact List.Subperm.refl _
  | detach => exact List.Subperm.refl _
  | register o =>
    have hidle : Idle s.setups ((Move.register o).apply s).setups := idle_onComplete o s.setups
    rw [hidle.pending_eq rfl]
    exact List.Subperm.refl _
  | registerFailed label => exact List.Subperm.refl _
  | takeRequest => exact List.Subperm.refl _
  | next =>
    rcases next_ends s with ⟨hnone, hidle⟩ | ⟨e, hsome, -, hcompletions, -⟩
    · rw [hnone, hidle.pending_eq rfl]
      exact List.Subperm.refl _
    · rw [hsome, pending, pending, hcompletions]
      have hmoved : (e :: (s.working ++ (Move.next.apply s).setups.queue.waiting.filterMap
          Callback.epoch?)).Perm (s.working ++ e :: _) := List.perm_middle.symm
      exact hmoved.subperm
  | close =>
    have hpending : pending (Move.close.apply s) = s.working := List.append_nil _
    rw [hpending]
    exact (List.sublist_append_left _ _).subperm

/-- What one move does to the attempt that is under way, if only the current one can be. -/
theorem inFlight_apply (m : Move R) (hcurrent : ∀ e, s.setups.inFlight = some e →
    s.setups.epoch = e) : (m.apply s).setups.inFlight =
      if m.supersedes then m.opens? s
      else if m.delivers? s = s.setups.inFlight then none else s.setups.inFlight := by
  have hidle {m : Move R} (h : (m.apply s).setups.inFlight = s.setups.inFlight) :
      (m.apply s).setups.inFlight =
        if none = s.setups.inFlight then none else s.setups.inFlight := by
    rw [h]
    split
    · exact ‹none = _›.symm
    · rfl
  cases m with
  | start => rfl
  | finish e built =>
    refine hidle ?_
    by_cases h : e ∈ s.working
    · obtain ⟨telemetry, hscene, -⟩ := finish_apply h built
      rw [hscene]
    · rw [finish_apply_of_not_mem h]
  | sync built => exact (runSync_ends built s.setups).1
  | detach => rfl
  | register o => exact hidle (idle_onComplete o s.setups).inFlight
  | registerFailed | takeRequest | close => exact hidle rfl
  | next =>
    rcases next_ends s with ⟨hnone, h⟩ | ⟨e, hsome, h, -⟩
    · rw [hnone]
      exact hidle h.inFlight
    · rw [h, hsome]
      by_cases hmine : s.setups.inFlight = some e
      · simp [hmine, hcurrent e hmine, Move.supersedes]
      · simp [hmine, Ne.symm hmine, Move.supersedes]

/-- How many attempts the move ends. -/
def Move.settles (m : Move R) (s : Scene R) : ℕ :=
  match m with
  | sync _ => 1
  | m => (m.delivers? s).toList.length

/-- What one move does to the counters, none of which is full. -/
theorem metrics_apply (m : Move R) {M : Metrics} (hM : s.setups.telemetry.metrics = some M)
    (hstarted : M.setupsStarted + (if m.attempts then 1 else 0) ≤ Metrics.ceiling)
    (hsettled : M.settled + m.settles s ≤ Metrics.ceiling) :
    ∃ M', (m.apply s).setups.telemetry.metrics = some M' ∧
      M'.setupsStarted = M.setupsStarted + (if m.attempts then 1 else 0) ∧
      M'.settled = M.settled + m.settles s := by
  have hidle {c' : Setups R} (h : c'.telemetry.metrics = s.setups.telemetry.metrics) :
      ∃ M', c'.telemetry.metrics = some M' ∧
        M'.setupsStarted = M.setupsStarted + 0 ∧ M'.settled = M.settled + 0 :=
    ⟨M, h.trans hM, rfl, rfl⟩
  cases m with
  | start =>
    have hmetrics : (Move.start.apply s).setups.telemetry.metrics =
        s.setups.telemetry.metrics.map Metrics.recordSetupStarted := rfl
    rw [hmetrics, hM]
    exact ⟨_, rfl, Metrics.raise_one hstarted, rfl⟩
  | finish e built =>
    by_cases h : e ∈ s.working
    · obtain ⟨telemetry, hscene, hmetrics⟩ := finish_apply h built
      rw [hscene]
      exact hidle hmetrics
    · rw [finish_apply_of_not_mem h]
      exact hidle rfl
  | sync built =>
    obtain ⟨-, -, f, hf, hmetrics⟩ := runSync_ends built s.setups
    have hstart : M.recordSetupStarted.setupsStarted = M.setupsStarted + 1 :=
      Metrics.raise_one hstarted
    have hend := hf M.recordSetupStarted hsettled
    rw [hM] at hmetrics
    exact ⟨_, hmetrics, hend.1.trans hstart, hend.2⟩
  | register o => exact hidle (idle_onComplete o s.setups).metrics
  | detach | registerFailed | takeRequest | close => exact hidle rfl
  | next =>
    rcases next_ends s with ⟨hnone, h⟩ | ⟨e, hsome, -, -, f, hf, hmetrics⟩
    · simp only [Move.settles, hnone]
      exact hidle h.metrics
    · simp only [Move.settles, hsome] at hsettled ⊢
      have hend := hf M hsettled
      rw [hM] at hmetrics
      exact ⟨_, hmetrics, hend.1, hend.2⟩

/-! ## Whole runs -/

theorem mem_pending_of_delivers (h : m.delivers? s = some e) : e ∈ pending s := by
  cases m with
  | next =>
    obtain ⟨k, hk, he⟩ := Option.bind_eq_some_iff.1 h
    exact List.mem_append_right _ (List.mem_filterMap.2 ⟨k, List.mem_of_mem_head? hk, he⟩)
  | _ => cases h

theorem opened_of_mem_pending (h : e ∈ pending (play t ms)) : ∃ after, Opened t ms e after := by
  rcases List.mem_append.1 h with h | h
  · exact opened_of_pending t ms e (.inl h)
  · obtain ⟨k, hk, he⟩ := List.mem_filterMap.1 h
    cases k with
    | notify => cases he
    | completion e' built =>
      cases he
      exact opened_of_pending t ms e (.inr ⟨built, hk⟩)

/-- Only a completion of an attempt is ever run. -/
theorem Delivered.opened (h : Delivered t ms e) : ∃ after, Opened t ms e after := by
  induction ms using List.reverseRecOn with
  | nil =>
    obtain ⟨before, x, after, hnil, -⟩ := h
    simp at hnil
  | append_singleton ms m ih =>
    rw [opened_snoc]
    rcases delivered_snoc.1 h with h | h
    · exact .inl (ih h)
    · exact .inl (opened_of_mem_pending (mem_pending_of_delivers h))

theorem awaited_snoc : e ∈ awaited t (ms ++ [m]) ↔
    (e ∈ awaited t ms ∨ m.opens? (play t ms) = some e) ∧ m.delivers? (play t ms) ≠ some e := by
  have hnew (h : m.opens? (play t ms) = some e) : ¬ Delivered t ms e := by
    intro hdelivered
    obtain ⟨after, hopened⟩ := hdelivered.opened
    have hle := hopened.le
    obtain ⟨-, rfl⟩ := opens?_eq_some.1 h
    rw [(begin_apply _).1] at hle
    omega
  change (∃ after, Opened t (ms ++ [m]) e after) ∧ ¬ Delivered t (ms ++ [m]) e ↔
    ((∃ after, Opened t ms e after) ∧ ¬ Delivered t ms e ∨ _) ∧ _
  rw [opened_snoc, delivered_snoc]
  tauto

/-- How the attempts under way stand to those that are awaited. -/
structure Tracked (t : Telemetry) (ms : List (Move R)) : Prop where
  distinct : (pending (play t ms)).Nodup
  due : ∀ e ∈ pending (play t ms), e ∈ awaited t ms
  inFlight : ∀ e, (play t ms).setups.inFlight = some e ↔
    (play t ms).setups.epoch = e ∧ e ∈ awaited t ms

theorem tracked_nil (t : Telemetry) : Tracked t ([] : List (Move R)) := by
  refine ⟨List.nodup_nil, fun e he => absurd he List.not_mem_nil, fun e => ?_⟩
  have hnone : ¬ ∃ after, Opened t ([] : List (Move R)) e after := by
    rintro ⟨after, before, hnil, -⟩
    simp at hnil
  exact ⟨fun h => (by cases h), fun h => absurd h.2.1 hnone⟩

theorem Tracked.not_mem_pending_of_opens (h : Tracked t ms)
    (he : m.opens? (play t ms) = some e) : e ∉ pending (play t ms) := by
  intro hpending
  obtain ⟨after, hopened⟩ := (h.due e hpending).1
  have hle := hopened.le
  have hfresh : e = (play t ms).setups.epoch + 1 := (opens?_eq_some.1 he).2
  omega

/-- An attempt that is delivered is no longer under way. -/
theorem Tracked.nodup_snoc (h : Tracked t ms) (m : Move R) :
    ((m.delivers? (play t ms)).toList ++ pending (play t (ms ++ [m]))).Nodup := by
  obtain ⟨l, hperm, hsub⟩ := pending_apply m (play t ms)
  rw [play_snoc]
  refine hperm.nodup (hsub.nodup (List.nodup_append'.2 ⟨?_, h.distinct, fun e he => ?_⟩))
  · cases m.opens? (play t ms) <;> simp
  · exact h.not_mem_pending_of_opens (by simpa using he)

theorem Tracked.inFlight_snoc (h : Tracked t ms) (m : Move R) (e : ℕ) :
    (play t (ms ++ [m])).setups.inFlight = some e ↔
      (play t (ms ++ [m])).setups.epoch = e ∧ e ∈ awaited t (ms ++ [m]) := by
  rw [awaited_snoc, play_snoc, epoch_apply, inFlight_apply m fun e he => ((h.inFlight e).1 he).1]
  cases hm : m.supersedes with
  | true =>
    rw [if_pos rfl, if_pos rfl, delivers?_of_supersedes hm]
    constructor
    · exact fun he => ⟨(opens?_eq_some.1 he).2.symm, .inr he, by simp⟩
    · rintro ⟨rfl, hold | hnew, -⟩
      · obtain ⟨after, hopened⟩ := hold.1
        exact absurd hopened.le (by omega)
      · exact hnew
  | false =>
    rw [if_neg Bool.false_ne_true, if_neg Bool.false_ne_true, opens?_of_not_supersedes hm, add_zero]
    have hmine := h.inFlight e
    split
    · rename_i hends
      constructor
      · exact fun h => by cases h
      · rintro ⟨he, hold | hnew, hleft⟩
        · exact absurd (hends.trans (hmine.2 ⟨he, hold⟩)) hleft
        · cases hnew
    · rename_i hleft
      constructor
      · intro he
        exact ⟨(hmine.1 he).1, .inl (hmine.1 he).2, fun hends => hleft (hends.trans he.symm)⟩
      · rintro ⟨he, hold | hnew, -⟩
        · exact hmine.2 ⟨he, hold⟩
        · cases hnew

theorem Tracked.snoc (h : Tracked t ms) (m : Move R) : Tracked t (ms ++ [m]) := by
  obtain ⟨-, hdistinct, hapart⟩ := List.nodup_append'.1 (h.nodup_snoc m)
  have hmoved := pending_apply m (play t ms)
  rw [← play_snoc] at hmoved
  refine ⟨hdistinct, fun e he => awaited_snoc.2 ⟨?_, fun hdelivers => ?_⟩, h.inFlight_snoc m⟩
  · rcases List.mem_append.1 (hmoved.subset (List.mem_append_right _ he)) with he | he
    · exact .inr (by simpa using he)
    · exact .inl (h.due e he)
  · exact hapart (by simpa using hdelivers) he

theorem tracked (t : Telemetry) (ms : List (Move R)) : Tracked t ms := by
  induction ms using List.reverseRecOn with
  | nil => exact tracked_nil t
  | append_singleton ms m ih => exact ih.snoc m

theorem Publishes.published (h : Publishes t ms m) : ∃ model,
    (play t (ms ++ [m])).setups.published = (play t ms).setups.published ++ [model] := by
  rw [play_snoc]
  obtain ⟨model, rfl | ⟨rfl, e, after, hhead, hopened, hcurrent⟩⟩ := h
  · exact ⟨model, (runSync_ok model _).published⟩
  · rcases next_cases (play t ms) with ⟨e', model', rest, -, -, h⟩ | ⟨hstale, -⟩
    · exact ⟨model', h.published⟩
    · obtain ⟨rest, hw⟩ := List.head?_eq_some_iff.1 hhead
      exact absurd (hopened.current_iff.2 hcurrent) (hstale e model rest hw)

/-- A model is active just when some attempt has published. -/
theorem hasPublished_iff : HasPublished t ms ↔ (play t ms).setups.published ≠ [] := by
  induction ms using List.reverseRecOn with
  | nil =>
    refine ⟨?_, fun h => absurd rfl h⟩
    rintro ⟨before, x, after, hnil, -⟩
    simp at hnil
  | append_singleton ms m ih =>
    rw [hasPublished_snoc, ih, play_snoc]
    rcases published_apply m (play t ms) with hsame | ⟨model, hmore, hhow⟩
    · have hnone : ¬ Publishes t ms m := by
        intro h
        obtain ⟨model, hmore⟩ := h.published
        rw [play_snoc, hsame] at hmore
        simp at hmore
      rw [hsame, or_iff_left hnone]
    · have hpublishes : Publishes t ms m := by
        refine ⟨model, hhow.imp_right ?_⟩
        rintro ⟨rfl, hhead⟩
        obtain ⟨after, hopened⟩ := opened_of_pending t ms (play t ms).setups.epoch
          (.inr ⟨_, List.mem_of_mem_head? hhead⟩)
        exact ⟨rfl, _, after, hhead, hopened, hopened.current_iff.1 rfl⟩
      rw [hmore]
      simp [hpublishes]

/-- A start adds one to the attempts that are awaited, and a completion that runs takes one off. -/
theorem awaited_apply (hfinite : (awaited t ms).Finite) (m : Move R) :
    (awaited t (ms ++ [m])).Finite ∧
      (awaited t (ms ++ [m])).ncard + (m.delivers? (play t ms)).toList.length =
        (awaited t ms).ncard + (m.opens? (play t ms)).toList.length := by
  cases hopens : m.opens? (play t ms) with
  | some e =>
    have hdelivers : m.delivers? (play t ms) = none := by
      obtain ⟨rfl, -⟩ := opens?_eq_some.1 hopens
      rfl
    have hinsert : awaited t (ms ++ [m]) = insert e (awaited t ms) := by
      ext e'
      rw [awaited_snoc, hopens, hdelivers]
      simp [or_comm, eq_comm]
    have hnew : e ∉ awaited t ms := by
      rintro ⟨⟨after, hopened⟩, -⟩
      have hle := hopened.le
      rw [(opens?_eq_some.1 hopens).2, (begin_apply _).1] at hle
      omega
    rw [hdelivers, hinsert, Set.ncard_insert_of_notMem hnew hfinite]
    exact ⟨hfinite.insert e, rfl⟩
  | none =>
    cases hdelivers : m.delivers? (play t ms) with
    | some e =>
      have herase : awaited t (ms ++ [m]) = awaited t ms \ {e} := by
        ext e'
        rw [awaited_snoc, hopens, hdelivers]
        simp [eq_comm]
      have hmem : e ∈ awaited t ms := (tracked t ms).due e (mem_pending_of_delivers hdelivers)
      rw [herase]
      exact ⟨hfinite.sdiff, Set.ncard_sdiff_singleton_add_one hmem hfinite⟩
    | none =>
      have hsame : awaited t (ms ++ [m]) = awaited t ms := by
        ext e
        rw [awaited_snoc, hopens, hdelivers]
        simp
      rw [hsame]
      exact ⟨hfinite, rfl⟩

/-- What a move starts it ends itself or leaves awaited. -/
theorem attempts_add_delivered (m : Move R) (s : Scene R) :
    (if m.attempts then 1 else 0) + (m.delivers? s).toList.length =
      (m.opens? s).toList.length + m.settles s := by
  cases m <;> simp [Move.attempts, Move.delivers?, Move.opens?, Move.settles]

theorem started_eq {m₀ : Metrics} (hm : t.metrics = some m₀)
    (hbalanced : m₀.setupsStarted = m₀.settled)
    (hroom : m₀.setupsStarted + ms.countP (·.attempts) ≤ Metrics.ceiling) :
    (awaited t ms).Finite ∧ ∃ M, (play t ms).setups.telemetry.metrics = some M ∧
      M.setupsStarted = m₀.setupsStarted + ms.countP (·.attempts) ∧
      M.setupsStarted = M.settled + (awaited t ms).ncard := by
  induction ms using List.reverseRecOn with
  | nil =>
    have hempty : awaited t ([] : List (Move R)) = ∅ := by
      refine Set.eq_empty_iff_forall_notMem.2 fun e he => ?_
      obtain ⟨⟨after, before, hnil, -⟩, -⟩ := he
      simp at hnil
    rw [hempty, Set.ncard_empty]
    exact ⟨Set.finite_empty, m₀, hm, rfl, hbalanced⟩
  | append_singleton ms m ih =>
    rw [List.countP_append, List.countP_singleton] at hroom ⊢
    obtain ⟨hfinite, M, hM, hstarted, hbalance⟩ := ih (by omega)
    obtain ⟨hfinite', hcard⟩ := awaited_apply hfinite m
    have hends := attempts_add_delivered m (play t ms)
    obtain ⟨M', hM', hstarted', hsettled'⟩ := metrics_apply m hM (by omega) (by omega)
    rw [play_snoc]
    exact ⟨hfinite', M', hM', by omega, by omega⟩

/-- Every attempt that was started is completed, failed, discarded or still awaited. A container
has a model once an attempt has published one. Without one it is in progress just while the
latest of the calls that raise the epoch has opened an attempt whose completion has not run. -/
theorem attempts_are_accounted_for (t : Telemetry) (ms : List (Move R)) {m₀ : Metrics}
    (hm : t.metrics = some m₀)
    (hbalanced : m₀.setupsStarted = m₀.setupsCompleted + m₀.setupsFailed + m₀.setupsDiscarded)
    (hroom : m₀.setupsStarted + ms.countP (·.attempts) ≤ Metrics.ceiling) :
    ((awaited t ms).Finite ∧ ∃ M, (play t ms).setups.telemetry.metrics = some M ∧
      M.setupsStarted =
        M.setupsCompleted + M.setupsFailed + M.setupsDiscarded + (awaited t ms).ncard) ∧
    ((play t ms).setups.phase = .postSetup ↔ HasPublished t ms) ∧
    ((play t ms).setups.phase = .inProgress ↔ ¬ HasPublished t ms ∧ LatestAwaited t ms) ∧
    ((play t ms).setups.phase = .preSetup ↔ ¬ HasPublished t ms ∧ ¬ LatestAwaited t ms) := by
  obtain ⟨hfinite, M, hM, -, hbalance⟩ := started_eq hm hbalanced hroom
  have hlatest : LatestAwaited t ms ↔ (play t ms).setups.inFlight.isSome = true := by
    rw [latestAwaited_iff, Option.isSome_iff_exists]
    simp [(tracked t ms).inFlight]
  refine ⟨⟨hfinite, M, hM, hbalance⟩, ?_⟩
  rw [hasPublished_iff, ← active?_isSome_iff, hlatest, phase]
  cases (play t ms).setups.active?.isSome <;> cases (play t ms).setups.inFlight.isSome <;> simp

/-- Two attempts, the older of which ends in vain, then a detach and one attempt more. -/
def restless : List (Move Rat) :=
  [.start, .start, .finish 1 (.error (.notFound "a")), .next, .detach, .start]

theorem two_attempts_are_awaited : (awaited { metrics := some {} } restless).ncard = 2 ∧
    ¬ HasPublished { metrics := some {} } restless ∧
    LatestAwaited { metrics := some {} } restless := by
  obtain ⟨⟨-, M, hM, hbalance⟩, -, hphase, -⟩ :=
    attempts_are_accounted_for { metrics := some {} } restless rfl rfl (by decide)
  have hcounted : (play { metrics := some {} } restless).setups.telemetry.metrics =
      some { setupsStarted := 3, setupsDiscarded := 1 } := by decide +kernel
  obtain rfl := Option.some.inj (hM.symm.trans hcounted)
  have htwo : 3 = 1 + (awaited { metrics := some {} } restless).ncard := hbalance
  exact ⟨by omega, hphase.1 (by decide +kernel)⟩

end Setups

end RegionLayout
