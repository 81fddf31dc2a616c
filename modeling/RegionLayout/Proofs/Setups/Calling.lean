-- Whom a run calls, and with which model. A history lists who registers and who is called, each
-- time with the number of models there are by then. Observers are served in turn: a call is for
-- the one that has been due longest, and what it is due is the model that was active when it
-- registered, or else the first that comes.
import RegionLayout.Proofs.Setups.Publishing

namespace RegionLayout.Setups

variable {R : Type}

/-! ## Histories -/

/-- What becomes of an observer. There are `models` published models by then, and the last of
them, if there is one, is active. -/
inductive Event where
  | registered (o : Observer) (models : ℕ)
  /-- It is called with the model of a publication. -/
  | called (o : Observer) (publication models : ℕ)

namespace Event

def registration? : Event → Option (Observer × ℕ)
  | registered o models => some (o, models)
  | called .. => none

def call? : Event → Option (Observer × ℕ)
  | registered .. => none
  | called o publication _ => some (o, publication)

end Event

/-- Who registers, in turn, and how many models there are then. -/
def registrations (h : List Event) : List (Observer × ℕ) := h.filterMap Event.registration?

/-- Who is called, in turn, and with the model of which publication. -/
def calls (h : List Event) : List (Observer × ℕ) := h.filterMap Event.call?

/-- An observer is called, and then registers others. -/
def callEvents (publication models : ℕ) (o : Observer) : List Event :=
  .called o publication models :: o.registers.map (.registered · models)

/-- What the move brings about. A completion that publishes calls everyone who waits, after its
model has become the active one. -/
def Move.events : Move R → Scene R → List Event
  | register o, s => [.registered o s.setups.published.length]
  | next, s =>
    match s.setups.queue.waiting with
    | .notify o p :: _ => callEvents p s.setups.published.length o
    | .completion e (.ok _) :: _ =>
      if s.setups.epoch = e then s.setups.observers.flatMap
        (callEvents s.setups.published.length (s.setups.published.length + 1))
      else []
    | _ => []
  | _, _ => []

/-- What the moves bring about from a scene on. -/
def eventsFrom : Scene R → List (Move R) → List Event
  | _, [] => []
  | s, m :: ms => m.events s ++ eventsFrom (m.apply s) ms

/-- What a run brings about. -/
def history (t : Telemetry) (ms : List (Move R)) : List Event :=
  eventsFrom { setups := { telemetry := t } } ms

variable {t : Telemetry} {ms : List (Move R)} {m : Move R} {s : Scene R} {c : Setups R}
  {o : Observer} {os : List Observer} {p n : ℕ} {model : Model R} {ev : Event}
  {h h' : List Event} {d d' d'' : List (Observer × ℕ)}

theorem eventsFrom_append (s : Scene R) (ms ms' : List (Move R)) :
    eventsFrom s (ms ++ ms') =
      eventsFrom s ms ++ eventsFrom (ms.foldl (fun s m => m.apply s) s) ms' := by
  induction ms generalizing s with
  | nil => rfl
  | cons m ms ih => rw [List.cons_append, eventsFrom, ih, eventsFrom, List.append_assoc]; rfl

@[simp] theorem history_snoc (t : Telemetry) (ms : List (Move R)) (m : Move R) :
    history t (ms ++ [m]) = history t ms ++ m.events (play t ms) := by
  rw [history, eventsFrom_append, eventsFrom, eventsFrom, List.append_nil]
  rfl

@[simp] theorem calls_nil : calls [] = [] := rfl

@[simp] theorem calls_registered (h : List Event) : calls (.registered o n :: h) = calls h := rfl

@[simp] theorem calls_called (h : List Event) :
    calls (.called o p n :: h) = (o, p) :: calls h := rfl

@[simp] theorem calls_append (h h' : List Event) : calls (h ++ h') = calls h ++ calls h' :=
  List.filterMap_append

@[simp] theorem calls_map_registered (os : List Observer) (n : ℕ) :
    calls (os.map (.registered · n)) = [] := by
  induction os with
  | nil => rfl
  | cons o os ih => exact ih

@[simp] theorem registrations_nil : registrations [] = [] := rfl

@[simp] theorem registrations_registered (h : List Event) :
    registrations (.registered o n :: h) = (o, n) :: registrations h := rfl

@[simp] theorem registrations_called (h : List Event) :
    registrations (.called o p n :: h) = registrations h := rfl

/-! ## In turn -/

/-- The observers that are due a call, each with its model, are served in turn, the longest due
first. An observer that registers is due the last of the models, or else the first to come. -/
inductive Served : List (Observer × ℕ) → List Event → List (Observer × ℕ) → Prop
  | nil (d : List (Observer × ℕ)) : Served d [] d
  | registered {d d' : List (Observer × ℕ)} {o : Observer} {models : ℕ} {h : List Event}
      (hrest : Served (d ++ [(o, models - 1)]) h d') :
      Served d (.registered o models :: h) d'
  | called {d d' : List (Observer × ℕ)} {o : Observer} {p models : ℕ} {h : List Event}
      (hp : p < models) (hrest : Served d h d') :
      Served ((o, p) :: d) (.called o p models :: h) d'

theorem Served.append (hs : Served d h d') (hs' : Served d' h' d'') :
    Served d (h ++ h') d'' := by
  induction hs with
  | nil => exact hs'
  | registered _ ih => exact .registered (ih hs')
  | called hp _ ih => exact .called hp (ih hs')

theorem Served.split (hs : Served d (h ++ h') d'') :
    ∃ d', Served d h d' ∧ Served d' h' d'' := by
  induction h generalizing d with
  | nil => exact ⟨d, .nil d, hs⟩
  | cons ev h ih =>
    cases hs with
    | registered hrest =>
      obtain ⟨d', hfirst, hlast⟩ := ih hrest
      exact ⟨d', .registered hfirst, hlast⟩
    | called hp hrest =>
      obtain ⟨d', hfirst, hlast⟩ := ih hrest
      exact ⟨d', .called hp hfirst, hlast⟩

/-- Whoever is due at first or registers is called or still due. -/
theorem Served.balance (hs : Served d h d') :
    d ++ (registrations h).map (fun r => (r.1, r.2 - 1)) = calls h ++ d' := by
  induction hs with
  | nil d => simp
  | registered _ ih => simpa using ih
  | called _ _ ih => simpa using ih

/-- With nobody due at first, a call is for the one whose turn it is among those that have
registered, and with the model that it was due. -/
theorem Served.call_is_due (hs : Served [] (h ++ .called o p n :: h') d') : ∃ k,
    (registrations h)[(calls h).length]? = some (o, k) ∧ p = k - 1 ∧ p < n := by
  obtain ⟨d, hfirst, hlast⟩ := hs.split
  cases hlast with
  | called hp _ =>
    have hturn := congrArg (·[(calls h).length]?) hfirst.balance
    simp only [List.nil_append, List.getElem?_map, List.getElem?_append_right (Nat.le_refl _),
      Nat.sub_self, List.getElem?_cons_zero, Option.map_eq_some_iff] at hturn
    obtain ⟨⟨o', k⟩, hk, heq⟩ := hturn
    obtain ⟨rfl, rfl⟩ := Prod.mk.inj heq
    exact ⟨k, hk, rfl, hp⟩

theorem served_registered (d : List (Observer × ℕ)) (os : List Observer) (n : ℕ) :
    Served d (os.map (.registered · n)) (d ++ os.map (·, n - 1)) := by
  induction os generalizing d with
  | nil => simpa using Served.nil d
  | cons o os ih => simpa using Served.registered (ih (d ++ [(o, n - 1)]))

/-! ## What the calls of the setups do -/

/-- The setups with callbacks posted. -/
def posted (c : Setups R) (ks : List (Callback R)) : Setups R :=
  { c with queue := { c.queue with waiting := c.queue.waiting ++ ks } }

theorem post_of_open (hopen : c.queue.isOpen = true) (k : Callback R) :
    (post k c).2 = c.posted [k] := by
  change { c with queue := c.queue.post k } = _
  rw [Queue.post, if_pos hopen]
  rfl

/-- A callback is posted for each of a list. -/
theorem forM_posted {α : Type} {f : α → Step R Unit} {k : α → Callback R} {models : List (Model R)}
    (hf : ∀ a c, c.queue.isOpen = true → c.published = models → (f a c).2 = c.posted [k a])
    (l : List α) (hopen : c.queue.isOpen = true) (hmodels : c.published = models) :
    (l.forM f c).2 = c.posted (l.map k) := by
  induction l generalizing c with
  | nil =>
    change c = c.posted []
    simp [posted]
  | cons a l ih =>
    change (l.forM f (f a c).2).2 = _
    rw [hf a c hopen hmodels]
    refine (ih (c := c.posted [k a]) hopen hmodels).trans ?_
    simp [posted]

theorem foldl_post_of_open {q : Queue (Callback R)} (hopen : q.isOpen = true)
    (os : List Observer) (p : ℕ) : os.foldl (fun q o => q.post (.notify o p)) q =
      { q with waiting := q.waiting ++ os.map (.notify · p) } := by
  induction os generalizing q with
  | nil => simp
  | cons o os ih =>
    rw [List.foldl_cons, Queue.post, if_pos hopen]
    refine (ih (q := { q with waiting := q.waiting ++ [.notify o p] }) hopen).trans ?_
    simp

theorem forM_onComplete (hopen : c.queue.isOpen = true) (hactive : c.published ≠ [])
    (os : List Observer) :
    (os.forM onComplete c).2 = c.posted (os.map (.notify · (c.published.length - 1))) := by
  refine forM_posted (fun o c' hopen' hmodels => ?_) os hopen rfl
  rw [onComplete_of_some (activePublication?_of_ne (hmodels ▸ hactive)), post_of_open hopen',
    hmodels]

/-- An observer that is called is noted, and those it registers are posted. -/
theorem notify_of_some (hopen : c.queue.isOpen = true) (hm : c.published[p]? = some model) :
    (notify o p c).2 = { c.posted (o.registers.map (.notify · (c.published.length - 1))) with
      notices := c.notices ++ [.completed o.label p model] } := by
  have hactive : c.published ≠ [] := by
    rintro hnone
    simp [hnone] at hm
  rw [notify_apply, hm]
  exact forM_onComplete (c := { c with notices := c.notices ++ [.completed o.label p model] })
    hopen hactive o.registers

/-! ## Who is due -/

def Callback.due? : Callback R → Option (Observer × ℕ)
  | notify o p => some (o, p)
  | completion .. => none

/-- The observers whose calls are posted. -/
def posts (c : Setups R) : List (Observer × ℕ) := c.queue.waiting.filterMap Callback.due?

/-- The observers that are due a call, and the models: those who wait get the first one. -/
def due (c : Setups R) : List (Observer × ℕ) := posts c ++ c.observers.map (·, 0)

def Notice.call? : Notice R → Option (String × ℕ)
  | completed label p _ => some (label, p)
  | failed .. => none

/-- Who has been called, by label, and with the model of which publication. -/
def told (c : Setups R) : List (String × ℕ) := c.notices.filterMap Notice.call?

/-- Who registers is not called by that. -/
theorem told_onComplete (o : Observer) (c : Setups R) : told (onComplete o c).2 = told c := by
  cases h : c.activePublication? with
  | none => rw [onComplete_of_none h]; rfl
  | some p => rw [onComplete_of_some h]; rfl

/-- Nobody waits while a model is active, and calls are posted and were made only with models
that are published. -/
structure Orderly (c : Setups R) : Prop where
  isOpen : c.queue.isOpen = true
  free : c.published ≠ [] → c.observers = []
  bound : ∀ r ∈ posts c, r.2 < c.published.length
  noted : ∀ label p m, .completed label p m ∈ c.notices → c.published[p]? = some m

/-- With `d` due at first, the observers have seen the events on the way to `c'`, and no others. -/
structure Attended (d : List (Observer × ℕ)) (c : Setups R) (h : List Event) (c' : Setups R) :
    Prop where
  orderly : Orderly c'
  served : Served d h (due c')
  told : told c' = told c ++ (calls h).map fun r => (r.1.label, r.2)

/-- No observer has anything to do with it. -/
structure Hushed (c c' : Setups R) : Prop where
  published : c'.published = c.published
  observers : c'.observers = c.observers
  isOpen : c'.queue.isOpen = c.queue.isOpen
  posts : posts c' = posts c
  notices : ∃ l, c'.notices = c.notices ++ l ∧ ∀ x ∈ l, x.call? = none

theorem Hushed.attended {c' : Setups R} (h : Hushed c c') (hc : Orderly c) :
    Attended (due c) c [] c' := by
  obtain ⟨l, hl, hnone⟩ := h.notices
  refine ⟨⟨h.isOpen.trans hc.isOpen, ?_, ?_, fun label p m hm => ?_⟩, ?_, ?_⟩
  · rw [h.published, h.observers]
    exact hc.free
  · rw [h.published, h.posts]
    exact hc.bound
  · rw [hl] at hm
    rcases List.mem_append.1 hm with hm | hm
    · rw [h.published]
      exact hc.noted label p m hm
    · simpa [Notice.call?] using hnone _ hm
  · rw [due, due, h.posts, h.observers]
    exact .nil _
  · rw [told, hl, List.filterMap_append, List.filterMap_eq_nil_iff.2 hnone]
    rfl

theorem Attended.of_told {c₀ c' : Setups R} (ha : Attended d c h c') (ht : c₀.told = c.told) :
    Attended d c₀ h c' := ⟨ha.orderly, ha.served, ht ▸ ha.told⟩

theorem posts_posted (c : Setups R) (os : List Observer) (p : ℕ) :
    posts (c.posted (os.map (.notify · p))) = posts c ++ os.map (·, p) := by
  simp [posts, posted, List.filterMap_append, List.filterMap_map, Function.comp_def,
    Callback.due?]

/-- Calls are posted only once there is a model, and by then nobody waits. -/
theorem Orderly.none_waits (hc : Orderly c) :
    c.published = [] ∧ posts c = [] ∨ c.observers = [] := by
  by_cases hnone : c.published = []
  · refine .inl ⟨hnone, List.eq_nil_iff_forall_not_mem.2 fun r hr => ?_⟩
    simpa [hnone] using hc.bound r hr
  · exact .inr (hc.free hnone)

theorem Orderly.noted_append (hc : Orderly c) {label : String}
    (hm : .completed label p model ∈ c.notices) (m : Model R) :
    (c.published ++ [m])[p]? = some model := by
  have hp := hc.noted label p model hm
  rwa [List.getElem?_append_left (List.getElem?_eq_some_iff.1 hp).1]

theorem Orderly.due_of_active (hc : Orderly c) (h : c.published ≠ []) : due c = posts c := by
  rw [due, hc.free h]
  simp

/-- An observer is called with a published model. Those it registers are due after all others. -/
theorem Orderly.notify (hc : Orderly c) (hp : p < c.published.length) (o : Observer) :
    Orderly (notify o p c).2 ∧ (Setups.notify o p c).2.published = c.published ∧
      due (Setups.notify o p c).2 = due c ++ o.registers.map (·, c.published.length - 1) ∧
      told (Setups.notify o p c).2 = told c ++ [(o.label, p)] := by
  have hactive : c.published ≠ [] := List.ne_nil_of_length_pos (Nat.zero_lt_of_lt hp)
  have hm : c.published[p]? = some c.published[p] := List.getElem?_eq_getElem hp
  rw [notify_of_some hc.isOpen hm]
  have hposts := posts_posted c o.registers (c.published.length - 1)
  have horderly : Orderly { c.posted (o.registers.map (.notify · (c.published.length - 1))) with
      notices := c.notices ++ [.completed o.label p c.published[p]] } := by
    refine ⟨hc.isOpen, hc.free, fun r hr => ?_, fun label q m hmem => ?_⟩
    · rcases List.mem_append.1 (hposts ▸ hr) with hr | hr
      · exact hc.bound r hr
      · obtain ⟨o', -, rfl⟩ := List.mem_map.1 hr
        exact Nat.sub_one_lt_of_lt hp
    · rcases List.mem_append.1 hmem with hmem | hmem
      · exact hc.noted label q m hmem
      · cases List.mem_singleton.1 hmem
        exact hm
  refine ⟨horderly, rfl, ?_, ?_⟩
  · rw [horderly.due_of_active hactive, hc.due_of_active hactive]
    exact hposts
  · simp [told, Notice.call?]

/-- Observers are called in turn with a published model. -/
theorem Orderly.attended_calls (hc : Orderly c) (hp : p < c.published.length)
    (os : List Observer) :
    Attended (os.map (·, p) ++ due c) c (os.flatMap (callEvents p c.published.length))
      (os.forM (Setups.notify · p) c).2 := by
  induction os generalizing c with
  | nil => exact ⟨hc, .nil _, (List.append_nil _).symm⟩
  | cons o os ih =>
    obtain ⟨horderly, hpublished, hdue, htold⟩ := hc.notify hp o
    have hrest := ih horderly (hpublished ▸ hp)
    rw [hpublished, hdue] at hrest
    refine ⟨hrest.orderly, .called hp (Served.append (served_registered _ o.registers _) ?_), ?_⟩
    · exact (List.append_assoc _ _ _).symm ▸ hrest.served
    · refine hrest.told.trans ?_
      simp [callEvents, htold]

/-! ## One move -/

theorem Orderly.attended_register (hc : Orderly c) (o : Observer) :
    Attended (due c) c [.registered o c.published.length] (onComplete o c).2 := by
  by_cases hnone : c.published = []
  · have hactive : c.activePublication? = none := by simp [activePublication?, hnone]
    rw [onComplete_of_none hactive]
    refine ⟨⟨hc.isOpen, fun hsome => ?_, hc.bound, hc.noted⟩, .registered ?_, ?_⟩
    · exact absurd hnone hsome
    · rw [hnone, due, due, List.map_append, ← List.append_assoc]
      exact .nil _
    · exact (List.append_nil _).symm
  · rw [onComplete_of_some (activePublication?_of_ne hnone), post_of_open hc.isOpen]
    have hposts := posts_posted c [o] (c.published.length - 1)
    have horderly : Orderly (c.posted [.notify o (c.published.length - 1)]) := by
      refine ⟨hc.isOpen, hc.free, fun r hr => ?_, hc.noted⟩
      rcases List.mem_append.1 (hposts ▸ hr) with hr | hr
      · exact hc.bound r hr
      · obtain rfl := List.mem_singleton.1 hr
        exact Nat.sub_one_lt_of_lt (List.length_pos_of_ne_nil hnone)
    refine ⟨horderly, .registered ?_, (List.append_nil _).symm⟩
    rw [horderly.due_of_active hnone, hc.due_of_active hnone]
    exact hposts ▸ .nil _

/-- A model published on the caller's thread: the calls of those who wait are posted with it. -/
theorem Orderly.attended_sync (hc : Orderly c) (model : Model R) :
    Attended (due c) c [] (runSync (.ok model) c).2 := by
  obtain ⟨telemetry, hsync, -⟩ := runSync_ok_apply model c
  rw [foldl_post_of_open hc.isOpen] at hsync
  generalize (runSync (.ok model) c).2 = c' at hsync ⊢
  have hposts : posts c' = posts c ++ c.observers.map (·, c.published.length) := by
    rw [hsync]
    exact posts_posted c c.observers _
  have hdue : due c' = due c := by
    rw [due, hposts, hsync]
    rcases hc.none_waits with ⟨hnone, hnoposts⟩ | hnone
    · simp [due, hnone]
    · simp [due, hnone]
  refine ⟨⟨?_, fun _ => ?_, fun r hr => ?_, fun label p m hm => ?_⟩, hdue ▸ .nil _, ?_⟩
  · rw [hsync]
    exact hc.isOpen
  · rw [hsync]
  · rw [hsync, List.length_append]
    rcases List.mem_append.1 (hposts ▸ hr) with hr | hr
    · exact Nat.lt_add_right _ (hc.bound r hr)
    · obtain ⟨o, -, rfl⟩ := List.mem_map.1 hr
      exact Nat.lt_succ_self _
  · rw [hsync] at hm ⊢
    exact hc.noted_append hm model
  · rw [hsync]
    exact (List.append_nil _).symm

/-- The completion of the current attempt publishes a model, and everyone who waits is called. -/
theorem Orderly.attended_complete (hc : Orderly c) (model : Model R) :
    Attended (due c) c (c.observers.flatMap (callEvents c.published.length
      (c.published.length + 1))) (complete c.epoch (.ok model) c).2 := by
  obtain ⟨telemetry, hcomplete, -⟩ := complete_ok_apply (c := c) rfl model
  let c' : Setups R := { c with
    published := c.published ++ [model]
    inFlight := if c.inFlight = some c.epoch then none else c.inFlight
    layoutRequested := true, observers := [], telemetry }
  have hlength : c'.published.length = c.published.length + 1 := List.length_append
  have horderly : Orderly c' := by
    refine ⟨hc.isOpen, fun _ => rfl, fun r hr => ?_, fun label p m hm => ?_⟩
    · rw [hlength]
      exact Nat.lt_succ_of_lt (hc.bound r hr)
    · exact hc.noted_append hm model
  -- whoever waits is due the first model, and if anyone does it is the one published here
  have hdue : c.observers.map (·, c.published.length) ++ due c' = due c := by
    have hposts : due c' = posts c := List.append_nil _
    rw [hposts]
    rcases hc.none_waits with ⟨hnone, hnoposts⟩ | hnone
    · simp [due, hnone, hnoposts]
    · simp [due, hnone]
  have hlast : c.published.length < c'.published.length := by
    rw [hlength]
    exact Nat.lt_succ_self _
  have hcalls := horderly.attended_calls hlast c.observers
  rw [hlength, hdue] at hcalls
  rw [hcomplete]
  exact ⟨hcalls.orderly, hcalls.served, hcalls.told⟩

theorem Hushed.of_eq {c' : Setups R} (hpublished : c'.published = c.published)
    (hobservers : c'.observers = c.observers) (hopen : c'.queue.isOpen = c.queue.isOpen)
    (hposts : c'.posts = c.posts) (hnotices : c'.notices = c.notices) :
    Hushed c c' :=
  ⟨hpublished, hobservers, hopen, hposts, [], by rw [hnotices, List.append_nil], by simp⟩

theorem Hushed.refl (c : Setups R) : Hushed c c := .of_eq rfl rfl rfl rfl rfl

/-- A completion that publishes nothing is no matter of the observers. -/
theorem hushed_complete {e : ℕ} {built : Except LayoutError (Model R)}
    (h : ∀ model, built = .ok model → c.epoch ≠ e) : Hushed c (complete e built c).2 := by
  by_cases he : c.epoch = e
  · cases built with
    | ok model => exact absurd he (h model rfl)
    | error x =>
      obtain ⟨telemetry, hcomplete, -⟩ := complete_error_apply he x
      rw [hcomplete]
      refine ⟨rfl, rfl, rfl, rfl, _, rfl, fun y hy => ?_⟩
      obtain ⟨label, -, rfl⟩ := List.mem_map.1 hy
      rfl
  · obtain ⟨telemetry, hcomplete, -⟩ := complete_of_ne_apply he built
    rw [hcomplete]
    exact .of_eq rfl rfl rfl rfl rfl

/-- What the oldest callback has observers see. -/
theorem Orderly.attended_next (hs : Orderly s.setups) :
    Attended (due s.setups) s.setups (Move.next.events s) (Move.next.apply s).setups := by
  change Attended _ _ (Move.next.events s) (runNext s.setups).2
  cases hw : s.setups.queue.waiting with
  | nil =>
    rw [runNext_of_nil hw, Move.events, hw]
    exact (Hushed.refl _).attended hs
  | cons k rest =>
    let c : Setups R := { s.setups with queue := { s.setups.queue with waiting := rest } }
    rw [runNext_of_cons hw, Move.events, hw]
    change Attended _ _ _ (run k c).2
    cases k with
    | notify o p =>
      have hposts : posts s.setups = (o, p) :: posts c := by
        rw [posts, hw]
        rfl
      have hc : Orderly c := ⟨hs.isOpen, hs.free, fun r hr =>
        hs.bound r (hposts ▸ List.mem_cons_of_mem _ hr), hs.noted⟩
      have hcall := hc.attended_calls (hs.bound (o, p) (hposts ▸ List.mem_cons_self)) [o]
      have hdue : due s.setups = (o, p) :: due c := congrArg (· ++ c.observers.map (·, 0)) hposts
      rw [hdue]
      rw [List.flatMap_singleton] at hcall
      exact hcall.of_told rfl
    | completion e built =>
      obtain ⟨telemetry, hrun, -⟩ := run_completion e built c
      rw [hrun]
      have hposts : posts s.setups = posts c := by
        rw [posts, hw]
        rfl
      have hc : Orderly { c with telemetry } := ⟨hs.isOpen, hs.free, fun r hr =>
        hs.bound r (hposts ▸ hr), hs.noted⟩
      have hdue : due s.setups = due { c with telemetry } :=
        congrArg (· ++ c.observers.map (·, 0)) hposts
      rw [hdue]
      cases built with
      | error x =>
        have hquiet : Hushed { c with telemetry } (complete e (.error x) { c with telemetry }).2 :=
          hushed_complete (by simp)
        exact (hquiet.attended hc).of_told rfl
      | ok model =>
        dsimp only
        split
        · rename_i he
          subst he
          exact (hc.attended_complete model).of_told rfl
        · rename_i he
          have hquiet : Hushed { c with telemetry }
              (complete e (.ok model) { c with telemetry }).2 := hushed_complete fun _ _ => he
          exact (hquiet.attended hc).of_told rfl

/-- What a move has observers see. -/
theorem Orderly.attended (hs : Orderly s.setups) (hm : m ≠ .close) :
    Attended (due s.setups) s.setups (m.events s) (m.apply s).setups := by
  cases m with
  | start => exact Hushed.attended (.of_eq rfl rfl rfl rfl rfl) hs
  | finish e built =>
    by_cases h : e ∈ s.working
    · obtain ⟨telemetry, hscene, -⟩ := finish_apply h built
      rw [hscene]
      rw [Queue.post, if_pos hs.isOpen]
      exact Hushed.attended (.of_eq rfl rfl rfl (by simp [posts, Callback.due?]) rfl) hs
    · rw [finish_apply_of_not_mem h]
      exact (Hushed.refl _).attended hs
  | sync built =>
    cases built with
    | ok model => exact hs.attended_sync model
    | error x =>
      obtain ⟨telemetry, hsync, -⟩ := runSync_error_apply x s.setups
      change Attended _ _ _ (runSync (.error x) s.setups).2
      rw [hsync]
      exact Hushed.attended (.of_eq rfl rfl rfl rfl rfl) hs
  | detach => exact Hushed.attended (.of_eq rfl rfl rfl rfl rfl) hs
  | register o => exact hs.attended_register o
  | registerFailed label => exact Hushed.attended (.of_eq rfl rfl rfl rfl rfl) hs
  | takeRequest => exact Hushed.attended (.of_eq rfl rfl rfl rfl rfl) hs
  | next => exact hs.attended_next
  | close => exact absurd rfl hm

/-! ## Whole runs -/

/-- In a run whose queue stays open the observers are served in turn, and the notices tell of all
calls. -/
theorem attended_play (t : Telemetry) (ms : List (Move R)) (hopen : .close ∉ ms) :
    Attended [] ({ telemetry := t } : Setups R) (history t ms) (play t ms).setups := by
  induction ms using List.reverseRecOn with
  | nil => exact ⟨⟨rfl, fun h => absurd rfl h, by simp [posts, play], by simp [play]⟩, .nil _, rfl⟩
  | append_singleton ms m ih =>
    have hbefore := ih fun h => hopen (List.mem_append_left _ h)
    have hmove := hbefore.orderly.attended (m := m) (by rintro rfl; simp at hopen)
    rw [play_snoc, history_snoc]
    refine ⟨hmove.orderly, hbefore.served.append hmove.served, ?_⟩
    rw [hmove.told, hbefore.told, calls_append, List.map_append, List.append_assoc]

/-- In a run whose queue stays open the notices tell of the calls and of no others, and observers
are called in the order in which they register, each once at the most. A call is made while a
model is active, and neither a registration nor a posted call that finds no model makes one. When
a model is active and no callback waits, every observer has been called exactly once. -/
theorem observers_are_called_once_in_turn (t : Telemetry) (ms : List (Move R))
    (hopen : .close ∉ ms) :
    told (play t ms).setups = (calls (history t ms)).map (fun r => (r.1.label, r.2)) ∧
    (calls (history t ms)).map Prod.fst <+: (registrations (history t ms)).map Prod.fst ∧
    (∀ before o p n after, history t ms = before ++ .called o p n :: after →
      0 < n ∧ ∃ k, (registrations before)[(calls before).length]? = some (o, k)) ∧
    (∀ o (c : Setups R), told (onComplete o c).2 = told c) ∧
    (∀ o p (c : Setups R), c.active? = none → told (notify o p c).2 = told c) ∧
    ((play t ms).setups.active?.isSome = true → (play t ms).setups.queue.waiting = [] →
      (calls (history t ms)).map Prod.fst = (registrations (history t ms)).map Prod.fst) := by
  have hall := attended_play t ms hopen
  have hbalance : (registrations (history t ms)).map Prod.fst =
      (calls (history t ms)).map Prod.fst ++ (due (play t ms).setups).map Prod.fst := by
    simpa [Function.comp_def] using congrArg (List.map Prod.fst) hall.served.balance
  refine ⟨hall.told, ⟨_, hbalance.symm⟩, fun before o p n after hsplit => ?_, told_onComplete,
    fun o p c hnone => ?_, fun hactive hidle => ?_⟩
  · obtain ⟨k, hk, -, hp⟩ := (hsplit ▸ hall.served).call_is_due
    exact ⟨Nat.zero_lt_of_lt hp, k, hk⟩
  · have hempty : c.published[p]? = none := by simp_all [active?]
    rw [notify_apply, hempty]
  · rw [active?_isSome_iff] at hactive
    rw [hbalance, due, hall.orderly.free hactive, posts, hidle]
    simp

/-- A model of one region that is ten wide. -/
def tenWide (name : String) : Except LayoutError (Model Rat) :=
  Model.build (some [name ++ ".width == 10"]) 1 100

/-- Two observers wait for a worker. The first of them registers two more when it is called, and
one comes after that. -/
def wedding : List (Move Rat) :=
  [.register (.mk "hostess" [.plain "first", .plain "second"]), .register (.plain "guest"),
    .start, .finish 1 (tenWide "a"), .next, .register (.plain "late"), .next, .next, .next]

theorem everyone_is_called_at_the_wedding :
    (told (play {} wedding).setups).map Prod.fst =
      ["hostess", "guest", "first", "second", "late"] ∧
    (calls (history {} wedding)).map Prod.fst =
      (registrations (history {} wedding)).map Prod.fst := by
  refine ⟨by decide +kernel, ?_⟩
  obtain ⟨-, -, -, -, -, hall⟩ := observers_are_called_once_in_turn {} wedding (by simp [wedding])
  exact hall (by decide +kernel) (List.isEmpty_iff.1 (by decide +kernel))

/-- An observer is called with a published model, the one that was active when it registered or
else the first of all. That is still the active model just when none was published from then on,
the first of all apart. -/
theorem called_with_active_model_iff (t : Telemetry) (ms : List (Move R)) (hopen : .close ∉ ms)
    {before after : List Event} (hcall : history t ms = before ++ .called o p n :: after) :
    ∃ k, (registrations before)[(calls before).length]? = some (o, k) ∧ p = k - 1 ∧ p < n ∧
      (∃ model, .completed o.label p model ∈ (play t ms).setups.notices ∧
        (play t ms).setups.published[p]? = some model) ∧
      (p + 1 = n ↔ n = max 1 k) := by
  have hall := attended_play t ms hopen
  obtain ⟨k, hk, hp, hn⟩ := (hcall ▸ hall.served).call_is_due
  have htold : (o.label, p) ∈ told (play t ms).setups := by
    rw [hall.told, hcall]
    simp
  obtain ⟨x, hx, hcalled⟩ := List.mem_filterMap.1 htold
  cases x with
  | failed => cases hcalled
  | completed label p' model =>
    cases hcalled
    exact ⟨k, hk, hp, hn, ⟨model, hx, hall.orderly.noted _ _ _ hx⟩, by omega⟩

/-- An observer waits, and two models are published before its call comes. -/
def overtaken : List (Move Rat) :=
  [.register (.plain "A"), .sync (tenWide "a"), .sync (tenWide "b"), .next]

theorem tenWide_builds (name : String)
    (h : ((tenWide name).toOption.map Model.names) = some [name]) :
    ∃ m, tenWide name = .ok m ∧ m.names = [name] := by
  cases hm : tenWide name with
  | error e =>
    rw [hm] at h
    cases h
  | ok m =>
    rw [hm] at h
    exact ⟨m, rfl, Option.some.inj h⟩

/-- By the time of the call there are two models, and it is made with the first one. -/
theorem overtaken_call_is_due_the_first_model :
    history {} overtaken = [.registered (.plain "A") 0, .called (.plain "A") 0 2] ∧
      ∃ model, .completed "A" 0 model ∈ (play {} overtaken).setups.notices ∧
        (play {} overtaken).setups.published[0]? = some model := by
  obtain ⟨m₁, h₁, -⟩ := tenWide_builds "a" (by decide +kernel)
  obtain ⟨m₂, h₂, -⟩ := tenWide_builds "b" (by decide +kernel)
  have hcall : history {} overtaken =
      [.registered (.plain "A") 0] ++ .called (.plain "A") 0 2 :: [] := by
    rw [overtaken, h₁, h₂]
    rfl
  obtain ⟨k, -, -, -, hmodel, -⟩ := called_with_active_model_iff {} overtaken
    (by simp [overtaken]) hcall
  exact ⟨hcall, hmodel⟩

/-- The observer gets the model that the second one has replaced by then. -/
theorem observer_called_with_replaced_model : ∃ m₁ m₂ : Model Rat,
    tenWide "a" = .ok m₁ ∧ tenWide "b" = .ok m₂ ∧ m₁.names = ["a"] ∧ m₂.names = ["b"] ∧
    (play {} overtaken.dropLast).setups.notices = [] ∧
    (play {} overtaken).setups.notices = [.completed "A" 0 m₁] ∧
    (play {} overtaken.dropLast).setups.active? = some m₂ ∧
    (play {} overtaken).setups.active? = some m₂ := by
  obtain ⟨m₁, h₁, ha⟩ := tenWide_builds "a" (by decide +kernel)
  obtain ⟨m₂, h₂, hb⟩ := tenWide_builds "b" (by decide +kernel)
  refine ⟨m₁, m₂, h₁, h₂, ha, hb, ?_⟩
  rw [overtaken, h₁, h₂]
  exact ⟨rfl, rfl, rfl, rfl⟩

end RegionLayout.Setups
