-- What the solver of a model holds after any course of calls. For each attribute it is what comes
-- with the attribute and what the attribute was told last, and nothing is left of what it was told
-- before; beyond that it is one constraint for each relation that was accepted.
import RegionLayout.Proofs.Model.Bindings

namespace RegionLayout

open Solver

namespace Model

variable {R : Type} [Scalar R] {m m' : Model R} {held : Ground → Option (Constraint R)}
  {told : Tellings R} {v : Variable}

/-! ## New models -/

section Opening

variable {density : R} {limit : Nat} {ids : Fin 4 → ConstraintId}

/-- What a model holds for its container. -/
def opened (ids : Fin 4 → ConstraintId) : Ground → Option (Constraint R) :=
  Function.update (Function.update (Function.update (Function.update (fun _ => none)
    (.duty .size ⟨2⟩) (some (sizing (ids 0) ⟨2⟩))) (.duty .size ⟨3⟩) (some (sizing (ids 1) ⟨3⟩)))
    (.duty .pin ⟨0⟩) (some (pinning (ids 2) ⟨0⟩))) (.duty .pin ⟨1⟩) (some (pinning (ids 3) ⟨1⟩))

theorem opened_size (axis : Axis) :
    ∃ c : Constraint R, opened ids (.duty .size ⟨axis.size.rank⟩) = some c := by
  cases axis <;> exact ⟨_, rfl⟩

theorem opened_pin (axis : Axis) :
    ∃ c : Constraint R, opened ids (.duty .pin ⟨axis.origin.rank⟩) = some c := by
  cases axis <;> exact ⟨_, rfl⟩

theorem opened_cases {g : Ground} {c : Constraint R} (h : opened ids g = some c) :
    ∃ axis : Axis, g = .duty .size ⟨axis.size.rank⟩ ∧ c = sizing c.id ⟨axis.size.rank⟩ ∨
      g = .duty .pin ⟨axis.origin.rank⟩ ∧ c = pinning c.id ⟨axis.origin.rank⟩ := by
  simp only [opened, Function.update_apply] at h
  split at h
  · obtain rfl := Option.some.inj h
    exact ⟨.vertical, .inr ⟨‹_›, rfl⟩⟩
  split at h
  · obtain rfl := Option.some.inj h
    exact ⟨.horizontal, .inr ⟨‹_›, rfl⟩⟩
  split at h
  · obtain rfl := Option.some.inj h
    exact ⟨.vertical, .inl ⟨‹_›, rfl⟩⟩
  split at h
  · obtain rfl := Option.some.inj h
    exact ⟨.horizontal, .inl ⟨‹_›, rfl⟩⟩
  · cases h

theorem slot?_of_bare_blank (hm : m.bare = (blank density limit).bare) (ref : AttributeRef) :
    m.slot? ref = if ref.region = containerName ∧ ref.attr.isPrimary = true
      then some ⟨ref.attr.rank⟩ else none := by
  have hblank : m.slot? ref = (blank density limit).slot? ref := by
    rw [eq_of_bare hm]
    rfl
  rw [hblank, slot?_blank]

/-- A new model has a ground for each size of its container and for each edge. -/
theorem due_opened (hm : m.bare = (blank density limit).bare) (g : Ground) :
    (∃ c : Constraint R, opened ids g = some c) ↔ m.Due [] g := by
  have hslot := slot?_of_bare_blank hm
  have hprimary {a : Attribute} (ha : a.isPrimary = true) :
      m.slot? ⟨containerName, a⟩ = some ⟨a.rank⟩ := (hslot _).trans (if_pos ⟨rfl, ha⟩)
  constructor
  · rintro ⟨c, hc⟩
    obtain ⟨axis, ⟨rfl, -⟩ | ⟨rfl, -⟩⟩ := opened_cases hc
    · exact ⟨_, hprimary axis.size_isPrimary, axis, rfl⟩
    · exact ⟨_, hprimary axis.origin_isPrimary, rfl, axis, rfl⟩
  · intro hd
    cases g with
    | relation i =>
      have hrel : m.relations = [] := by
        rw [eq_of_bare hm]
        rfl
      simp [Due, hrel] at hd
    | duty d v =>
      obtain ⟨⟨name, a⟩, hv, howed⟩ := hd
      rw [hslot] at hv
      split at hv
      · rename_i hp
        obtain rfl := Option.some.inj hv
        cases d with
        | size =>
          obtain ⟨axis, rfl⟩ := howed
          exact opened_size axis
        | pin =>
          obtain ⟨-, axis, rfl⟩ := howed
          exact opened_pin axis
        | center =>
          obtain ⟨axis, rfl⟩ := howed
          exact absurd hp.2 (by simp [axis.center_not_primary])
        | pull =>
          have hi := (drawn_of_untold (by simp)).1 howed
          rw [Attribute.not_intrinsic_of_primary hp.2] at hi
          cases hi
        | hold => simp [Duty.Owed, latest] at howed
      · cases hv

theorem grounded_opened (hfiled : Filed (opened ids) m.solver)
    (hm : m.bare = (blank density limit).bare) : Grounded [] (opened ids) m := by
  have hbindings : m.bindings = ∅ := by
    rw [eq_of_bare hm]
    rfl
  refine ⟨hfiled, due_opened hm, fun {g c} hg => ?_, fun {ref v} _ => ?_,
    fun _ => by rw [hbindings]; rfl, by simp⟩
  · obtain ⟨axis, ⟨rfl, hc⟩ | ⟨rfl, hc⟩⟩ := opened_cases hg <;> exact hc
  · rw [hbindings]
    exact .free

theorem serves_opening (density : R) (limit : Nat) :
    Serves (fun _ m' => ∃ held, Grounded [] held m')
      (opening density limit (blank density limit)) := by
  have hnone : Filed (fun _ => none) (blank density limit).solver :=
    ⟨⟨by simp [blank, Solver.empty], by simp⟩, by simp [blank, Solver.empty]⟩
  have hpin {m₁ : Model R} {held} (h₁ : Filed held m₁.solver) (a : Attribute) (v : Variable)
      (hv : variableOf (blank density limit).container a = .ok v)
      (hno : held (.duty .pin v) = none) :
      Serves (fun _ m₂ => ∃ id, Holding m₁ (Function.update held (.duty .pin v)
        (some (pinning id v))) m₂)
        ((ask (fun _ => variableOf (blank density limit).container a) >>= fun v =>
          require (.ofVariable v) .equal (.ofConstant 0)) m₁) := by
    rw [ask_bind hv, Model.require, freshConstraint_bind]
    exact (h₁.file hno (by simp) _ _).imp fun _ _ h₂ => ⟨_, h₂⟩
  refine (hnone.installSizes (u := ⟨2⟩) (v := ⟨3⟩) rfl rfl (by simp) rfl rfl).bind
    fun _ m₁ h₁ => ?_
  obtain ⟨id₀, id₁, h₁⟩ := h₁
  rw [forM_pair]
  refine Comes.bind (Q := fun _ m₂ => ∃ ids, Holding (blank density limit) (opened ids) m₂) ?_
    fun _ m₂ h₂ => ?_
  · refine (hpin h₁.filed .left ⟨0⟩ rfl rfl).bind fun _ m₂ h₂ => ?_
    obtain ⟨id₂, h₂⟩ := h₂
    refine (hpin h₂.filed .top ⟨1⟩ rfl rfl).bind fun _ m₃ h₃ => ?_
    obtain ⟨id₃, h₃⟩ := h₃
    exact .ok ⟨![id₀, id₁, id₂, id₃], (h₁.trans h₂).trans h₃⟩
  · obtain ⟨ids, h₂⟩ := h₂
    exact .ok ⟨opened ids, (grounded_opened h₂.filed h₂.bare).solve⟩

end Opening

/-! ## Courses -/

variable {log : List (Command R)} {may : Command R → Except LayoutError Unit → Prop}

/-- What a call tells an attribute. -/
def Command.telling? : Command R → Option (AttributeRef × Option (Wish R))
  | .bind ref wish => some (ref, wish)
  | _ => none

def tellings (log : List (Command R)) : Tellings R := log.filterMap Command.telling?

omit [Scalar R] in
theorem tellings_append {c : Command R} : tellings (log ++ [c]) =
    tellings log ++ c.telling?.toList := by
  rw [tellings, List.filterMap_append]
  cases hc : c.telling? <;> simp [tellings, hc]

omit [Scalar R] in
theorem tellings_append_of_none {c : Command R} (h : c.telling? = none) :
    tellings (log ++ [c]) = tellings log := by
  rw [tellings_append, h, Option.toList_none, List.append_nil]

theorem Grounded.perform (h : Grounded (tellings log) held m) (hc : m.Charted) (c : Command R) :
    Upholds (tellings log) (tellings (log ++ [c])) (c.perform m) := by
  cases c with
  | add texts =>
    rw [tellings_append_of_none rfl]
    exact h.addBatch hc texts
  | bind ref wish =>
    rw [tellings_append]
    cases wish with
    | none => exact h.release hc _ _
    | some wish =>
      cases wish with
      | exactly value => exact h.setTo hc _ _ value
      | atMost value => exact h.setAtMost hc _ _ value
  | measure name axis measured =>
    rw [tellings_append_of_none rfl]
    exact (h.setIntrinsic hc name axis measured).bind fun _ m' h' => .ok h'
  | solve =>
    rw [tellings_append_of_none rfl]
    exact .ok ⟨held, h.solve⟩

/-- The grounds are kept by all calls that the solver does not fail. -/
theorem Course.grounded (hmay : ∀ c fault, ¬ may c (.error (.solver fault)))
    (h : Course may log m) : ∃ held, Grounded (tellings log) held m := by
  induction h with
  | @new density limit _ hnew =>
    have hc := serves_opening density limit
    rw [opening_of_new hnew] at hc
    exact hc.of_ok
  | @build texts density limit _ hbuild =>
    obtain ⟨m₀, hnew, hbatch⟩ := batch_of_build hbuild
    have hc := serves_opening density limit
    rw [opening_of_new hnew] at hc
    obtain ⟨held, h₀⟩ := hc.of_ok
    have hadd := h₀.addBatch (charted_new hnew) texts
    rw [hbatch] at hadd
    exact hadd.of_ok
  | done h c _ hok ih =>
    obtain ⟨held, h'⟩ := ih
    have hdone := h'.perform h.charted c
    rw [hok] at hdone
    exact hdone.of_ok
  | failed h c hm herr ih =>
    -- a call that failed tells nothing, so the log is what it was
    obtain ⟨held, h'⟩ := ih
    have hfailed := h'.perform h.charted c
    rw [herr] at hfailed
    cases hfailed with
    | error hE => exact hE fun fault he => hmay c fault (he ▸ hm)
    | spent hx => exact hx.elim

/-! ## What is held -/

/-- The account of what the solver has: each ground that there is has one constraint, and it has no
other. -/
structure Accounted (told : Tellings R) (m : Model R) (file : Ground → ConstraintId) : Prop where
  once : Set.BijOn file {g | m.Due told g} {id | m.solver.has id = true}
  reads : ∀ {g}, m.Due told g → ∃ tag c,
    m.solver.constraints.get? (file g) = some (tag, c) ∧ c.id = file g ∧ m.Reads c g
  edits : ∀ {v}, m.solver.hasEdit v = true ↔ m.Due told (.duty .pull v)
  pulls : ∀ {v e}, m.solver.edits.get? v = some e → e.constraint.id = file (.duty .pull v)
  targets : ∀ {ref v x}, m.slot? ref = some v → ref.attr.isIntrinsic = false →
    latest told ref = some (.exactly x) → ∃ e, m.solver.edits.get? v = some e ∧ e.target = x
  bounds : ∀ {ref v x}, m.slot? ref = some v → latest told ref = some (.atMost x) →
    ∃ tag y, m.solver.constraints.get? (file (.duty .hold v)) =
      some (tag, holding (file (.duty .hold v)) v y) ∧ (y = x ∨ (y == x) = true)

/-- The name of what is held on a ground. -/
def fileOf (held : Ground → Option (Constraint R)) (g : Ground) : ConstraintId :=
  (held g).elim (.declared 0) Constraint.id

omit [Scalar R] in
theorem fileOf_of_held {g : Ground} {c : Constraint R} (h : held g = some c) :
    fileOf held g = c.id := by
  rw [fileOf, h, Option.elim_some]

theorem Grounded.kept_of_due (h : Grounded told held m) {g : Ground} (hg : m.Due told g) :
    ∃ c tag, held g = some c ∧ m.solver.constraints.get? c.id = some (tag, c) := by
  obtain ⟨c, hc⟩ := (h.due g).2 hg
  obtain ⟨tag, hget⟩ := h.filed.kept.2 ⟨g, hc, rfl⟩
  exact ⟨c, tag, hc, hget⟩

theorem Grounded.once (h : Grounded told held m) :
    Set.BijOn (fileOf held) {g | m.Due told g} {id | m.solver.has id = true} := by
  refine ⟨fun g hg => ?_, fun g hg g' hg' heq => ?_, fun id hid => ?_⟩
  · obtain ⟨c, tag, hc, hget⟩ := h.kept_of_due hg
    rw [fileOf_of_held hc]
    exact (SortedMap.contains_eq_true_iff _).2 ⟨_, hget⟩
  · obtain ⟨c, -, hc, -⟩ := h.kept_of_due hg
    obtain ⟨c', -, hc', -⟩ := h.kept_of_due hg'
    rw [fileOf_of_held hc, fileOf_of_held hc'] at heq
    exact h.filed.own hc hc' heq
  · obtain ⟨⟨tag, c⟩, hget⟩ := (SortedMap.contains_eq_true_iff _).1 hid
    obtain ⟨g, hg, rfl⟩ := h.filed.kept.1 ⟨tag, hget⟩
    exact ⟨g, (h.due g).1 ⟨c, hg⟩, fileOf_of_held hg⟩

/-- A variable has an edit just when its attribute is to be pulled. -/
theorem Grounded.hasEdit_iff (h : Grounded told held m) :
    m.solver.hasEdit v = true ↔ m.Due told (.duty .pull v) := by
  rw [← h.due]
  refine (SortedMap.contains_eq_true_iff _).trans ⟨?_, ?_⟩
  · rintro ⟨e, he⟩
    exact ⟨_, h.filed.pulls.2 ⟨e, he, rfl⟩⟩
  · rintro ⟨c, hc⟩
    obtain ⟨e, he, -⟩ := h.filed.pulls.1 hc
    exact ⟨e, he⟩

theorem Grounded.accounted (h : Grounded told held m) : m.Accounted told (fileOf held) := by
  refine ⟨h.once, fun {g} hg => ?_, h.hasEdit_iff, fun {v e} he => ?_,
    fun {ref v x} hv hi hx => ?_, fun {ref v x} hv hx => ?_⟩
  · obtain ⟨c, tag, hc, hget⟩ := h.kept_of_due hg
    rw [fileOf_of_held hc]
    exact ⟨tag, c, hget, rfl, h.reads hc⟩
  · rw [fileOf_of_held (h.filed.pulls.2 ⟨e, he, rfl⟩)]
  · have hbound := h.bound hv
    rw [hx] at hbound
    generalize m.bindings.get? v = b at hbound
    cases hbound with
    | exact he => exact he hi
  · have hbound := h.bound hv
    rw [hx] at hbound
    generalize m.bindings.get? v = b at hbound
    cases hbound with
    | @atMost _ y id hh hy =>
      obtain ⟨tag, hget⟩ := h.filed.kept.2 ⟨_, hh, rfl⟩
      rw [fileOf_of_held hh]
      exact ⟨tag, y, hget, hy⟩

/-- A call that the solver did not fail, and that does not tie a size the host measures. -/
def Peaceful (c : Command R) (answer : Except LayoutError Unit) : Prop :=
  (∀ fault, answer ≠ .error (.solver fault)) ∧
    ∀ ref wish, c = .bind ref wish → ref.attr.isIntrinsic = false

theorem Course.drawn_iff (h : Course Peaceful log m) (ref : AttributeRef) :
    Drawn (tellings log) ref ↔
      ref.attr.isIntrinsic = true ∨ ∃ x, latest (tellings log) ref = some (.exactly x) := by
  have huntold (hi : ref.attr.isIntrinsic = true) (wish) : (ref, wish) ∉ tellings log := by
    intro hmem
    obtain ⟨c, hc, htold⟩ := List.mem_filterMap.1 hmem
    cases c with
    | bind ref' wish' =>
      obtain ⟨rfl, rfl⟩ := Prod.mk.inj (Option.some.inj htold)
      rw [(h.may_of_mem hc).2 _ _ rfl] at hi
      cases hi
    | _ => cases htold
  rw [Drawn, or_comm]
  exact or_congr_left (and_iff_left_of_imp fun hi x => huntold hi _)

/-- In a model that no call was failed by the solver, there is one constraint for each size, each
centre, each edge of the container and each accepted relation, one edit for each size that the host
measures, and for each other attribute an edit that pulls it to what it was told last, a constraint
that holds it down to that, or nothing if it was released last or never told anything. -/
theorem solver_holds_what_is_due (h : Course Peaceful log m) :
    (∃ file, m.Accounted (tellings log) file) ∧
      (∀ ref, Drawn (tellings log) ref ↔
        ref.attr.isIntrinsic = true ∨ ∃ x, latest (tellings log) ref = some (.exactly x)) ∧
      (∀ ref ref' v, m.slot? ref = some v → m.slot? ref' = some v → ref = ref') ∧
      ∀ name g, m.geometry name = .ok g →
        ∀ a, a.isPrimary = true → ∃ v, m.slot? ⟨name, a⟩ = some v := by
  obtain ⟨held, hg⟩ := h.grounded fun c fault hp => hp.1 fault rfl
  refine ⟨⟨_, hg.accounted⟩, h.drawn_iff, fun _ _ _ => h.charted.own, fun name g hok a ha => ?_⟩
  obtain ⟨r, hr⟩ := geometry_isOk_iff.1 ⟨g, hok⟩
  exact h.charted.primary hr ha

/-- A height that was pulled to five first and is held down to seven then is not pulled any more. -/
theorem bound_takes_the_place_of_edit : ∃ log, ∃ m : Model Rat, ∃ v, Course Peaceful log m ∧
    m.slot? ⟨"a", .height⟩ = some v ∧ m.solver.hasEdit v = false ∧
      ∃ id tag, m.solver.constraints.get? id = some (tag, holding id v 7) := by
  have h₁ := (course_opening Peaceful).done (.add (some ["a.height >= 1"]))
    ⟨by simp, by simp⟩ (eq_of_answer (x := .ok ()) (by decide +kernel))
  have h₂ := h₁.done (.bind ⟨"a", .height⟩ (some (.exactly 5))) ⟨by simp, by simp; rfl⟩
    (eq_of_answer (x := .ok ()) (by decide +kernel))
  have h₃ := h₂.done (.bind ⟨"a", .height⟩ (some (.atMost 7))) ⟨by simp, by simp; rfl⟩
    (eq_of_answer (x := .ok ()) (by decide +kernel))
  obtain ⟨m, hm, hv⟩ : ∃ m, Course Peaceful _ m ∧ m.slot? ⟨"a", .height⟩ = some ⟨7⟩ :=
    ⟨_, h₃, by decide +kernel⟩
  obtain ⟨⟨file, hfile⟩, hdrawn, -, -⟩ := solver_holds_what_is_due hm
  have hlast : latest (tellings ([] ++ [.add (some ["a.height >= 1"])] ++
      [.bind ⟨"a", .height⟩ (some (.exactly 5))] ++ [.bind ⟨"a", .height⟩ (some (.atMost 7))]))
      ⟨"a", .height⟩ = some (Wish.atMost (7 : Rat)) := by
    rw [tellings_append, Command.telling?, Option.toList_some, latest_append, if_pos rfl]
  refine ⟨_, m, ⟨7⟩, hm, hv, Bool.eq_false_iff.2 fun he => ?_, ?_⟩
  · rcases (hdrawn _).1 ((hm.charted.due_iff hv).1 (hfile.edits.1 he)) with hi | ⟨x, hx⟩
    · cases hi
    · rw [hlast] at hx
      cases hx
  · obtain ⟨tag, y, hget, rfl | hy⟩ := hfile.bounds hv hlast
    · exact ⟨_, tag, hget⟩
    · obtain rfl := eq_of_beq hy
      exact ⟨_, tag, hget⟩

end Model

end RegionLayout
