-- Models that calls reach, whatever the calls answer. Each is settled, so a solve finds values
-- that are as all of its required relations say, and a batch ends just where it has to.
import RegionLayout.Proofs.Model.Batches
import RegionLayout.Proofs.Model.Courses

namespace RegionLayout

open Solver

namespace Model

variable {m m' m₁ : Model Rat} {P : (Variable → Rat) → Prop} {v : Variable} {name : String}
  {a : Attribute} {k : Nat} {density value : Rat}

/-! ## Calls -/

/-- A call of a model. -/
inductive Request where
  | addConstraints (texts : Option (List String))
  | setTo (name : String) (a : Attribute) (value : Rat)
  | setAtMost (name : String) (a : Attribute) (value : Rat)
  | release (name : String) (a : Attribute)
  | setIntrinsic (name : String) (axis : Axis) (measured : Int)
  | solve

def Request.perform : Request → Change Rat Unit
  | .addConstraints texts => Model.addConstraints texts
  | .setTo name a value => Model.setTo name a value
  | .setAtMost name a value => Model.setAtMost name a value
  | .release name a => Model.release name a
  | .setIntrinsic name axis measured => do
    let _ ← Model.setIntrinsic name axis measured
  | .solve => modify Model.solve

/-- The models that a new one or one built from a source becomes by calls. The calls may fail,
but none of them was cut short by the limit of turns. -/
inductive Reachable : Model Rat → Prop
  | new {density : Rat} {limit : Nat} {m : Model Rat} (h : Model.new density limit = .ok m) :
      Reachable m
  | build {texts : Option (List String)} {density : Rat} {limit : Nat} {m : Model Rat}
      (h : Model.build texts density limit = .ok m) : Reachable m
  | call {m : Model Rat} (h : Reachable m) (request : Request)
      (hr : (request.perform m).1 ≠ .error (.solver .pivotLimit)) :
      Reachable (request.perform m).2

/-! ## Bindings -/

theorem Mapped.before_lookup (h : m.Mapped) (hv : m.lookup name a = .ok v) :
    v.id < m.nextVariable := h.before (lookup_eq_ok_iff.1 hv)

/-- A settled model that has given the variable out. -/
structure Seats (v : Variable) (m : Model Rat) : Prop extends m.Settled where
  seated : v.id < m.nextVariable

theorem Seats.after (h : Seats v m) (hk : m'.Kept m.Obeys) (hw : Worked k m m') :
    Seats v m' := ⟨hw.settled h.toMapped hk, by rw [hw.frame]; exact h.seated⟩

theorem Seats.unbound (h : Seats v m) : Seats v { m with bindings := m.bindings.erase v } := by
  refine ⟨⟨⟨h.names, h.primary, h.before, h.own, h.resolved⟩, ?_⟩, h.seated⟩
  refine h.kept.of_eq rfl le_rfl le_rfl fun hb => ?_
  rw [SortedMap.get?_erase] at hb
  split at hb
  · simp at hb
  · exact hb

theorem Seats.bound_exact (h : Seats v m) :
    Seats v { m with bindings := m.bindings.insert v .exact } := by
  refine ⟨⟨⟨h.names, h.primary, h.before, h.own, h.resolved⟩, ?_⟩, h.seated⟩
  refine h.kept.of_eq rfl le_rfl le_rfl fun hb => ?_
  rw [SortedMap.get?_insert] at hb
  split at hb
  · simp at hb
  · exact hb

theorem Seats.bound_atMost (h : Seats v m) {id : ConstraintId} (hid : m.Loose id) :
    Seats v { m with bindings := m.bindings.insert v (.atMost id value) } := by
  refine ⟨⟨⟨h.names, h.primary, h.before, h.own, h.resolved⟩, ?_⟩, h.seated⟩
  refine { h.kept with held := fun {u id' a'} hb => ?_ }
  rw [SortedMap.get?_insert] at hb
  split at hb
  · obtain ⟨rfl, -⟩ := Binding.atMost.inj (Option.some.inj hb)
    exact hid
  · exact h.kept.held hb

theorem Settled.suggest (h : m.Settled) (v : Variable) (value : Rat) :
    Comes True (fun _ m' => m'.Settled) (fun _ m' => m'.Settled)
      (onSolver .solver (·.suggest v value) m) :=
  (h.kept.suggest v value).mono (fun _ => trivial)
    (fun _ _ he => he.2.1.settled h.toMapped he.1) fun _ _ hq => hq.2.settled h.toMapped hq.1

theorem Seats.remove (h : Seats v m) {id : ConstraintId} (hid : m.Loose id) :
    Comes True (fun _ m' => m'.Settled) (fun _ m' => Seats v m')
      (onSolver .solver (·.remove id) m) :=
  (h.kept.remove hid).mono (fun hx => hx) (fun _ _ he => (h.after he.1 he.2).toSettled)
    fun _ _ hq => h.after hq.1 hq.2

theorem Seats.removeEdit (h : Seats v m) :
    Comes True (fun _ m' => m'.Settled) (fun _ m' => Seats v m')
      (onSolver .solver (·.removeEdit v) m) :=
  (h.kept.removeEdit v).mono id (fun _ _ he => (h.after he.1 he.2).toSettled)
    fun _ _ hq => h.after hq.1 hq.2

theorem Seats.addEdit (h : Seats v m) :
    Comes True (fun _ m' => m'.Settled) (fun _ m' => Seats v m')
      (onSolver .solver (·.addEdit v Weight.strong) m) :=
  (h.kept.addEdit h.seated).mono (fun _ => trivial)
    (fun _ _ he => (h.after he.1 he.2.1).toSettled) fun _ _ hq => h.after hq.1 hq.2.1

theorem Settled.setTo (h : m.Settled) (name : String) (a : Attribute) (value : Rat) :
    Comes True (fun _ m' => m'.Settled) (fun _ m' => m'.Settled) (setTo name a value m) := by
  rw [Model.setTo]
  refine Comes.ask_bind (fun v hv => ?_) fun _ => h
  have hs : Seats v m := ⟨h, h.before_lookup hv⟩
  have hpull : ∀ m₁, Seats v m₁ → Comes True (fun _ m' => m'.Settled) (fun _ m' => m'.Settled)
      ((Model.bind v .exact >>= fun _ => onSolver .solver (·.suggest v value)) m₁) :=
    fun m₁ h₁ => h₁.bound_exact.toSettled.suggest v value
  have hedit : ∀ m₁, Seats v m₁ → Comes True (fun _ m' => m'.Settled) (fun _ m' => m'.Settled)
      ((if (!m₁.solver.hasEdit v) = true then
        onSolver .solver (·.addEdit v Weight.strong) >>= fun _ =>
          Model.bind v .exact >>= fun _ => onSolver .solver (·.suggest v value)
      else Model.bind v .exact >>= fun _ => onSolver .solver (·.suggest v value)) m₁) := by
    intro m₁ h₁
    split
    · exact h₁.addEdit.bind fun _ m₂ h₂ => hpull m₂ h₂
    · exact hpull m₁ h₁
  rw [get_bind]
  cases hb : m.bindings.get? v with
  | none => exact hedit m hs
  | some b =>
    cases b with
    | exact => exact hedit m hs
    | atMost id _ =>
      exact (hs.remove (h.kept.held hb)).bind fun _ m₁ h₁ => hedit _ h₁.unbound

/-- A variable is held down by a new constraint. -/
theorem Seats.hold (h : Seats v m) (value : Rat) :
    Comes True (fun _ m' => m'.Settled) (fun _ m' => m'.Settled)
      ((freshConstraint >>= fun id => onSolver .solver (·.add (.relate id (.ofVariable v) .atMost
        (.ofConstant value) Weight.strong)) >>= fun _ => Model.bind v (.atMost id value)) m) := by
  have hsoft : (Constraint.relate (.declared m.nextConstraint) (Expression.ofVariable v) .atMost
      (.ofConstant value) Weight.strong).isRequired = false :=
    Constraint.isRequired_make_strong _ _ _
  rw [freshConstraint_bind]
  refine Comes.bind ((h.kept.enter (.relate (.declared m.nextConstraint) (.ofVariable v) .atMost
    (.ofConstant value) Weight.strong) .solver rfl rfl (Constraint.make_weight_nonneg _ _ _ _)
      fun u hu => ?_).mono (fun _ => trivial) (fun _ m₁ he => ?_) fun _ _ hq => hq)
    fun _ m₁ h₁ => ?_
  · obtain ⟨_, hu, -⟩ := hu
    obtain ⟨rfl, -⟩ := Prod.mk.inj (List.mem_singleton.1 hu)
    exact h.seated
  · exact (h.after he.2.2.2.1 he.2.2.2.2).toSettled
  · obtain ⟨hk, ⟨tag, hi⟩, hw⟩ := h₁
    have hs := h.after (hk.congr fun x => by rw [hsoft]; simp) hw
    refine .ok (hs.bound_atMost ⟨m.nextConstraint, ?_, rfl, fun p hp => ?_⟩).toSettled
    · exact hs.kept.numbered hi
    · obtain rfl := Option.some.inj (hi.symm.trans hp)
      exact hsoft

theorem Settled.setAtMost (h : m.Settled) (name : String) (a : Attribute) (value : Rat) :
    Comes True (fun _ m' => m'.Settled) (fun _ m' => m'.Settled) (setAtMost name a value m) := by
  rw [Model.setAtMost]
  refine Comes.ask_bind (fun v hv => ?_) fun _ => h
  have hs : Seats v m := ⟨h, h.before_lookup hv⟩
  rw [get_bind]
  cases hb : m.bindings.get? v with
  | none => exact hs.hold value
  | some b =>
    cases b with
    | exact => exact hs.removeEdit.bind fun _ m₁ h₁ => h₁.hold value
    | atMost id current =>
      change Comes _ _ _ ((if (current == value) = true then _ else _ : Change Rat Unit) m)
      split
      · exact .ok h
      · exact (hs.remove (h.kept.held hb)).bind fun _ m₁ h₁ => h₁.hold value

theorem Settled.release (h : m.Settled) (name : String) (a : Attribute) :
    Comes True (fun _ m' => m'.Settled) (fun _ m' => m'.Settled) (release name a m) := by
  rw [Model.release]
  refine Comes.ask_bind (fun v hv => ?_) fun _ => h
  have hs : Seats v m := ⟨h, h.before_lookup hv⟩
  rw [get_bind]
  cases hb : m.bindings.get? v with
  | none => exact .ok hs.unbound.toSettled
  | some b =>
    cases b with
    | exact =>
      exact hs.unbound.removeEdit.imp fun _ _ hq => hq.toSettled
    | atMost id _ =>
      exact (hs.unbound.remove (h.kept.held hb)).imp fun _ _ hq => hq.toSettled

theorem Settled.setIntrinsic (h : m.Settled) (name : String) (axis : Axis) (measured : Int) :
    Comes True (fun _ m' => m'.Settled) (fun _ m' => m'.Settled)
      (setIntrinsic name axis measured m) := by
  rw [Model.setIntrinsic]
  refine Comes.ask_bind (fun v hv => ?_) fun _ => h
  rw [get_bind]
  split
  · exact .ok h
  · exact (h.suggest v _).bind fun _ m₁ h₁ => .ok h₁

/-! ## New models -/

variable {limit : Nat}

theorem varOf?_blank (ref : AttributeRef) : (blank density limit).varOf? ref =
    if ref.region = containerName ∧ ref.attr.isPrimary = true then some ⟨ref.attr.rank⟩
    else none := slot?_blank ref

theorem mapped_blank : (blank density limit).Mapped where
  names := charted_blank.names
  primary := charted_blank.primary
  before := charted_blank.before
  own := charted_blank.own
  resolved hr := by simp [blank] at hr

theorem kept_blank : (blank density limit).Kept fun _ => True where
  sound := ⟨_, sound_empty _ limit, edited_empty limit⟩
  idle := dummiesIdle_empty limit
  asks x := ⟨fun _ => trivial, fun _ n p hi => by simp [blank, Solver.empty] at hi⟩
  named hi := by simp [blank, Solver.empty] at hi
  numbered hi := by simp [blank, Solver.empty] at hi
  pulled hi := by simp [blank, Solver.empty] at hi
  held hb := by simp [blank] at hb

/-- What a model without regions asks of the four variables of its container. -/
theorem obeys_blank (x : Variable → Rat) : (blank density limit).Obeys x ↔
    0 ≤ x ⟨2⟩ ∧ 0 ≤ x ⟨3⟩ ∧ x ⟨0⟩ = 0 ∧ x ⟨1⟩ = 0 := by
  have hr : ∀ a, a.isPrimary = true →
      (blank density limit).reading x ⟨containerName, a⟩ = x ⟨a.rank⟩ := fun a ha =>
    reading_some (by rw [varOf?_blank, if_pos ⟨rfl, ha⟩])
  constructor
  · rintro ⟨hp, -⟩
    have hw := hp.sizes containerName .horizontal
    have hh := hp.sizes containerName .vertical
    have hl := hp.pins .horizontal
    have ht := hp.pins .vertical
    rw [hr _ (Axis.size_isPrimary _)] at hw hh
    rw [hr _ (Axis.origin_isPrimary _)] at hl ht
    exact ⟨hw, hh, hl, ht⟩
  · rintro ⟨hw, hh, hl, ht⟩
    refine ⟨⟨fun name axis => ?_, fun axis => ?_, fun name a axis ha hc => ?_⟩, by
      simp [Satisfies, blank]⟩
    · by_cases hn : name = containerName
      · subst name
        rw [hr _ axis.size_isPrimary]
        cases axis
        · exact hw
        · exact hh
      · rw [reading_none]
        rw [varOf?_blank, if_neg fun h => hn h.1]
    · rw [hr _ axis.origin_isPrimary]
      cases axis
      · exact hl
      · exact ht
    · obtain ⟨v, hv⟩ := hc
      rw [varOf?_blank] at hv
      split at hv
      · rename_i hp
        rw [Attribute.centerAxis?_of_primary hp.2] at ha
        simp at ha
      · simp at hv

/-- Given turns enough a container can be opened, and only the solver has work with that. -/
theorem comes_opening : Comes (limit < turnBound 16) (fun _ _ => False)
    (fun _ m' => ∃ m₀, m' = m₀.solve ∧ m₀.Settled ∧ Worked 16 (blank density limit) m₀)
    (opening density limit (blank density limit)) := by
  have ha : (blank density limit).Affords limit 16 (8 + (4 + (4 + 0))) := ⟨rfl, le_rfl⟩
  have hlt : ∀ i < 4, (⟨i⟩ : Variable).id < (blank density limit).nextVariable := fun i hi => hi
  refine Comes.bind (kept_blank.installSizes (v := ⟨2⟩) (w := ⟨3⟩) ha rfl rfl (hlt 2 (by decide))
    (hlt 3 (by decide)) ⟨fun _ => 0, trivial, le_rfl, le_rfl⟩) fun _ m₁ h₁ => ?_
  obtain ⟨hk₁, hw₁⟩ := h₁
  have ha₁ : m₁.Affords limit 16 (4 + (4 + 0)) := ha.after hw₁
  have hleft : variableOf (blank density limit).container .left = .ok ⟨0⟩ := rfl
  have htop : variableOf (blank density limit).container .top = .ok ⟨1⟩ := rfl
  have hpin₁ := hk₁.require ⟨0⟩ .equal 0 ha₁ (by rw [hw₁.frame]; exact hlt 0 (by decide))
    ⟨fun _ => 0, ⟨trivial, le_rfl, le_rfl⟩, sub_self 0⟩
  rw [forM_pair]
  refine Comes.bind (Q := fun _ m₃ => m₃.Settled ∧ Worked 16 (blank density limit) m₃) ?_
    fun _ m₃ ⟨hs, hw⟩ => .ok ⟨m₃, rfl, hs, hw⟩
  refine Comes.bind (Q := fun _ m₂ => (m₂.Kept fun x => (True ∧ 0 ≤ x ⟨2⟩ ∧ 0 ≤ x ⟨3⟩) ∧
    x ⟨0⟩ - 0 = 0) ∧ Worked 4 m₁ m₂) ?_ fun _ m₂ h₂ => ?_
  · rw [ask_bind hleft]
    exact hpin₁
  · obtain ⟨hk₂, hw₂⟩ := h₂
    have hpin₂ := hk₂.require ⟨1⟩ .equal 0 (ha₁.after hw₂)
      (by rw [hw₂.frame, hw₁.frame]; exact hlt 1 (by decide))
      ⟨fun _ => 0, ⟨⟨trivial, le_rfl, le_rfl⟩, sub_self 0⟩, sub_self 0⟩
    refine Comes.bind (Q := fun _ m₃ => m₃.Settled ∧ Worked 16 (blank density limit) m₃) ?_
      fun _ m₃ h₃ => .ok h₃
    rw [ask_bind htop]
    refine hpin₂.imp fun _ m₃ h₃ => ?_
    have hw₃ := (hw₁.trans hw₂).trans h₃.2
    refine ⟨hw₃.settled mapped_blank (h₃.1.congr fun x => ?_), hw₃⟩
    rw [obeys_blank]
    simp only [true_and, Comparator.Holds, sub_zero, and_assoc]

theorem settled_new (h : Model.new density limit = .ok m) : m.Settled := by
  have hc : Comes _ _ _ (opening density limit (blank density limit)) := comes_opening
  rw [opening_of_new h] at hc
  obtain ⟨m₀, rfl, hs, -⟩ := hc.of_ok
  exact hs.solve

/-! ## Reachable models -/

theorem reachable_opening : Reachable (opening 1 100 (blank 1 100)).2 :=
  .new new_eq_opening

theorem Settled.addBatch (h : m.Settled) (texts : Option (List String)) :
    Comes True (fun _ m' => m'.Settled) (fun _ m' => m'.Settled)
      (Model.addConstraints texts m) := by
  cases texts with
  | none => exact .error h
  | some texts =>
    cases hparse : texts.mapM (Relation.parse · m.density) with
    | error e =>
      rw [addConstraints_of_unread hparse]
      exact .error h
    | ok rs =>
      exact (h.addConstraints hparse ⟨rfl, le_rfl⟩).mono (fun _ => trivial)
        (fun _ _ he => he.1) fun _ _ hq => hq.1

theorem Settled.perform (h : m.Settled) (request : Request) :
    Comes True (fun _ m' => m'.Settled) (fun _ m' => m'.Settled) (request.perform m) := by
  cases request with
  | addConstraints texts => exact h.addBatch texts
  | setTo name a value => exact h.setTo name a value
  | setAtMost name a value => exact h.setAtMost name a value
  | release name a => exact h.release name a
  | setIntrinsic name axis measured =>
    exact (h.setIntrinsic name axis measured).bind fun _ m' h' => .ok h'
  | solve => exact .ok h.solve

theorem Reachable.settled (h : Reachable m) : m.Settled := by
  induction h with
  | new h => exact settled_new h
  | @build texts density limit m h =>
    obtain ⟨m₀, hnew, hbatch⟩ := batch_of_build h
    have hc := (settled_new hnew).addBatch texts
    rw [hbatch] at hc
    exact hc.of_ok
  | @call m h request hr ih =>
    have hc := ih.perform request
    generalize request.perform m = p at hc hr
    cases hc with
    | ok hs => exact hs
    | error hs => exact hs
    | spent => simp at hr

/-! ## What a solve finds -/

/-- The layout that a model reports. What it has no variable for is at zero. -/
def reported (m : Model Rat) (ref : AttributeRef) : Rat :=
  match m.value ref.region ref.attr with
  | .ok x => x
  | .error _ => 0

theorem value_of_varOf? {ref : AttributeRef} (h : m.varOf? ref = some v) :
    m.value ref.region ref.attr = .ok (m.valueOf v) := by
  have hl := lookup_seat ⟨v, h⟩
  rw [seat, h, Option.getD_some] at hl
  simp only [value, hl, Bind.bind, Except.bind]
  rfl

theorem reported_of_some {ref : AttributeRef} (h : m.varOf? ref = some v) :
    m.reported ref = m.valueOf v := by
  rw [reported, value_of_varOf? h]

theorem reported_of_has {ref : AttributeRef} (h : m.Has ref) :
    m.value ref.region ref.attr = .ok (m.reported ref) := by
  obtain ⟨v, hv⟩ := h
  rw [reported_of_some hv, value_of_varOf? hv]

theorem reported_of_none {ref : AttributeRef} (h : m.varOf? ref = none) : m.reported ref = 0 := by
  unfold varOf? at h
  unfold reported value lookup Model.region
  cases hr : m.region? ref.region with
  | none => rfl
  | some r =>
    have hg : r.get? ref.attr = none := by rwa [hr, Option.bind_some] at h
    simp [Bind.bind, Except.bind, variableOf, hg]

/-- After a solve a model reports what its solver has found. -/
theorem reported_solve (m : Model Rat) : m.solve.reported = m.reading m.solver.value := by
  funext ref
  cases hv : m.varOf? ref with
  | none =>
    rw [reading_none hv]
    exact reported_of_none hv
  | some v =>
    have hv' : m.solve.varOf? ref = some v := hv
    have hget : m.solve.values.get? v = some (m.solver.value v) := by
      rw [get?_solve, if_pos (mem_vars hv)]
    rw [reading_some hv, reported_of_some hv', valueOf, hget]
    rfl

/-- A model with another limit of turns. -/
def withLimit (m : Model Rat) (n : Nat) : Model Rat :=
  { m with solver := { m.solver with limit := n } }

theorem Settled.withLimit (h : m.Settled) (n : Nat) : (m.withLimit n).Settled where
  toMapped := ⟨h.names, h.primary, h.before, h.own, h.resolved⟩
  kept := by
    obtain ⟨T, hs, he⟩ := h.kept.sound
    exact h.kept.of_declared (hs.with_limit n) (he.of_eq (fun _ => rfl) rfl rfl) h.kept.idle
      (fun _ => rfl) h.kept.pulled

end Model

end RegionLayout
