-- Who yields in a measure pass. What the parent asks of the container and what the children have
-- measured are strong ties alike, and a solve weighs them all together: the container misses a
-- request only for what the other ties gain by it.
import RegionLayout.Proofs.Number.Pixels
import RegionLayout.Proofs.Sizing.Passes

namespace RegionLayout

open Solver

/-! ## Requests of the container -/

namespace MeasureSpec

/-- The size is as the spec asks. -/
def Met (s : MeasureSpec) (y : Rat) : Prop :=
  match s.mode with
  | .exact => y = s.size
  | .atMost => y ≤ s.size
  | .unspecified => True

instance (s : MeasureSpec) (y : Rat) : Decidable (s.Met y) := by
  unfold Met
  split <;> infer_instance

/-- How far the size is from what the spec asks. -/
def miss (s : MeasureSpec) (y : Rat) : Rat :=
  match s.mode with
  | .exact => |y - s.size|
  | .atMost => max 0 (y - s.size)
  | .unspecified => 0

variable {s : MeasureSpec} {y : Rat}

theorem miss_nonneg : 0 ≤ s.miss y := by
  unfold miss
  split
  · exact abs_nonneg _
  · exact le_max_left _ _
  · exact le_rfl

theorem miss_eq_zero_iff : s.miss y = 0 ↔ s.Met y := by
  unfold miss Met
  split
  · rw [abs_eq_zero, sub_eq_zero]
  · rw [max_eq_left_iff, sub_nonpos]
  · simp

/-- The ties of an axis are off by what the axis misses its request by. -/
theorem miss_eq : s.miss y = s.pull?.elim 0 (fun n => Comparator.equal.violation (y - n)) +
    s.cap?.elim 0 fun n => Comparator.atMost.violation (y - n) := by
  unfold miss pull? cap?
  split <;> rename_i hs <;> rw [hs] <;> simp [Comparator.violation]

end MeasureSpec

/-! ## The ties of one variable -/

theorem strain_filter (c : Tie → Bool) (ts : List Tie) (x : Variable → Rat) :
    strain ts x = strain (ts.filter c) x + strain (ts.filter fun t => !c t) x := by
  unfold strain
  induction ts with
  | nil => simp
  | cons t ts ih =>
    rw [List.map_cons, List.sum_cons, ih]
    cases hc : c t <;> simp [hc] <;> ring

theorem off_le_strain {ts : List Tie} {t : Tie} (h : t ∈ ts) (x : Variable → Rat) :
    t.off x ≤ strain ts x := by
  refine List.single_le_sum ?_ _ (List.mem_map_of_mem h)
  intro y hy
  obtain ⟨u, -, rfl⟩ := List.mem_map.1 hy
  exact u.off_nonneg x

namespace Model

variable {m m' : Model Rat} {v : Variable} {x : Variable → Rat}

/-- What an edit variable and a binding ask of one variable. -/
def tiesAt (m : Model Rat) (v : Variable) : List Tie :=
  (m.solver.target? v).toList.map (⟨v, .equal, ·⟩) ++
    (cap? m.bindings v).toList.map (⟨v, .atMost, ·⟩)

theorem filter_ties (m : Model Rat) (v : Variable) :
    (m.ties.filter fun t => t.subject == v).Perm (m.tiesAt v) := by
  refine (List.perm_ext_iff_of_nodup (m.nodup_ties.filter _) ?_).2 fun t => ?_
  · unfold tiesAt
    cases m.solver.target? v <;> cases cap? m.bindings v <;> simp
  · obtain ⟨u, c, y⟩ := t
    rw [List.mem_filter, mem_ties, tiesAt]
    simp only [beq_iff_eq, List.mem_append, List.mem_map, Option.mem_toList, Tie.mk.injEq]
    constructor
    · rintro ⟨⟨rfl, ht⟩ | ⟨rfl, ht⟩, rfl⟩
      · exact .inl ⟨y, ht, rfl, rfl, rfl⟩
      · exact .inr ⟨y, ht, rfl, rfl, rfl⟩
    · rintro (⟨_, ht, rfl, rfl, rfl⟩ | ⟨_, ht, rfl, rfl, rfl⟩)
      · exact ⟨.inl ⟨rfl, ht⟩, rfl⟩
      · exact ⟨.inr ⟨rfl, ht⟩, rfl⟩

/-- A tie of a size of the container. -/
def atContainer (m : Model Rat) (t : Tie) : Bool :=
  t.subject == m.seat ⟨containerName, .width⟩ || t.subject == m.seat ⟨containerName, .height⟩

/-- The ties of everything but the sizes of the container. -/
def elsewhere (m : Model Rat) : List Tie := m.ties.filter fun t => !m.atContainer t

theorem seat_container_ne (h : m.Mapped) :
    m.seat ⟨containerName, .width⟩ ≠ m.seat ⟨containerName, .height⟩ := by
  intro he
  have hw := varOf?_seat (h.primary (r := m.container) (if_pos rfl) (a := .width) rfl)
  have hh := varOf?_seat (h.primary (r := m.container) (if_pos rfl) (a := .height) rfl)
  rw [← he] at hh
  exact absurd (h.own hw hh) (by simp)

/-- The ties are those of the width and the height of the container, and the others. -/
theorem strain_split (h : m.Mapped) (x : Variable → Rat) : strain m.ties x =
    strain (m.tiesAt (m.seat ⟨containerName, .width⟩)) x +
      strain (m.tiesAt (m.seat ⟨containerName, .height⟩)) x + strain m.elsewhere x := by
  have hne := seat_container_ne h
  rw [strain_filter m.atContainer, elsewhere]
  congr 1
  rw [strain_filter (fun t => t.subject == m.seat ⟨containerName, .width⟩),
    List.filter_filter, List.filter_filter, ← strain_perm (m.filter_ties _),
    ← strain_perm (m.filter_ties _)]
  congr 2
  · refine List.filter_congr fun t _ => ?_
    unfold atContainer
    cases t.subject == m.seat ⟨containerName, .width⟩ <;> simp
  · refine List.filter_congr fun t _ => ?_
    unfold atContainer
    by_cases hw : t.subject = m.seat ⟨containerName, .width⟩
    · simp [hw, hne]
    · rw [beq_false_of_ne hw, Bool.not_false, Bool.true_and, Bool.false_or]

/-- The ties that a later model has from an earlier one, the sizes of the container apart. -/
def left (m m' : Model Rat) : List Tie := m'.elsewhere.filter fun t => t ∈ m.ties

/-- An edit variable pulls at the attribute. -/
def Pulls (m : Model Rat) (ref : AttributeRef) : Prop :=
  ∃ y, m.solver.target? (m.seat ref) = some y

end Model

namespace Sizing

variable {σ : Type} {host : Handle → MeasureSpec → MeasureSpec → StateM σ Size} {h h' : σ}
  {p p' : Pass Rat} {s : Setting} {children : List Child} {width height : MeasureSpec}
  {report : Report} {m m' : Model Rat} {told : List (AttributeRef × Int)} {x : Variable → Rat}

/-! ## The container -/

/-- What a pass asks of an axis of the container, the room for the padding left out. -/
def Setting.inner (s : Setting) (width height : MeasureSpec) : Axis → MeasureSpec
  | .horizontal => width.shrink s.padding.horizontal
  | .vertical => height.shrink s.padding.vertical

/-- What is told was measured. -/
def Measured (m : Model Rat) (told : List (AttributeRef × Int)) : Prop :=
  ∀ e ∈ told, m.Has e.1 ∧ e.1.attr.isIntrinsic = true

theorem Measured.measures (h : Measured m told) {ref : AttributeRef} {n : Int}
    (he : (ref, n) ∈ told) {v : Variable} (hv : m.varOf? ref = some v) : m.Measures v :=
  ⟨ref.region, ref.attr, (h _ he).2, hv⟩

theorem container_size (hm : m.Mapped) (axis : Axis) (x : Variable → Rat) :
    m.reading x ⟨containerName, axis.size⟩ = x (m.seat ⟨containerName, axis.size⟩) :=
  Model.reading_some (Model.varOf?_seat (hm.primary (r := m.container) (if_pos rfl)
    axis.size_isPrimary))

section Passed

variable (hp : Passed s width height told report m m') (hm : m.Mapped) (ht : Measured m told)

include hp

theorem Passed.seat (ref : AttributeRef) : m'.seat ref = m.seat ref := by
  rw [hp.frame]
  rfl

theorem Passed.obeys_iff : m'.Obeys x ↔ m.Obeys x := by
  rw [hp.frame]
  rfl

include hm ht

/-- The container is tied to what is asked of it and to nothing else. -/
theorem Passed.strain_container (axis : Axis) (x : Variable → Rat) :
    strain (m'.tiesAt (m'.seat ⟨containerName, axis.size⟩)) x =
      (s.inner width height axis).miss (m.reading x ⟨containerName, axis.size⟩) := by
  have hne := Model.seat_container_ne hm
  have htarget : m'.solver.target? (m.seat ⟨containerName, axis.size⟩) =
      (s.inner width height axis).pull? := by
    rcases hp.targets (m.seat ⟨containerName, axis.size⟩) with h | ⟨ref, n, he, hv, -⟩
    · rw [h]
      cases axis
      · exact (Function.update_of_ne hne _ _).trans (Function.update_self _ _ _)
      · exact Function.update_self _ _ _
    · exact absurd (ht.measures he hv) (not_measures_container hm axis.size_isPrimary)
  have hcap : Model.cap? m'.bindings (m.seat ⟨containerName, axis.size⟩) =
      (s.inner width height axis).cap? := by
    rw [hp.caps]
    cases axis
    · exact (Function.update_of_ne hne _ _).trans (Function.update_self _ _ _)
    · exact Function.update_self _ _ _
  rw [hp.seat, container_size hm, MeasureSpec.miss_eq, Model.tiesAt, strain_append, htarget, hcap]
  congr 1
  · cases (s.inner width height axis).pull? <;> simp [strain, Tie.off]
  · cases (s.inner width height axis).cap? <;> simp [strain, Tie.off]

/-- A solve after a pass weighs what the container misses against the other ties. -/
theorem Passed.miss_add_le (hreq : ∀ r ∈ m.relations, r.strength = .required) (hx : m.Obeys x)
    (hmet : ∀ axis, (s.inner width height axis).Met (m.reading x ⟨containerName, axis.size⟩)) :
    (s.inner width height .horizontal).miss (m'.reported ⟨containerName, .width⟩) +
      (s.inner width height .vertical).miss (m'.reported ⟨containerName, .height⟩) +
      strain m'.elsewhere m'.solver.value ≤ strain m'.elsewhere x := by
  have hw := hp.granted.weighed
  have hreq' : ∀ r ∈ m'.relations, r.strength = .required := by
    rw [hp.frame]
    exact hreq
  have hread : ∀ y, m'.reading y = m.reading y := fun y => by
    rw [hp.frame]
    rfl
  have hleast := hw.least (hp.obeys_iff.2 hx)
  have hpos : (0 : Rat) < Weight.strong := by decide
  rw [Model.discord, Model.discord, Model.wishes_of_required hreq', Model.wishes_of_required hreq',
    zero_add, zero_add, mul_le_mul_iff_right₀ hpos, Model.strain_split hw.toMapped,
    Model.strain_split hw.toMapped] at hleast
  have hstrain := fun axis y => hp.strain_container hm ht axis y
  have hzero : ∀ axis, (s.inner width height axis).miss
      (m.reading x ⟨containerName, axis.size⟩) = 0 :=
    fun axis => MeasureSpec.miss_eq_zero_iff.2 (hmet axis)
  have hx₁ := (hstrain .horizontal x).trans (hzero .horizontal)
  have hx₂ := (hstrain .vertical x).trans (hzero .vertical)
  have hs₁ := hstrain .horizontal m'.solver.value
  have hs₂ := hstrain .vertical m'.solver.value
  rw [hp.solved, hread]
  simp only [Axis.size] at hx₁ hx₂ hs₁ hs₂
  linarith

end Passed

/-- A size that is no more than a whole number is not rounded above it. -/
theorem round_le {y : Rat} {n : Int} (h0 : 0 ≤ y) (h : y ≤ n) : Scalar.round y ≤ n := by
  have hlow : ((Number.least : Int) : Rat) ≤ y := le_trans (by decide) h0
  have hround := Valued.round_le (x := y) rfl hlow
  have hlt : (Scalar.round y : Rat) < n + 1 := by linarith
  exact Int.lt_add_one_iff.1 (by exact_mod_cast hlt)

/-- What a limited axis reports is within the limit when its size is as asked. Neither the room
that is left nor the padded size comes out larger where it passes the thirty-two bits. -/
theorem reportAxis_le {spec : MeasureSpec} {y : Rat} {padding : Int} (h0 : 0 ≤ y)
    (hmode : spec.mode = .atMost) (hleast : Number.least ≤ padding)
    (hpadding : padding ≤ spec.size) (hmet : (spec.shrink padding).Met y) :
    reportAxis spec y padding ≤ spec.size := by
  obtain ⟨mode, size⟩ := spec
  subst hmode
  have hroom : 0 ≤ size - padding := sub_nonneg.2 hpadding
  have hinner := Number.wrapAround_le ((by decide : Number.least ≤ 0).trans hroom)
  have hround := round_le h0 (show y ≤ (max (Number.wrapAround (size - padding)) 0 : Int) from hmet)
  have hpixel : 0 ≤ Scalar.round y := Valued.round_nonneg rfl h0
  have hsum : Number.wrapAround (Scalar.round y + padding) ≤ Scalar.round y + padding :=
    Number.wrapAround_le (by omega)
  change Number.wrapAround (Scalar.round y + padding) ≤ size
  omega

theorem eq_of_ok {ε α β : Type} {r : Except ε α × β × Unit} {a : α} (h : r.1 = .ok a) :
    r = (.ok a, r.2.1, ()) := Prod.ext h rfl

/-- A host that answers one size per child, whatever it is asked. -/
def fixedHost (size : Handle → Size) (handle : Handle) (_ _ : MeasureSpec) : StateM Unit Size :=
  pure (size handle)

/-- A model of statements that are all taken. -/
@[irreducible] def modelOf (texts : List String) : Model Rat :=
  ((Model.Request.addConstraints (some texts)).perform
    (Model.opening 1 100 (Model.blank 1 100)).2).2

theorem granted_modelOf {texts : List String}
    (hok : ((Model.Request.addConstraints (some texts)).perform
      (Model.opening 1 100 (Model.blank 1 100)).2).1 = .ok ()) : (modelOf texts).Granted := by
  unfold modelOf
  exact .call (.new Model.new_eq_opening) _ hok

/-- The required constraints in the solver hold. -/
abbrev HoldsRequired (m : Model Rat) (x : Variable → Rat) : Prop :=
  ∀ e ∈ m.solver.constraints.entries, e.2.2.isRequired = true →
    e.2.2.comparator.Holds (e.2.2.expression.eval x)

theorem obeys_of_entries (hm : m.Granted) (hx : HoldsRequired m x) : m.Obeys x :=
  (hm.weighed.kept.asks x).1 fun _ _ hi hr => hx _ ((SortedMap.get?_eq_some_iff _).1 hi) hr

/-- A container at least half as wide as its label, which is as wide as the host says. -/
def halfLabel : Model Rat :=
  modelOf ["parent.width >= label.width / 2", "label.width == label.intrinsicWidth"]

theorem granted_halfLabel : halfLabel.Granted := granted_modelOf (by decide +kernel)

/-- The container of such a label is measured, at a hundred pixels at the most. -/
def halfLabelRun (label : Size) : Except LayoutError Report × Pass Rat × Unit :=
  measure { names := .ofList [(1, "label")] } [{ handle := 1 }] (.atMost 100) (.exact 50)
    (fixedHost fun _ => label) { model := halfLabel } ()

/-- Values of the variables where the label has the given width, and the container sixty pixels. -/
def halfLabelValues (label : Rat) (v : Variable) : Rat :=
  [0, 0, 60, 50, 0, 0, label, 0, label].getD v.id 0

section Told

variable (hp : Passed s width height told report m m') (hm : m.Mapped) (ht : Measured m told)

include hp

/-- A tie that the pass did not leave alone is at a size that was told. -/
theorem Passed.told_or_left {t : Tie} (he : t ∈ m'.elsewhere) : t ∈ m.ties ∨
    ∃ ref n, (ref, n) ∈ told ∧ m.varOf? ref = some t.subject ∧ t = ⟨t.subject, .equal, n⟩ := by
  obtain ⟨hmem, hout⟩ := List.mem_filter.1 he
  have hw : t.subject ≠ m.seat ⟨containerName, .width⟩ := fun h => by
    simp [Model.atContainer, hp.seat, h] at hout
  have hh : t.subject ≠ m.seat ⟨containerName, .height⟩ := fun h => by
    simp [Model.atContainer, hp.seat, h] at hout
  rcases Model.mem_ties.1 hmem with ⟨hc, hv⟩ | ⟨hc, hv⟩
  · rcases hp.targets t.subject with h | ⟨ref, n, htold, href, h⟩
    · rw [h, Function.update_of_ne hh, Function.update_of_ne hw] at hv
      exact .inl (Model.mem_ties.2 (.inl ⟨hc, hv⟩))
    · have hn : t.value = n := Option.some.inj (hv.symm.trans h)
      refine .inr ⟨ref, n, htold, href, ?_⟩
      rw [← hc, ← hn]
  · rw [hp.caps, Function.update_of_ne hh, Function.update_of_ne hw] at hv
    exact .inl (Model.mem_ties.2 (.inr ⟨hc, hv⟩))

/-- Where all that was told is as told, only the ties that were left alone are off. -/
theorem Passed.strain_left (hx : ∀ e ∈ told, m.reading x e.1 = e.2) :
    strain m'.elsewhere x = strain (m.left m') x := by
  rw [Model.left, strain_filter (fun t => t ∈ m.ties) m'.elsewhere]
  refine add_eq_left.2 (strain_eq_zero fun t ht => ?_)
  obtain ⟨he, hnew⟩ := List.mem_filter.1 ht
  rcases hp.told_or_left he with hold | ⟨ref, n, htold, hv, heq⟩
  · simp [hold] at hnew
  · have hat := hx _ htold
    rw [Model.reading_some hv] at hat
    rw [heq, Tie.off, hat, sub_self]
    exact abs_zero

include hm ht

/-- An edit variable of a told size still pulls after the pass, and not at the container. -/
theorem Passed.exists_tie {ref : AttributeRef} {n : Int} (he : (ref, n) ∈ told)
    (hpull : m.Pulls ref) : ∃ y, (⟨m.seat ref, .equal, y⟩ : Tie) ∈ m'.elsewhere := by
  obtain ⟨y, hy⟩ := hpull
  have hv := Model.varOf?_seat (ht _ he).1
  have hne : ∀ {a : Attribute}, a.isPrimary = true →
      m.seat ref ≠ m.seat ⟨containerName, a⟩ := fun ha h =>
    not_measures_container hm ha (h ▸ ht.measures he hv)
  obtain ⟨y', hy'⟩ : ∃ y', m'.solver.target? (m.seat ref) = some y' := by
    rcases hp.targets (m.seat ref) with h | ⟨_, n', -, -, h⟩
    · rw [Function.update_of_ne (hne rfl), Function.update_of_ne (hne rfl)] at h
      exact ⟨y, h.trans hy⟩
    · exact ⟨n', h⟩
  refine ⟨y', List.mem_filter.2 ⟨Model.mem_ties.2 (.inl ⟨rfl, hy'⟩), ?_⟩⟩
  simp [Model.atContainer, hp.seat, hne (a := .width) rfl, hne (a := .height) rfl]

end Told

/-- After a pass each measured size that is pulled at is solved to within twice of what the ties
that the pass left alone are off by, in any layout that is as required and as measured and where
the container is as asked. So it is solved exactly where there is one that keeps those ties. -/
theorem measured_sizes_are_solved (hm : p.model.Granted)
    (hreq : ∀ r ∈ p.model.relations, r.strength = .required)
    (hpass : measure s children width height host p h = (.ok report, p', h')) :
    ∃ plan, (begin s children width height p).1 = .ok plan ∧
      List.Forall₂ (Answers s p.model) (visibleOf children) (plan.run host h).1.requests ∧
      ∀ x, p.model.Obeys x →
        (∀ axis, (s.inner width height axis).Met
          (p.model.reading x ⟨containerName, axis.size⟩)) →
        (∀ e ∈ (plan.run host h).1.told, p.model.reading x e.1 = e.2) →
        ∀ e ∈ (plan.run host h).1.told, p.model.Pulls e.1 →
          |p'.model.reported e.1 - e.2| ≤ 2 * strain (p.model.left p'.model) x ∧
          ((∀ t ∈ p.model.left p'.model, t.off x = 0) → p'.model.reported e.1 = e.2) := by
  obtain ⟨plan, hbegin, ha, hp⟩ := passed_of_measure hm hpass
  refine ⟨plan, hbegin, ha, fun x hx hmet htold e he hpull => ?_⟩
  have hmapped := hm.weighed.toMapped
  have ht : Measured p.model (plan.run host h).1.told := fun e he => has_of_told ha he
  have hle := hp.miss_add_le hmapped ht hreq hx hmet
  obtain ⟨y, hy⟩ := hp.exists_tie hmapped ht he hpull
  have hseat := Model.reading_some (x := x) (Model.varOf?_seat (ht e he).1)
  have hsolved : p'.model.reported e.1 = p'.model.solver.value (p.model.seat e.1) := by
    rw [hp.solved, ← hp.seat]
    exact Model.reading_some (Model.varOf?_seat (by rw [hp.frame]; exact (ht e he).1))
  have hfar : |p'.model.reported e.1 - y| ≤ strain p'.model.elsewhere p'.model.solver.value := by
    rw [hsolved]
    exact off_le_strain hy p'.model.solver.value
  have hnear : |(e.2 : Rat) - y| ≤ strain (p.model.left p'.model) x := by
    rw [← htold e he, hseat, ← hp.strain_left htold]
    exact off_le_strain hy x
  have hbound : |p'.model.reported e.1 - e.2| ≤ 2 * strain (p.model.left p'.model) x := by
    have htri := abs_sub_le (p'.model.reported e.1) y e.2
    rw [abs_sub_comm y] at htri
    rw [hp.strain_left htold] at hle
    have h₁ := (s.inner width height .horizontal).miss_nonneg
      (y := p'.model.reported ⟨containerName, .width⟩)
    have h₂ := (s.inner width height .vertical).miss_nonneg
      (y := p'.model.reported ⟨containerName, .height⟩)
    linarith
  refine ⟨hbound, fun hkept => ?_⟩
  rw [strain_eq_zero hkept, mul_zero] at hbound
  exact sub_eq_zero.1 (abs_nonpos_iff.1 hbound)

/-- Two labels that share one width, which is to be a hundred pixels at least. -/
def sharedWidth : Model Rat :=
  modelOf ["x.width == a.intrinsicWidth + b.intrinsicWidth", "x.width >= 100"]

theorem granted_sharedWidth : sharedWidth.Granted := granted_modelOf (by decide +kernel)

def sharedWidthHost (a b : Int) : Handle → MeasureSpec → MeasureSpec → StateM Unit Size :=
  fixedHost fun handle => ⟨if handle = 1 then a else b, 10⟩

/-- The labels are measured in a container of five hundred pixels. -/
def sharedWidthRun (a b : Int) : Except LayoutError Report × Pass Rat × Unit :=
  measure { names := .ofList [(1, "a"), (2, "b")] } [{ handle := 1 }, { handle := 2 }]
    (.exact 500) (.exact 50) (sharedWidthHost a b) { model := sharedWidth } ()

/-- The sizes that such a pass tells the model. -/
def sharedWidthTold (a b : Int) : Option (List (AttributeRef × Int)) :=
  (begin { names := .ofList [(1, "a"), (2, "b")] } [{ handle := 1 }, { handle := 2 }]
    (.exact 500) (.exact 50) { model := sharedWidth }).1.toOption.map fun plan =>
      (plan.run (sharedWidthHost a b) ()).1.told

/-- Values of the variables where the labels have the given widths. -/
def sharedWidthValues (a b : Rat) (v : Variable) : Rat :=
  [0, 0, 500, 50, 0, 0, 0, 0, a, 0, 0, 0, 0, b, 0, 0, a + b, 0].getD v.id 0

/-- Widths that are both news are both solved. -/
theorem measured_sizes_are_solved_if_news : ∃ report p',
    sharedWidthRun 120 50 = (.ok report, p', ()) ∧
      p'.model.reported ⟨"a", .intrinsicWidth⟩ = 120 ∧
      p'.model.reported ⟨"b", .intrinsicWidth⟩ = 50 := by
  obtain ⟨hrun, htold, hreq, hentries, hasked, hkept, ha, hb⟩ :
      (sharedWidthRun 120 50).1 = .ok ⟨⟨500, 50⟩, 2, 2, 2⟩ ∧
      sharedWidthTold 120 50 =
        some [(⟨"a", .intrinsicWidth⟩, 120), (⟨"b", .intrinsicWidth⟩, 50)] ∧
      (∀ r ∈ sharedWidth.relations, r.strength = .required) ∧
      HoldsRequired sharedWidth (sharedWidthValues 120 50) ∧
      (sharedWidth.reading (sharedWidthValues 120 50) ⟨containerName, .width⟩ = 500 ∧
        sharedWidth.reading (sharedWidthValues 120 50) ⟨containerName, .height⟩ = 50 ∧
        sharedWidth.reading (sharedWidthValues 120 50) ⟨"a", .intrinsicWidth⟩ = 120 ∧
        sharedWidth.reading (sharedWidthValues 120 50) ⟨"b", .intrinsicWidth⟩ = 50) ∧
      (∀ t ∈ sharedWidth.left (sharedWidthRun 120 50).2.1.model,
        t.off (sharedWidthValues 120 50) = 0) ∧
      sharedWidth.solver.target? (sharedWidth.seat ⟨"a", .intrinsicWidth⟩) = some 0 ∧
      sharedWidth.solver.target? (sharedWidth.seat ⟨"b", .intrinsicWidth⟩) = some 0 := by
    decide +kernel
  obtain ⟨hwidth, hheight, hvalueA, hvalueB⟩ := hasked
  obtain ⟨plan, hbegin, -, hsolved⟩ := measured_sizes_are_solved (p := { model := sharedWidth })
    granted_sharedWidth hreq (eq_of_ok hrun)
  rw [sharedWidthTold, hbegin] at htold
  have hmem : (plan.run (sharedWidthHost 120 50) ()).1.told = _ := Option.some.inj htold
  rw [hmem] at hsolved
  have hall := hsolved _ (obeys_of_entries granted_sharedWidth hentries) (fun axis => by
    cases axis with
    | horizontal => exact hwidth
    | vertical => exact hheight) (by simp [hvalueA, hvalueB])
  refine ⟨_, _, eq_of_ok hrun, ?_, ?_⟩
  · exact (hall (⟨"a", .intrinsicWidth⟩, 120) (by decide) ⟨0, ha⟩).2 hkept
  · exact (hall (⟨"b", .intrinsicWidth⟩, 50) (by decide) ⟨0, hb⟩).2 hkept

/-- The first solve has one label at a hundred pixels already. The size is measured and no news,
so the model goes on to pull that label to zero, and what the other one adds is taken from it. -/
theorem measured_size_is_passed_over : sharedWidth.Granted ∧
    (∀ r ∈ sharedWidth.relations, r.strength = .required) ∧
    (∃ x, sharedWidth.Obeys x ∧ sharedWidth.reading x ⟨containerName, .width⟩ = 500 ∧
      sharedWidth.reading x ⟨containerName, .height⟩ = 50 ∧
      sharedWidth.reading x ⟨"a", .intrinsicWidth⟩ = 100 ∧
      sharedWidth.reading x ⟨"b", .intrinsicWidth⟩ = 50) ∧
    sharedWidthTold 100 50 =
      some [(⟨"a", .intrinsicWidth⟩, 100), (⟨"b", .intrinsicWidth⟩, 50)] ∧
    (sharedWidthRun 100 50).1 = .ok ⟨⟨500, 50⟩, 2, 1, 2⟩ ∧
    (sharedWidthRun 100 50).2.1.model.reported ⟨"a", .intrinsicWidth⟩ = 50 := by
  obtain ⟨hreq, hentries, hread, hrun⟩ :
      (∀ r ∈ sharedWidth.relations, r.strength = .required) ∧
      HoldsRequired sharedWidth (sharedWidthValues 100 50) ∧
      (sharedWidth.reading (sharedWidthValues 100 50) ⟨containerName, .width⟩ = 500 ∧
        sharedWidth.reading (sharedWidthValues 100 50) ⟨containerName, .height⟩ = 50 ∧
        sharedWidth.reading (sharedWidthValues 100 50) ⟨"a", .intrinsicWidth⟩ = 100 ∧
        sharedWidth.reading (sharedWidthValues 100 50) ⟨"b", .intrinsicWidth⟩ = 50) ∧
      sharedWidthTold 100 50 =
        some [(⟨"a", .intrinsicWidth⟩, 100), (⟨"b", .intrinsicWidth⟩, 50)] ∧
      (sharedWidthRun 100 50).1 = .ok ⟨⟨500, 50⟩, 2, 1, 2⟩ ∧
      (sharedWidthRun 100 50).2.1.model.reported ⟨"a", .intrinsicWidth⟩ = 50 := by
    decide +kernel
  exact ⟨granted_sharedWidth, hreq,
    ⟨sharedWidthValues 100 50, obeys_of_entries granted_sharedWidth hentries, hread⟩, hrun⟩

end Sizing

end RegionLayout
