-- What a batch that fails leaves of the geometry. The variables that it has made stay, and they
-- have no value before the next solve. So every measure is as it was, but for a centre that had
-- been worked out until then.
import RegionLayout.Proofs.Model.Courses

namespace RegionLayout

namespace RegionGeometry

variable {R : Type}

def origin (g : RegionGeometry R) : Axis → R
  | .horizontal => g.left
  | .vertical => g.top

def size (g : RegionGeometry R) : Axis → R
  | .horizontal => g.width
  | .vertical => g.height

def center (g : RegionGeometry R) : Axis → R
  | .horizontal => g.centerX
  | .vertical => g.centerY

end RegionGeometry

namespace Model

variable {R : Type} [Scalar R] {m m' : Model R} {ref : AttributeRef} {v : Variable}
  {name : String} {axis : Axis} {g : RegionGeometry R} {texts : Option (List String)}
  {e : LayoutError}

/-! ## The measures of a region -/

theorem geometry_eq_ok_iff :
    m.geometry name = .ok g ↔ ∃ r, m.region? name = some r ∧ m.geometryOf r = g := by
  unfold geometry Model.region
  cases m.region? name <;> simp [Bind.bind, Except.bind, Pure.pure, Except.pure]

theorem origin_of_geometry (hg : m.geometry name = .ok g)
    (hv : m.slot? ⟨name, axis.origin⟩ = some v) : g.origin axis = m.valueOf v := by
  obtain ⟨r, hr, rfl⟩ := geometry_eq_ok_iff.1 hg
  rw [slot?_of_region hr] at hv
  cases axis <;> simp only [Axis.origin] at hv <;>
    simp [RegionGeometry.origin, geometryOf, hv]

theorem size_of_geometry (hg : m.geometry name = .ok g)
    (hv : m.slot? ⟨name, axis.size⟩ = some v) : g.size axis = m.valueOf v := by
  obtain ⟨r, hr, rfl⟩ := geometry_eq_ok_iff.1 hg
  rw [slot?_of_region hr] at hv
  cases axis <;> simp only [Axis.size] at hv <;>
    simp [RegionGeometry.size, geometryOf, hv]

theorem center_of_geometry (hg : m.geometry name = .ok g)
    (hv : m.slot? ⟨name, axis.center⟩ = some v) : g.center axis = m.valueOf v := by
  obtain ⟨r, hr, rfl⟩ := geometry_eq_ok_iff.1 hg
  rw [slot?_of_region hr] at hv
  cases axis <;> simp only [Axis.center] at hv <;>
    simp [RegionGeometry.center, geometryOf, hv]

/-- A centre without a variable is worked out. -/
theorem center_of_no_slot (hg : m.geometry name = .ok g)
    (hv : m.slot? ⟨name, axis.center⟩ = none) : g.center axis = g.origin axis + g.size axis / 2 := by
  obtain ⟨r, hr, rfl⟩ := geometry_eq_ok_iff.1 hg
  rw [slot?_of_region hr] at hv
  cases axis <;> simp only [Axis.center] at hv <;>
    simp [RegionGeometry.center, RegionGeometry.origin, RegionGeometry.size, geometryOf, hv]

/-! ## Variables without values -/

/-- A variable that was not given out has no value yet. -/
theorem Charted.valueOf_eq_zero (h : m.Charted) (hv : m.nextVariable ≤ v.id) : m.valueOf v = 0 := by
  rw [valueOf]
  cases hx : m.values.get? v with
  | none => rfl
  | some x => exact absurd (h.noted hx) (Nat.not_lt.2 hv)

/-- A statement of the batch has the attribute left. -/
def Speaks (m : Model R) (texts : Option (List String)) (ref : AttributeRef) : Prop :=
  ∃ ts rs, texts = some ts ∧ ts.mapM (Relation.parse · m.density) = .ok rs ∧
    ∃ r ∈ rs, ref ∈ r.refs

theorem asked_iff_speaks (hp : ref.attr.isPrimary = false) :
    m.Asked texts ref ↔ m.Speaks texts ref := by
  simp [Asked, Speaks, Demand.asks_ofRelations, hp]

/-! ## Failed batches -/

/-- New attributes, and no new values. -/
theorem Spreads.geometry {D : AttributeRef → Prop} (h : m.Charted) (hs : Spreads D m m')
    (hvalues : m'.values = m.values) (hg : m.geometry name = .ok g) :
    ∃ g', m'.geometry name = .ok g' ∧ ∀ axis, g'.origin axis = g.origin axis ∧
      g'.size axis = g.size axis ∧ (g'.center axis = g.center axis ↔
        g.center axis = 0 ∨ (m'.Knows ⟨name, axis.center⟩ → m.Knows ⟨name, axis.center⟩)) := by
  have hvalue (v : Variable) : m'.valueOf v = m.valueOf v := by rw [valueOf, hvalues, valueOf]
  obtain ⟨r, hr, -⟩ := geometry_eq_ok_iff.1 hg
  have hprimary {a : Attribute} (ha : a.isPrimary = true) :
      ∃ v, m.slot? ⟨name, a⟩ = some v ∧ m'.slot? ⟨name, a⟩ = some v := by
    obtain ⟨v, hv⟩ := h.primary hr ha
    exact ⟨v, hv, hs.kept hv⟩
  obtain ⟨v, -, hv'⟩ := hprimary (a := .left) rfl
  obtain ⟨r', hr', -⟩ := region_of_slot hv'
  have hg' : m'.geometry name = .ok (m'.geometryOf r') := geometry_eq_ok_iff.2 ⟨r', hr', rfl⟩
  have horigin (axis : Axis) : (m'.geometryOf r').origin axis = g.origin axis := by
    obtain ⟨o, ho, ho'⟩ := hprimary axis.origin_isPrimary
    rw [origin_of_geometry hg' ho', origin_of_geometry hg ho, hvalue]
  have hsize (axis : Axis) : (m'.geometryOf r').size axis = g.size axis := by
    obtain ⟨o, ho, ho'⟩ := hprimary axis.size_isPrimary
    rw [size_of_geometry hg' ho', size_of_geometry hg ho, hvalue]
  refine ⟨_, hg', fun axis => ⟨horigin axis, hsize axis, ?_⟩⟩
  rw [knows_iff, knows_iff]
  cases hc : m.slot? ⟨name, axis.center⟩ with
  | some c =>
    rw [center_of_geometry hg' (hs.kept hc), center_of_geometry hg hc, hvalue]
    simp
  | none =>
    cases hc' : m'.slot? ⟨name, axis.center⟩ with
    | none =>
      rw [center_of_no_slot hg' hc', center_of_no_slot hg hc, horigin, hsize]
      simp
    | some c =>
      -- the centre has a variable now, and that has no value yet
      have hfresh : m.nextVariable ≤ c.id := by
        rcases hs.fresh hc' with hold | ⟨-, -, hlt⟩
        · cases hc.symm.trans hold
        · exact hlt
      rw [center_of_geometry hg' hc', hvalue, h.valueOf_eq_zero hfresh]
      simp [eq_comm]

variable {may : Command R → Except LayoutError Unit → Prop} {log : List (Command R)}

/-- After a batch that failed, whatever it failed with, every region that was there has the edges
and sizes that it had. A centre is as it was just when it was zero or the batch has not given it a
variable; and a batch that the solver did not break down over has given one to every centre that its
statements have left. -/
theorem geometry_after_failed_batch (h : Course may log m)
    (herr : addConstraints texts m = (.error e, m')) (hg : m.geometry name = .ok g) :
    ∃ g', m'.geometry name = .ok g' ∧ ∀ axis, g'.origin axis = g.origin axis ∧
      g'.size axis = g.size axis ∧
      (g'.center axis = g.center axis ↔
        g.center axis = 0 ∨ (m'.Knows ⟨name, axis.center⟩ → m.Knows ⟨name, axis.center⟩)) ∧
      ((∀ fault, e ≠ .solver fault) → (g'.center axis = g.center axis ↔ g.center axis = 0 ∨
        (m.Speaks texts ⟨name, axis.center⟩ → m.Knows ⟨name, axis.center⟩))) := by
  have hadd := h.charted.addConstraints texts
  rw [herr] at hadd
  cases hadd with
  | spent h => exact h.elim
  | error hadd =>
    obtain ⟨-, hs, hvalues, hmade⟩ := hadd
    obtain ⟨g', hg', hall⟩ := hs.geometry h.charted hvalues hg
    refine ⟨g', hg', fun axis => ?_⟩
    obtain ⟨horigin, hsize, hcenter⟩ := hall axis
    refine ⟨horigin, hsize, hcenter, fun hno => ?_⟩
    have hnew : m'.Knows ⟨name, axis.center⟩ ↔
        m.Knows ⟨name, axis.center⟩ ∨ m.Speaks texts ⟨name, axis.center⟩ := by
      rw [← asked_iff_speaks axis.center_not_primary, knows_iff, knows_iff]
      constructor
      · rintro ⟨v, hv⟩
        exact (hs.fresh hv).imp (fun hv => ⟨v, hv⟩) fun hf => hf.2.1
      · rintro (⟨v, hv⟩ | ha)
        · exact ⟨v, hs.kept hv⟩
        · exact hmade hno _ ha
    rw [hcenter, hnew]
    simp only [or_imp, imp_self, true_and]

theorem geometry_of_centerX {x : R}
    (h : (m.geometry name).map RegionGeometry.centerX = .ok x) :
    ∃ g, m.geometry name = .ok g ∧ g.centerX = x := by
  cases hg : m.geometry name with
  | error e =>
    rw [hg] at h
    cases h
  | ok g =>
    rw [hg] at h
    exact ⟨g, rfl, Except.ok.inj h⟩

/-- The centre had a variable before the batch that clashes over the width. -/
theorem known_center_stays_after_failed_batch : ∃ log, ∃ m m' : Model Rat, ∃ e,
    Course (fun _ _ => True) log m ∧
      addConstraints (some ["a.centerX == 20", "a.width == 5"]) m = (.error e, m') ∧
        ∃ g g', m.geometry "a" = .ok g ∧ g.centerX = 20 ∧
          m'.geometry "a" = .ok g' ∧ g'.centerX = 20 := by
  have hbuilt := (course_opening fun _ _ => True).done (.add (some
    ["a.left == 10", "a.width == 20", "a.centerX >= 0"])) trivial
      (eq_of_answer (x := .ok ()) (by decide +kernel))
  obtain ⟨m, hm, hcenter, hknown, herr⟩ : ∃ m, Course (fun _ _ => True) _ m ∧
      (m.geometry "a").map RegionGeometry.centerX = .ok 20 ∧ m.Knows ⟨"a", .centerX⟩ ∧
        (addConstraints (some ["a.centerX == 20", "a.width == 5"]) m).1 =
          .error (.conflict "a.width == 5" .unsatisfiable) :=
    ⟨_, hbuilt, by decide +kernel, knows_iff.2 ⟨⟨8⟩, by decide +kernel⟩, by decide +kernel⟩
  obtain ⟨g, hg, hcenter⟩ := geometry_of_centerX hcenter
  have herr := eq_of_answer herr
  obtain ⟨g', hg', hall⟩ := geometry_after_failed_batch hm herr hg
  have hsame := (hall .horizontal).2.2.1.2 (.inr fun _ => hknown)
  exact ⟨_, m, _, _, hm, herr, g, g', hg, hcenter, hg', hsame.trans hcenter⟩

/-- The centre is worked out from the edge and the width, until a batch that fails gives it a
variable. -/
theorem worked_out_center_is_lost_after_failed_batch : ∃ log, ∃ m m' : Model Rat, ∃ e,
    Course (fun _ _ => True) log m ∧
      addConstraints (some ["a.centerX == 20", "a.width == 5"]) m = (.error e, m') ∧
        ∃ g g', m.geometry "a" = .ok g ∧ g.centerX = 20 ∧
          m'.geometry "a" = .ok g' ∧ g'.centerX = 0 := by
  have hbuilt := (course_opening fun _ _ => True).done (.add (some
    ["a.left == 10", "a.width == 20"])) trivial (eq_of_answer (x := .ok ()) (by decide +kernel))
  obtain ⟨m, hm, hcenter, herr, hcenter'⟩ : ∃ m, Course (fun _ _ => True) _ m ∧
      (m.geometry "a").map RegionGeometry.centerX = .ok 20 ∧
        (addConstraints (some ["a.centerX == 20", "a.width == 5"]) m).1 =
          .error (.conflict "a.width == 5" .unsatisfiable) ∧
        ((addConstraints (some ["a.centerX == 20", "a.width == 5"]) m).2.geometry "a").map
          RegionGeometry.centerX = .ok 0 :=
    ⟨_, hbuilt, by decide +kernel⟩
  obtain ⟨g, hg, hcenter⟩ := geometry_of_centerX hcenter
  obtain ⟨g', hg', hcenter'⟩ := geometry_of_centerX hcenter'
  exact ⟨_, m, _, _, hm, eq_of_answer herr, g, g', hg, hcenter, hg', hcenter'⟩

end Model

end RegionLayout
