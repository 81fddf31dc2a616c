-- What is read of an unspecified axis. Its request carries a size along, and a measure pass looks
-- at it nowhere: not where it ties the container, asks the children, logs or reports; nor does the
-- measuring of a text. The size by ratio alone does, where both axes are unspecified: each is then
-- made of the size that goes along with the other.
import RegionLayout.Container
import RegionLayout.Proofs.Sizing.Yielding
import RegionLayout.Sizing.Content

namespace RegionLayout

namespace MeasureSpec

variable {spec spec' : MeasureSpec}

/-- Two requests of one axis that differ at most in the size of an unspecified one. -/
structure Agrees (spec spec' : MeasureSpec) : Prop where
  mode : spec.mode = spec'.mode
  size : spec.mode ≠ .unspecified → spec.size = spec'.size

theorem Agrees.refl (spec : MeasureSpec) : spec.Agrees spec := ⟨rfl, fun _ => rfl⟩

theorem Agrees.eq_or (h : spec.Agrees spec') :
    spec = spec' ∨ spec.mode = .unspecified ∧ spec'.mode = .unspecified := by
  by_cases hmode : spec.mode = .unspecified
  · exact .inr ⟨hmode, h.mode ▸ hmode⟩
  · obtain ⟨mode, size⟩ := spec
    obtain ⟨mode', size'⟩ := spec'
    obtain rfl : mode = mode' := h.mode
    obtain rfl : size = size' := h.size hmode
    exact .inl rfl

theorem Agrees.limit (h : spec.Agrees spec') : spec.limit = spec'.limit := by
  rcases h.eq_or with rfl | ⟨hmode, hmode'⟩
  · rfl
  · simp [MeasureSpec.limit, hmode, hmode']

theorem Agrees.resolve (h : spec.Agrees spec') (natural : Int) :
    spec.resolve natural = spec'.resolve natural := by
  rcases h.eq_or with rfl | ⟨hmode, hmode'⟩
  · rfl
  · simp [MeasureSpec.resolve, hmode, hmode']

theorem Agrees.text (h : spec.Agrees spec') : spec.text = spec'.text := by
  rcases h.eq_or with rfl | ⟨hmode, hmode'⟩
  · rfl
  · simp [MeasureSpec.text, hmode, hmode']

theorem Agrees.shrink (h : spec.Agrees spec') (amount : Int) :
    (spec.shrink amount).Agrees (spec'.shrink amount) := by
  rcases h.eq_or with rfl | ⟨hmode, hmode'⟩
  · exact .refl _
  · simpa [MeasureSpec.shrink, hmode, hmode'] using h

end MeasureSpec

variable {R : Type} [Scalar R] {width width' height height' : MeasureSpec}

/-! ## By ratio -/

theorem axisByRatio_of_unspecified {spec : MeasureSpec} (h : spec.mode = .unspecified)
    (other : MeasureSpec) (byRatio : Int) : axisByRatio spec other byRatio = byRatio := by
  simp [axisByRatio, h]

/-- Beside an unspecified axis nothing is made of the ratio. -/
theorem axisByRatio_beside_unspecified {spec other : MeasureSpec} (h : other.mode = .unspecified)
    (hspec : spec.mode ≠ .unspecified) (byRatio : Int) :
    axisByRatio spec other byRatio = spec.size := by
  cases hmode : spec.mode with
  | exact => simp [axisByRatio, hmode]
  | atMost => simp [axisByRatio, hmode, MeasureSpec.isExact, h]
  | unspecified => exact absurd hmode hspec

/-- An axis that is specified settles both. -/
theorem sizeByRatio_of_agrees (hwidth : width.Agrees width') (hheight : height.Agrees height')
    (h : width.mode = .unspecified → height.mode ≠ .unspecified) (ratio : R) :
    sizeByRatio width height ratio = sizeByRatio width' height' ratio := by
  rcases hwidth.eq_or with rfl | ⟨hw, hw'⟩
  · rcases hheight.eq_or with rfl | ⟨hh, hh'⟩
    · rfl
    · have hspec : width.mode ≠ .unspecified := fun hw => h hw hh
      simp only [sizeByRatio, axisByRatio_beside_unspecified hh hspec,
        axisByRatio_beside_unspecified hh' hspec, axisByRatio_of_unspecified hh,
        axisByRatio_of_unspecified hh']
  · obtain rfl := hheight.eq_or.resolve_right fun hh => h hw hh.1
    simp only [sizeByRatio, axisByRatio_beside_unspecified hw (h hw),
      axisByRatio_beside_unspecified hw' (h hw), axisByRatio_of_unspecified hw,
      axisByRatio_of_unspecified hw']

theorem sizeByRatio_of_unspecified (hw : width.mode = .unspecified)
    (hh : height.mode = .unspecified) (ratio : R) :
    sizeByRatio width height ratio =
      ⟨Scalar.truncate (Scalar.ofInt height.size * ratio),
        Scalar.truncate (Scalar.ofInt width.size / ratio)⟩ := by
  rw [sizeByRatio, axisByRatio_of_unspecified hw, axisByRatio_of_unspecified hh]

/-! ## In a pass -/

namespace Sizing

variable {s : Setting} {children : List Child} {plan : Plan} {p : Pass R}

omit [Scalar R] in
theorem work_map_apply {α β : Type} (f : α → β) (x : Work R α) (p : Pass R) :
    (f <$> x) p = ((x p).1.map f, (x p).2) :=
  congrFun (ExceptT.run_map f x) p

theorem bindContainer_of_agrees {spec spec' : MeasureSpec} (h : spec.Agrees spec') (a : Attribute) :
    (bindContainer a spec : Work R Unit) = bindContainer a spec' := by
  rcases h.eq_or with rfl | ⟨hmode, hmode'⟩
  · rfl
  · simp only [bindContainer, hmode, hmode']

theorem reportAxis_of_agrees {spec spec' : MeasureSpec} (h : spec.Agrees spec') (solved : R)
    (padding : Int) : reportAxis spec solved padding = reportAxis spec' solved padding := by
  rcases h.eq_or with rfl | ⟨hmode, hmode'⟩
  · rfl
  · simp [reportAxis, MeasureSpec.isExact, hmode, hmode']

/-- The plan for other specs that ask the children the same. -/
def Plan.asked (plan : Plan) (width height : MeasureSpec) : Plan := { plan with width, height }

/-- A pass for specs that agree asks the same; the plan carries its own specs along. -/
theorem begin_of_agrees (hwidth : width.Agrees width') (hheight : height.Agrees height')
    (s : Setting) (children : List Child) :
    (begin s children width height : Work R Plan) =
      (fun plan => plan.asked width height) <$> begin s children width' height' := by
  unfold begin
  simp only [map_bind, map_pure, hwidth.text, hheight.text, hwidth.mode, hheight.mode,
    bindContainer_of_agrees (hwidth.shrink _), bindContainer_of_agrees (hheight.shrink _),
    Plan.asked]

theorem begin_specs {p' : Pass R} (h : begin s children width height p = (.ok plan, p')) :
    plan.width = width ∧ plan.height = height := by
  have hsame := congrFun (begin_of_agrees (R := R) (.refl width) (.refl height) s children) p
  rw [work_map_apply, h] at hsame
  have hplan : plan = plan.asked width height := Except.ok.inj (Prod.mk.inj hsame).1
  rw [hplan]
  exact ⟨rfl, rfl⟩

theorem run_asked {σ : Type} (plan : Plan) (width height : MeasureSpec)
    (host : Handle → MeasureSpec → MeasureSpec → StateM σ Size) (st : σ) :
    (plan.asked width height).run host st =
      ((plan.run host st).1.asked width height, (plan.run host st).2) := rfl

/-- The report of an axis reads the size of an exact one only. -/
theorem finish_of_agrees (hwidth : width.Agrees width') (hheight : height.Agrees height')
    (s : Setting) (plan : Plan) :
    (finish s (plan.asked width height) : Work R Report) =
      finish s (plan.asked width' height') := by
  simp only [finish, Plan.asked, reportAxis_of_agrees hwidth, reportAxis_of_agrees hheight]

/-- Passes for specs that agree are the same pass. -/
theorem measure_of_agrees {σ : Type} (hwidth : width.Agrees width')
    (hheight : height.Agrees height') (s : Setting) (children : List Child)
    (host : Handle → MeasureSpec → MeasureSpec → StateM σ Size) (p : Pass R) (st : σ) :
    measure s children width height host p st = measure s children width' height' host p st := by
  have hbegin := congrFun (begin_of_agrees hwidth hheight s children) p
  rw [work_map_apply] at hbegin
  unfold measure
  rw [hbegin]
  cases hr : begin s children width' height' p with
  | mk r p' =>
    cases r with
    | error e => rfl
    | ok plan =>
      obtain ⟨rfl, rfl⟩ := begin_specs hr
      have hfinish := finish_of_agrees (R := R) hwidth hheight s (plan.run host st).1
      simp only [Except.map, run_asked, hfinish]
      rfl

end Sizing

/-! ## In a container -/

namespace Container

omit [Scalar R] in
theorem onModel_map {α β : Type} (c : Container R) (m : Model R) (f : α → β) (x : Sizing.Work R α) :
    c.onModel m (f <$> x) = ((c.onModel m x).1.map f, (c.onModel m x).2) := by
  unfold onModel
  rw [Sizing.work_map_apply]
  rfl

/-- A container with a model reports the same, and one without does as far as the size by ratio is
the same. -/
theorem measure_of_agrees {σ : Type} (hwidth : width.Agrees width')
    (hheight : height.Agrees height') (children : List Sizing.Child)
    (host : Container R → Handle → MeasureSpec → MeasureSpec → StateM σ Size) (c : Container R)
    (h : c.active? = none → sizeByRatio width height c.settings.aspectRatio =
      sizeByRatio width' height' c.settings.aspectRatio) (st : σ) :
    c.measure children width height host st = c.measure children width' height' host st := by
  unfold measure
  cases hactive : c.active? with
  | none => simp only [measurePlaceholder, h hactive, hwidth.text, hheight.text]
  | some m =>
    have hbegin := c.onModel_map m (fun plan => plan.asked width height)
      (Sizing.begin c.setting children width' height')
    rw [← Sizing.begin_of_agrees hwidth hheight] at hbegin
    dsimp only
    rw [hbegin]
    cases hr : c.onModel m (Sizing.begin c.setting children width' height') with
    | mk r c' =>
      cases r with
      | error e => rfl
      | ok plan =>
        obtain ⟨rfl, rfl⟩ := Sizing.begin_specs (Prod.ext (Prod.mk.inj hr).1 rfl)
        have hfinish := Sizing.finish_of_agrees (R := R) hwidth hheight c'.setting
          (plan.run (host c') st).1
        simp only [Except.map, Sizing.run_asked, hfinish]
        rfl

end Container

/-! ## What is read -/

namespace Sizing

/-- The size of an unspecified axis is read by the size by ratio alone: where both axes are
unspecified, and as far as it shows in what the other axis makes of it. -/
theorem size_of_unspecified_is_read_by_ratio_alone (hwidth : width.Agrees width')
    (hheight : height.Agrees height') :
    (∀ ratio : R, sizeByRatio width height ratio = sizeByRatio width' height' ratio ↔
      (width.mode = .unspecified → height.mode = .unspecified →
        (Scalar.truncate (Scalar.ofInt height.size * ratio) : Int) =
            Scalar.truncate (Scalar.ofInt height'.size * ratio) ∧
          (Scalar.truncate (Scalar.ofInt width.size / ratio) : Int) =
            Scalar.truncate (Scalar.ofInt width'.size / ratio))) ∧
      (∀ (s : Setting) (children : List Child) (p : Pass R),
        (begin s children width height p).2 = (begin s children width' height' p).2 ∧
          (begin s children width height p).1.map Plan.requests =
            (begin s children width' height' p).1.map Plan.requests) ∧
      (∀ (σ : Type) (s : Setting) (children : List Child)
        (host : Handle → MeasureSpec → MeasureSpec → StateM σ Size) (p : Pass R) (st : σ),
        measure s children width height host p st =
          measure s children width' height' host p st) ∧
      ∀ text, measureText text width height = measureText text width' height' := by
  refine ⟨fun ratio => ?_, fun s children p => ?_, fun _ s children host p st =>
    measure_of_agrees hwidth hheight s children host p st, fun text => ?_⟩
  · by_cases hboth : width.mode = .unspecified ∧ height.mode = .unspecified
    · obtain ⟨hw, hh⟩ := hboth
      rw [sizeByRatio_of_unspecified hw hh, sizeByRatio_of_unspecified (hwidth.mode ▸ hw)
        (hheight.mode ▸ hh), Size.mk.injEq]
      exact ⟨fun h _ _ => h, fun h => h hw hh⟩
    · have hone : width.mode = .unspecified → height.mode ≠ .unspecified := fun hw hh =>
        hboth ⟨hw, hh⟩
      exact ⟨fun _ hw hh => absurd hh (hone hw),
        fun _ => sizeByRatio_of_agrees hwidth hheight hone ratio⟩
  · have hbegin := congrFun (begin_of_agrees hwidth hheight s children) p
    rw [work_map_apply] at hbegin
    rw [hbegin]
    refine ⟨rfl, ?_⟩
    cases (begin s children width' height' p).1 with
    | error e => rfl
    | ok plan => rfl
  · simp only [measureText, hwidth.limit, hwidth.resolve, hheight.resolve]

/-- Beside a limited axis. -/
theorem size_of_unspecified_width_is_not_read :
    (⟨.unspecified, 7⟩ : MeasureSpec).Agrees .unspecified ∧
      (MeasureSpec.atMost 100).Agrees (.atMost 100) ∧
      sizeByRatio ⟨.unspecified, 7⟩ (.atMost 100) (2 : Rat) = ⟨200, 100⟩ ∧
      (measure { names := .ofList [(1, "label")] } [{ handle := 1 }] ⟨.unspecified, 7⟩
        (.atMost 100) (fixedHost fun _ => ⟨60, 10⟩)
        { model := modelOf ["label.width == label.intrinsicWidth", "parent.width == label.width"] }
        ()).1 = .ok ⟨⟨60, 0⟩, 2, 1, 1⟩ ∧
      measureText "ab cd" ⟨.unspecified, 3⟩ (.atMost 100) = ⟨5, 1⟩ := by
  have hwidth (n : Int) : (⟨.unspecified, n⟩ : MeasureSpec).Agrees .unspecified :=
    ⟨rfl, fun h => absurd rfl h⟩
  have hheight := MeasureSpec.Agrees.refl (.atMost 100)
  obtain ⟨hratio, -, hmeasure, -⟩ :=
    size_of_unspecified_is_read_by_ratio_alone (R := Rat) (hwidth 7) hheight
  obtain ⟨-, -, -, htext⟩ :=
    size_of_unspecified_is_read_by_ratio_alone (R := Rat) (hwidth 3) hheight
  refine ⟨hwidth 7, hheight, ?_, ?_, ?_⟩
  · rw [(hratio 2).2 fun _ hh => by cases hh]
    decide +kernel
  · rw [hmeasure]
    decide +kernel
  · rw [htext]
    decide +kernel

/-- Where both are unspecified the width is made of the size that goes along with the height. -/
theorem size_of_unspecified_height_is_read :
    (⟨.unspecified, 100⟩ : MeasureSpec).Agrees .unspecified ∧
      sizeByRatio .unspecified ⟨.unspecified, 100⟩ (2 : Float) = ⟨200, 0⟩ ∧
      sizeByRatio .unspecified .unspecified (2 : Float) = ⟨0, 0⟩ :=
  ⟨⟨rfl, fun h => absurd rfl h⟩, by decide +kernel, by decide +kernel⟩

end Sizing

end RegionLayout
