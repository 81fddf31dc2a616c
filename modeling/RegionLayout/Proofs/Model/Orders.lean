-- The order of the statements of a source. Whether a model is built and which layouts are best
-- depends on the relations as a whole, and a built model reports a best layout. So two orders
-- build the same geometry wherever one layout is the best. This takes an exact test for zero: with
-- the cut-offs of doubles the order can decide whether there is a model at all.
import RegionLayout.Proofs.Model.Building
import RegionLayout.Proofs.Statement.Linear
import Mathlib.Data.List.Perm.Basic

namespace RegionLayout

open Solver

variable {rs rs' : List (Relation Rat)} {ρ ρ' : AttributeRef → Rat} {ref : AttributeRef}

/-! ## Best layouts -/

/-- The measured sizes that the relations speak of, each once. -/
def measuredSizes (rs : List (Relation Rat)) : List AttributeRef :=
  ((rs.flatMap Relation.refs).filter (·.attr.isIntrinsic)).dedup

/-- What a layout is off by: the soft relations at their weights, and the measured sizes, which
are pulled strongly to zero. -/
def misfit (rs : List (Relation Rat)) (ρ : AttributeRef → Rat) : Rat :=
  (rs.map (·.regret ρ)).sum + Weight.strong * ((measuredSizes rs).map fun ref => |ρ ref|).sum

/-- The layout is proper and as the required relations say. -/
def Admits (rs : List (Relation Rat)) (ρ : AttributeRef → Rat) : Prop :=
  Proper (Spoken rs) ρ ∧ Satisfies ρ rs

/-- No layout that is admitted is off by less. -/
def Best (rs : List (Relation Rat)) (ρ : AttributeRef → Rat) : Prop :=
  Admits rs ρ ∧ ∀ ρ', Admits rs ρ' → misfit rs ρ ≤ misfit rs ρ'

/-- There is one best layout of what the relations speak of, and no other. -/
def Determined (rs : List (Relation Rat)) : Prop :=
  ∃ ρ, Best rs ρ ∧ ∀ ρ', Best rs ρ' → ∀ ref, Spoken rs ref → ρ' ref = ρ ref

theorem mem_measuredSizes :
    ref ∈ measuredSizes rs ↔ Spoken rs ref ∧ ref.attr.isIntrinsic = true := by
  simp only [measuredSizes, List.mem_dedup, List.mem_filter, List.mem_flatMap]
  refine and_congr_left fun hi => ?_
  simp [Spoken, Attribute.not_isPrimary hi]

theorem spoken_of_mem {r : Relation Rat} (hr : r ∈ rs) (href : ref ∈ r.refs) : Spoken rs ref :=
  .inl ⟨r, hr, href⟩

theorem misfit_congr (h : ∀ ref, Spoken rs ref → ρ ref = ρ' ref) : misfit rs ρ = misfit rs ρ' := by
  have hregrets : rs.map (·.regret ρ) = rs.map (·.regret ρ') := List.map_congr_left fun r hr =>
    Relation.regret_congr fun ref href => h ref (spoken_of_mem hr href)
  have hsizes : (measuredSizes rs).map (fun ref => |ρ ref|) =
      (measuredSizes rs).map fun ref => |ρ' ref| := List.map_congr_left fun ref href => by
    rw [h ref (mem_measuredSizes.1 href).1]
  rw [misfit, misfit, hregrets, hsizes]

/-! ## Relations in another order -/

section Order

variable (h : rs.Perm rs')

include h

theorem spoken_perm (ref : AttributeRef) : Spoken rs ref ↔ Spoken rs' ref := by
  simp only [Spoken, h.mem_iff]

theorem satisfies_perm : Satisfies ρ rs ↔ Satisfies ρ rs' := by
  simp only [Satisfies, h.mem_iff]

theorem possible_perm : Possible rs ↔ Possible rs' :=
  exists_congr fun _ => and_congr_right fun _ => satisfies_perm h

theorem misfit_perm (ρ : AttributeRef → Rat) : misfit rs ρ = misfit rs' ρ := by
  have hsizes : (measuredSizes rs).Perm (measuredSizes rs') :=
    ((h.flatMap_right _).filter _).dedup
  rw [misfit, misfit, (h.map _).sum_eq, (hsizes.map _).sum_eq]

theorem admits_perm : Admits rs ρ ↔ Admits rs' ρ := by
  have hspoken : Spoken rs = Spoken rs' := funext fun ref => propext (spoken_perm h ref)
  rw [Admits, Admits, hspoken, satisfies_perm h]

theorem best_perm : Best rs ρ ↔ Best rs' ρ := by
  simp only [Best, admits_perm h, misfit_perm h]

end Order

/-! ## What a built model reports -/

namespace Model

variable {m m' : Model Rat} {x : Variable → Rat} {name : String}

/-- A built model has a variable for just what its relations speak of. -/
theorem Built.has_iff (h : Built rs m) : m.Has ref ↔ Spoken rs ref := by
  refine ⟨fun hh => h.fresh.asked hh, ?_⟩
  rintro (⟨r, hr, href⟩ | ⟨hp, hname⟩)
  · exact h.resolved (h.relations ▸ hr) href
  · obtain ⟨n, a⟩ := ref
    rcases hname with rfl | ⟨r, hr, other, hother, rfl⟩
    · exact h.primary (if_pos rfl) hp
    · exact h.has_primary (h.resolved (h.relations ▸ hr) hother) hp

theorem Built.has_eq (h : Built rs m) : m.Has = Spoken rs :=
  funext fun _ => propext h.has_iff

theorem Built.admits_iff (h : Built rs m) : m.Obeys x ↔ Admits rs (m.reading x) := by
  rw [Obeys, Admits, h.has_eq, h.relations]

/-- The ties of a built model pull its measured sizes to zero. -/
theorem Built.ties_perm (h : Built rs m) :
    m.ties.Perm ((measuredSizes rs).map fun ref => ⟨m.seat ref, .equal, 0⟩) := by
  have hseat {ref : AttributeRef} (href : ref ∈ measuredSizes rs) :
      m.varOf? ref = some (m.seat ref) := varOf?_seat (h.has_iff.2 (mem_measuredSizes.1 href).1)
  -- no attribute shares its variable, so neither list has a tie twice
  refine (List.perm_ext_iff_of_nodup m.nodup_ties ((List.nodup_dedup _).map_on ?_)).2 fun t => ?_
  · intro ref href ref' href' heq
    have hsame : m.seat ref = m.seat ref' := (Tie.mk.inj heq).1
    exact h.own (hseat href) (hsame ▸ hseat href')
  · obtain ⟨v, c, y⟩ := t
    rw [mem_ties, h.fresh.pulls, h.fresh.bindings, List.mem_map]
    constructor
    · rintro (⟨rfl, rfl, n, a, hi, hv⟩ | ⟨-, hnone⟩)
      · refine ⟨⟨n, a⟩, mem_measuredSizes.2 ⟨h.has_iff.1 ⟨v, hv⟩, hi⟩, ?_⟩
        rw [seat, hv]
        rfl
      · cases hnone
    · rintro ⟨⟨n, a⟩, href, heq⟩
      obtain ⟨rfl, rfl, rfl⟩ := Tie.mk.inj heq
      exact .inl ⟨rfl, rfl, n, a, (mem_measuredSizes.1 href).2, hseat href⟩

/-- What the values of the variables fall short of is what their layout is off by. -/
theorem Built.discord_eq (h : Built rs m) : m.discord x = misfit rs (m.reading x) := by
  have hoff : ((measuredSizes rs).map fun ref => (⟨m.seat ref, .equal, 0⟩ : Tie)).map (·.off x) =
      (measuredSizes rs).map fun ref => |m.reading x ref| := by
    rw [List.map_map]
    refine List.map_congr_left fun ref href => ?_
    have hv := varOf?_seat (h.has_iff.2 (mem_measuredSizes.1 href).1)
    rw [Function.comp_apply, reading_some hv]
    exact congrArg abs (sub_zero _)
  rw [discord, strain_perm h.ties_perm, strain, hoff, wishes, h.relations, misfit]

/-- A built model reports a best layout of its relations. -/
theorem Built.best (h : Built rs m) : Best rs m.reported := by
  rw [h.reported]
  refine ⟨h.admits_iff.1 h.kept.value, fun ρ hρ => ?_⟩
  -- a layout that is admitted is one that the variables can take, so they are off by no more
  have hread : ∀ ref, Spoken rs ref → m.reading (m.assigned ρ) ref = ρ ref := fun ref href =>
    h.reading_assigned (h.has_iff.2 href)
  have hobeys : m.Obeys (m.assigned ρ) := by
    refine ⟨h.proper_assigned (h.has_eq ▸ hρ.1), fun r hr hq => ?_⟩
    rw [h.relations] at hr
    exact (Relation.holds_congr fun ref href => hread ref (spoken_of_mem hr href)).2 (hρ.2 r hr hq)
  have hleast := h.least hobeys
  rw [h.discord_eq, h.discord_eq, misfit_congr hread] at hleast
  exact hleast

/-- The geometry of a region is what is reported of its attributes. -/
theorem geometry_congr (hm : m.Mapped) (hm' : m'.Mapped) (hhas : ∀ ref, m.Has ref ↔ m'.Has ref)
    (h : ∀ ref, m.Has ref → m.reported ref = m'.reported ref) (name : String) :
    m.geometry name = m'.geometry name := by
  have hread : ∀ ref, (m.varOf? ref).map m.valueOf = (m'.varOf? ref).map m'.valueOf := fun ref => by
    cases hv : m.varOf? ref with
    | none =>
      cases hv' : m'.varOf? ref with
      | none => rfl
      | some v' =>
        obtain ⟨v, hv₀⟩ := (hhas ref).2 ⟨v', hv'⟩
        cases hv.symm.trans hv₀
    | some v =>
      obtain ⟨v', hv'⟩ := (hhas ref).1 ⟨v, hv⟩
      rw [hv', Option.map_some, Option.map_some, ← reported_of_some hv, ← reported_of_some hv',
        h ref ⟨v, hv⟩]
  cases hr : m.region? name with
  | none =>
    cases hr' : m'.region? name with
    | none => simp [geometry, Model.region, hr, hr']
    | some r' =>
      obtain ⟨v, hv⟩ := (hhas _).2 (hm'.primary hr' (a := .left) rfl)
      simp [varOf?, hr] at hv
  | some r =>
    obtain ⟨r', hr'⟩ := region_of_has ((hhas _).1 (hm.primary hr (a := .left) rfl))
    have hget : ∀ a, (r.get? a).map m.valueOf = (r'.get? a).map m'.valueOf := fun a => by
      rw [← varOf?_of_region hr, ← varOf?_of_region hr', hread]
    simp [geometry, Model.region, hr, hr', geometryOf, hget]

/-- Where one layout is the best, the order of the relations leaves the geometry as it is. -/
theorem Built.geometry_eq (h : Built rs m) (h' : Built rs' m') (hperm : rs.Perm rs')
    (hone : Determined rs) (name : String) : m.geometry name = m'.geometry name := by
  obtain ⟨ρ, -, honly⟩ := hone
  refine geometry_congr h.toMapped h'.toMapped (fun ref => ?_) (fun ref hh => ?_) name
  · rw [h.has_iff, h'.has_iff, spoken_perm hperm]
  · have hspoken := h.has_iff.1 hh
    calc m.reported ref = ρ ref := honly _ h.best ref hspoken
      _ = m'.reported ref := (honly _ ((best_perm hperm).2 h'.best) ref hspoken).symm

end Model

/-! ## Statements in another order -/

variable {texts texts' : List String} {density : Rat}

/-- What the statements say in another order is what they said, in another order. -/
theorem relations_perm (h : texts.Perm texts')
    (hrs : texts.mapM (Relation.parse · density) = .ok rs) :
    ∃ rs', texts'.mapM (Relation.parse · density) = .ok rs' ∧ rs.Perm rs' := by
  obtain ⟨rs', hrs', hperm⟩ := List.perm_comp_forall₂ h.symm (mapM_eq_ok_iff.1 hrs)
  exact ⟨rs', mapM_eq_ok_iff.2 hrs', hperm.symm⟩

/-- Statements that can be read and met are so in another order. -/
theorem possible_texts_perm (h : texts.Perm texts')
    (hp : ∃ rs, texts.mapM (Relation.parse · density) = .ok rs ∧ Possible rs) :
    ∃ rs, texts'.mapM (Relation.parse · density) = .ok rs ∧ Possible rs := by
  obtain ⟨rs, hrs, hpossible⟩ := hp
  obtain ⟨rs', hrs', hperm⟩ := relations_perm h hrs
  exact ⟨rs', hrs', (possible_perm hperm).1 hpossible⟩

namespace Model

/-- A container that is as wide as the host measures, and a wish for ten pixels that is too weak
to count against that. -/
def wishedWidth : List String :=
  ["parent.width == 10 !weak", "parent.width == parent.intrinsicWidth", "parent.height == 20"]

def wishedWidthRelations : List (Relation Rat) :=
  [⟨"parent.width == 10 !weak", ⟨containerName, .width⟩, .equal, .ofConstant 10, .weak⟩,
    ⟨"parent.width == parent.intrinsicWidth", ⟨containerName, .width⟩, .equal,
      .ofRef ⟨containerName, .intrinsicWidth⟩, .required⟩,
    ⟨"parent.height == 20", ⟨containerName, .height⟩, .equal, .ofConstant 20, .required⟩]

theorem misfit_wishedWidth (ρ : AttributeRef → Rat) : misfit wishedWidthRelations ρ =
    |ρ ⟨containerName, .width⟩ - 10| + 1000000 * |ρ ⟨containerName, .intrinsicWidth⟩| := by
  have hsizes : measuredSizes wishedWidthRelations = [⟨containerName, .intrinsicWidth⟩] := by
    decide +kernel
  rw [misfit, hsizes]
  simp [wishedWidthRelations, Relation.regret, Strength.weight, Weight.weak, Weight.strong,
    Comparator.violation]

theorem satisfies_wishedWidth : Satisfies ρ wishedWidthRelations ↔
    ρ ⟨containerName, .width⟩ = ρ ⟨containerName, .intrinsicWidth⟩ ∧
      ρ ⟨containerName, .height⟩ = 20 := by
  simp [Satisfies, wishedWidthRelations, Relation.Holds, Comparator.Holds, sub_eq_zero]

theorem spoken_wishedWidth (h : Spoken wishedWidthRelations ref) : ref.region = containerName ∧
    (ref.attr.isPrimary = true ∨ ref.attr = .intrinsicWidth) := by
  have hnames : ∀ r ∈ wishedWidthRelations, ∀ ref ∈ r.refs, ref.region = containerName ∧
      (ref.attr.isPrimary = true ∨ ref.attr = .intrinsicWidth) := by decide +kernel
  rcases h with ⟨r, hr, href⟩ | ⟨hp, hname | ⟨r, hr, other, hother, hname⟩⟩
  · exact hnames r hr ref href
  · exact ⟨hname, .inl hp⟩
  · exact ⟨hname ▸ (hnames r hr other hother).1, .inl hp⟩

/-- No width, and the height that is asked for. -/
def noWidth (ref : AttributeRef) : Rat :=
  match ref.attr with
  | .height => 20
  | .centerY => 10
  | _ => 0

theorem admits_noWidth : Admits wishedWidthRelations noWidth := by
  refine ⟨⟨fun _ axis => ?_, fun axis => ?_, fun _ a axis ha _ => ?_⟩, ?_⟩
  · cases axis <;> simp [noWidth, Axis.size]
  · cases axis <;> simp [noWidth, Axis.origin]
  · cases a <;> cases ha <;> simp [noWidth, Axis.size, Axis.origin]
    norm_num
  · simp [satisfies_wishedWidth, noWidth]

/-- The best layout has no width, and the wish misses all of its ten pixels. -/
theorem determined_wishedWidth : Determined wishedWidthRelations := by
  have hbest : misfit wishedWidthRelations noWidth = 10 := by
    simp [misfit_wishedWidth, noWidth]
  have hsize : ∀ ρ, Admits wishedWidthRelations ρ → 0 ≤ ρ ⟨containerName, .width⟩ :=
    fun ρ hρ => hρ.1.sizes containerName .horizontal
  have hwide : ∀ ρ, Admits wishedWidthRelations ρ →
      10 + 999999 * ρ ⟨containerName, .width⟩ ≤ misfit wishedWidthRelations ρ := fun ρ hρ => by
    have hwish := neg_le_abs (ρ ⟨containerName, .width⟩ - 10)
    rw [misfit_wishedWidth, ← (satisfies_wishedWidth.1 hρ.2).1, abs_of_nonneg (hsize ρ hρ)]
    linarith
  refine ⟨noWidth, ⟨admits_noWidth, fun ρ hρ => by linarith [hsize ρ hρ, hwide ρ hρ]⟩,
    fun ρ hρ ref href => ?_⟩
  have hwidth : ρ ⟨containerName, .width⟩ = 0 := by
    linarith [hsize ρ hρ.1, hwide ρ hρ.1, hρ.2 noWidth admits_noWidth]
  obtain ⟨hmeasured, hheight⟩ := satisfies_wishedWidth.1 hρ.1.2
  obtain ⟨n, a⟩ := ref
  obtain ⟨rfl, ha⟩ := spoken_wishedWidth href
  cases a with
  | left => exact hρ.1.1.pins .horizontal
  | top => exact hρ.1.1.pins .vertical
  | width => exact hwidth
  | height => exact hheight
  | intrinsicWidth => exact hmeasured.symm.trans hwidth
  | centerX | centerY | intrinsicHeight => simp [Attribute.isPrimary, Attribute.primary] at ha

end Model

/-! ## With the cut-offs of doubles -/

/-- Rationals that keep the cut-offs of doubles: the computation without its rounding. -/
structure Coarse where
  exact : Rat

instance : Scalar Coarse where
  add x y := ⟨x.exact + y.exact⟩
  sub x y := ⟨x.exact - y.exact⟩
  mul x y := ⟨x.exact * y.exact⟩
  div x y := ⟨x.exact / y.exact⟩
  neg x := ⟨-x.exact⟩
  lt x y := x.exact < y.exact
  le x y := x.exact ≤ y.exact
  beq x y := x.exact == y.exact
  decLt x y := inferInstanceAs (Decidable (x.exact < y.exact))
  decLe x y := inferInstanceAs (Decidable (x.exact ≤ y.exact))
  ofNat n := ⟨⟨n⟩⟩
  ofInt n := ⟨Scalar.ofInt n⟩
  ofDecimal d := ⟨Scalar.ofDecimal d⟩
  nearZero x := |x.exact| < 1 / 10 ^ 8
  cancels x := |x.exact| < 1 / 10 ^ 12
  survives x := 1 / 10 ^ 12 ≤ |x.exact|
  belowCeiling x := Scalar.belowCeiling x.exact
  isFinite x := Scalar.isFinite x.exact
  round x := Scalar.round x.exact
  truncate x := Scalar.truncate x.exact
  text x := Scalar.text x.exact
  toFloat x := Scalar.toFloat x.exact

namespace Model

/-- `a.width` as `b.width` taken once and a `2 ^ 28`-th part of a time. -/
def stretched : String := "a.width == b.width * 1.0000000037252902984619140625"

/-- `a.width` as a pixel more than `b.width`, which the stretch comes to where that is `2 ^ 28`. -/
def widened : String := "a.width == b.width + 1"

def fixedWidth : String := "b.width == 268435456"

end Model

end RegionLayout
