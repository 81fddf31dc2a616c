-- What a batch makes before its first relation is added: the regions that its relations name and
-- the attributes that they have left. Only the solver can stop it there.
import RegionLayout.Proofs.Model.Charts

namespace RegionLayout

open Solver

/-! ## What a demand asks for -/

namespace Demand

variable {R : Type} [Scalar R] {rs : List (Relation R)} {ref : AttributeRef}

/-- The attribute is listed, or it is a primary one of a region that is. -/
def Asks (d : Demand) (ref : AttributeRef) : Prop :=
  ∃ attributes, (ref.region, attributes) ∈ d.toList ∧
    (ref.attr.isPrimary = true ∨ ref.attr ∈ attributes)

theorem asks_ofRelations : (ofRelations rs).Asks ref ↔ (∃ r ∈ rs, ref ∈ r.refs) ∨
    ref.attr.isPrimary = true ∧ ∃ r ∈ rs, ∃ other ∈ r.refs, other.region = ref.region := by
  constructor
  · rintro ⟨attributes, hmem, hp | ha⟩
    · exact .inr ⟨hp, named_of_mem hmem⟩
    · exact .inl (mem_ofRelations.1 ⟨attributes, hmem, ha⟩)
  · rintro (hr | ⟨hp, r, hr, other, hother, hn⟩)
    · obtain ⟨attributes, hmem, ha⟩ := mem_ofRelations.2 hr
      exact ⟨attributes, hmem, .inr ha⟩
    · obtain ⟨attributes, hmem, -⟩ := mem_ofRelations.2 ⟨r, hr, hother⟩
      exact ⟨attributes, hn ▸ hmem, .inl hp⟩

end Demand

namespace Model

variable {R : Type} [Scalar R] {m m' m₁ : Model R} {ref : AttributeRef} {v : Variable}
  {name : String} {a : Attribute} {region : Region} {D : AttributeRef → Prop}
  {I : Model R → Prop} {E : LayoutError → Model R → Prop}

/-! ## One region -/

theorem ensureRegion_of_some (h : m.region? name = some region) :
    ensureRegion name m = (.ok (), m) := by
  rw [ensureRegion, get_bind, h]
  rfl

theorem ensureRegion_of_none (h : m.region? name = none) : ensureRegion name m =
    (installSizes (.make name m.nextVariable) >>= fun _ =>
      putRegion (.make name m.nextVariable)) { m with nextVariable := m.nextVariable + 4 } := by
  rw [ensureRegion, get_bind, h]
  rfl

omit [Scalar R] in
theorem widened_make (hnone : m.region? name = none)
    (hD : ∀ b, b.isPrimary = true → D ⟨name, b⟩) :
    m.Widened 4 D (.make name m.nextVariable) := by
  have hno (b : Attribute) : m.slot? ⟨name, b⟩ = none := by
    rw [slot?, hnone, Option.bind_none]
  have split {b : Attribute} {v : Variable}
      (hv : (Region.make name m.nextVariable).get? b = some v) :
      b.isPrimary = true ∧ v = ⟨m.nextVariable + b.rank⟩ := by
    rw [get?_make] at hv
    split at hv
    · exact ⟨‹_›, (Option.some.inj hv).symm⟩
    · cases hv
  refine ⟨fun {b v} hv => ?_, fun {b v} hv => ?_, fun {b b' v} hv hv' => ?_, fun {b} hb => ?_⟩
  · cases (hno b).symm.trans hv
  · obtain ⟨hb, rfl⟩ := split hv
    exact .inr ⟨hno b, hD b hb, Nat.le_add_right _ _,
      Nat.add_lt_add_left (Attribute.rank_lt_of_primary hb) _⟩
  · obtain ⟨-, rfl⟩ := split hv
    obtain ⟨-, heq⟩ := split hv'
    exact Attribute.rank_injective (Nat.add_left_cancel (Variable.mk.inj heq))
  · exact ⟨_, (get?_make _ _ b).trans (if_pos hb)⟩

/-- A region that is not there yet is made with variables that were not given out. -/
theorem Charted.ensureRegion (h : m.Charted) (hD : ∀ b, b.isPrimary = true → D ⟨name, b⟩) :
    Comes False (fun e m' => (∃ fault, e = .solver fault) ∧ m'.Charted ∧ Grows D m m')
      (fun _ m' => (m'.Charted ∧ Grows D m m') ∧ ∃ r, m'.region? name = some r)
      (ensureRegion name m) := by
  cases hreg : m.region? name with
  | some r =>
    rw [ensureRegion_of_some hreg]
    exact .ok ⟨⟨h, .refl m⟩, r, hreg⟩
  | none =>
    let m₀ : Model R := { m with nextVariable := m.nextVariable + 4 }
    have hm₀ : m₀.Charted ∧ Grows D m m₀ :=
      ⟨⟨h.names, h.apart, h.primary, fun hv => (h.before hv).trans_le (Nat.le_add_right _ _),
        h.own, fun hx => (h.noted hx).trans_le (Nat.le_add_right _ _)⟩,
        ⟨id, .inl, Nat.le_add_right _ _⟩, rfl⟩
    rw [ensureRegion_of_none hreg]
    refine Comes.bind (((aside_bare.unmoved.installSizes _).comes
      (onlyFaults_installSizes (u := ⟨m.nextVariable + 2⟩) (v := ⟨m.nextVariable + 3⟩) rfl rfl
        m₀)).mono id (fun e m' he => ?_) fun _ _ hb => hb) fun _ m₁ hb => .ok ⟨?_, ?_⟩
    · exact ⟨he.1, hm₀.1.of_bare he.2, hm₀.2.of_bare he.2⟩
    · have hw := widened_make hreg hD
      exact ⟨h.put (eq_of_bare hb) hw, hw.grows (eq_of_bare hb)⟩
    · exact ⟨_, region?_put.trans (if_pos rfl)⟩

/-! ## One attribute -/

/-- The model with a variable for one attribute more. -/
def extend (m : Model R) (region : Region) (a : Attribute) : Model R :=
  put { m with nextVariable := m.nextVariable + 1 }
    { region with vars := region.vars.insert a ⟨m.nextVariable⟩ }

/-- What is required of a new variable of an attribute. -/
def seating (r : Region) (a : Attribute) (v : Variable) : Change R Unit :=
  match a.centerAxis? with
  | some axis => installCenter r axis v
  | none => if a.isIntrinsic then installIntrinsic v else pure ()

theorem ensureAttribute_of_some (hr : m.region? name = some region)
    (hv : m.slot? ⟨name, a⟩ = some v) : ensureAttribute name a m = (.ok (), m) := by
  rw [slot?_of_region hr] at hv
  have hhas : region.has a = true := (SortedMap.contains_eq_true_iff _).2 ⟨v, hv⟩
  rw [ensureAttribute, ask_bind (region_eq_ok_iff.2 hr), hhas]
  rfl

theorem ensureAttribute_of_none (hr : m.region? name = some region)
    (hnone : m.slot? ⟨name, a⟩ = none) : ensureAttribute name a m =
      seating { region with vars := region.vars.insert a ⟨m.nextVariable⟩ } a ⟨m.nextVariable⟩
        (m.extend region a) := by
  rw [slot?_of_region hr] at hnone
  have hhas : region.has a = false := (SortedMap.contains_eq_false_iff _).2 hnone
  rw [ensureAttribute, ask_bind (region_eq_ok_iff.2 hr), hhas]
  rfl

omit [Scalar R] in
theorem Charted.widened_insert (h : m.Charted) (hr : m.region? name = some region)
    (hnone : m.slot? ⟨name, a⟩ = none) (hD : D ⟨name, a⟩) :
    m.Widened 1 D { region with vars := region.vars.insert a ⟨m.nextVariable⟩ } := by
  obtain rfl := h.names hr
  have hget (b : Attribute) : (region.vars.insert a ⟨m.nextVariable⟩).get? b =
      if b = a then some ⟨m.nextVariable⟩ else m.slot? ⟨region.name, b⟩ := by
    rw [SortedMap.get?_insert, slot?_of_region hr]
    rfl
  refine ⟨fun {b v} hv => ?_, fun {b v} hv => ?_, fun {b b' v} hv hv' => ?_, fun {b} hb => ?_⟩
  · refine (hget b).trans ?_
    rw [if_neg]
    · exact hv
    · rintro rfl
      cases hnone.symm.trans hv
  · replace hv := (hget b).symm.trans hv
    split at hv
    · subst b
      obtain rfl := Option.some.inj hv
      exact .inr ⟨hnone, hD, le_rfl, Nat.lt_succ_self _⟩
    · exact .inl hv
  · replace hv := (hget b).symm.trans hv
    replace hv' := (hget b').symm.trans hv'
    split at hv <;> split at hv'
    · simp only [*]
    · obtain rfl := Option.some.inj hv
      exact absurd (h.before hv') (lt_irrefl _)
    · obtain rfl := Option.some.inj hv'
      exact absurd (h.before hv) (lt_irrefl _)
    · exact congrArg AttributeRef.attr (h.own hv hv')
  · obtain ⟨v, hv⟩ := h.primary hr hb
    refine ⟨v, (hget b).trans ?_⟩
    rw [if_neg]
    · exact hv
    · rintro rfl
      cases hnone.symm.trans hv

omit [Scalar R] in
theorem Charted.extend (h : m.Charted) (hr : m.region? name = some region)
    (hnone : m.slot? ⟨name, a⟩ = none) (hD : D ⟨name, a⟩) :
    (m.extend region a).Charted ∧ Grows D m (m.extend region a) :=
  have hw := h.widened_insert hr hnone hD
  ⟨h.put rfl hw, hw.grows rfl⟩

omit [Scalar R] in
theorem region?_extend (hname : region.name = name) (n : String) :
    (m.extend region a).region? n = if n = name then
      some { region with vars := region.vars.insert a ⟨m.nextVariable⟩ } else m.region? n := by
  rw [extend, region?_put, ← hname]
  rfl

omit [Scalar R] in
theorem region?_extend_self (hname : region.name = name) :
    (m.extend region a).region? name =
      some { region with vars := region.vars.insert a ⟨m.nextVariable⟩ } :=
  (region?_extend hname name).trans (if_pos rfl)

omit [Scalar R] in
theorem slot?_extend (hname : region.name = name) (hr : m.region? name = some region)
    (ref : AttributeRef) : (m.extend region a).slot? ref =
      if ref = ⟨name, a⟩ then some ⟨m.nextVariable⟩ else m.slot? ref := by
  subst hname
  obtain ⟨n, b⟩ := ref
  rw [Model.extend, slot?_put]
  by_cases hn : n = region.name
  · subst hn
    rw [if_pos rfl, slot?_of_region hr]
    change (region.vars.insert a _).get? b = _
    rw [SortedMap.get?_insert]
    simp [Region.get?]
  · rw [if_neg hn, if_neg fun he => hn (congrArg AttributeRef.region he)]
    rfl

theorem onlyFaults_seating (hp : ∀ b, b.isPrimary = true → ∃ v, region.get? b = some v)
    (a : Attribute) (v : Variable) (m : Model R) : OnlyFaults (seating region a v m) := by
  unfold seating
  cases a.centerAxis? with
  | some axis =>
    obtain ⟨o, ho⟩ := hp axis.origin axis.origin_isPrimary
    obtain ⟨s, hs⟩ := hp axis.size axis.size_isPrimary
    exact onlyFaults_installCenter ho hs v m
  | none =>
    cases a.isIntrinsic with
    | true => exact onlyFaults_installIntrinsic v m
    | false => exact .ok trivial

theorem Unmoved.seating {γ : Type} {view : Model R → γ} (h : Unmoved view) (r : Region)
    (a : Attribute) (v : Variable) : Keeps view (seating r a v : Change R Unit) := by
  unfold Model.seating
  cases a.centerAxis? with
  | some axis => exact h.installCenter _ _ _
  | none =>
    cases a.isIntrinsic with
    | true => exact h.installIntrinsic _
    | false => exact keeps_pure _

/-- An attribute that is not there yet is made with a variable that was not given out. -/
theorem Charted.ensureAttribute (h : m.Charted) (hr : m.region? name = some region)
    (hD : D ⟨name, a⟩) :
    Comes False (fun e m' => (∃ fault, e = .solver fault) ∧ m'.Charted ∧ Grows D m m')
      (fun _ m' => (m'.Charted ∧ Grows D m m') ∧ ∃ v, m'.slot? ⟨name, a⟩ = some v)
      (ensureAttribute name a m) := by
  cases hv : m.slot? ⟨name, a⟩ with
  | some v =>
    rw [ensureAttribute_of_some hr hv]
    exact .ok ⟨⟨h, .refl m⟩, v, hv⟩
  | none =>
    obtain ⟨hc, hg⟩ := h.extend hr hv hD
    have hw := h.widened_insert hr hv hD
    rw [ensureAttribute_of_none hr hv]
    refine ((aside_bare.unmoved.seating _ _ _).comes (onlyFaults_seating (fun b hb => hw.primary hb) _ _
      _)).mono id (fun e m' he => ⟨he.1, hc.of_bare he.2, hg.of_bare he.2⟩) fun _ m' hb =>
        ⟨⟨hc.of_bare hb, hg.of_bare hb⟩, ⟨m.nextVariable⟩, ?_⟩
    rw [eq_of_bare hb]
    exact (slot?_extend (h.names hr) hr _).trans (if_pos rfl)

/-! ## All that is asked for -/

/-- The attributes are made one after the other, and `I` holds afterwards if making one keeps it. -/
theorem Charted.ensureAttributes (h : m.Charted) {attributes : List Attribute}
    (hr : ∃ r, m.region? name = some r) (hD : ∀ a ∈ attributes, D ⟨name, a⟩) (hI : I m)
    (hmade : ∀ m a region, a ∈ attributes → m.Charted → I m → m.region? name = some region →
      Serves (fun _ m' => I m') (Model.ensureAttribute name a m)) :
    Comes False (fun e m' => (∃ fault, e = .solver fault) ∧ m'.Charted ∧ Grows D m m')
      (fun _ m' => (m'.Charted ∧ Grows D m m') ∧ I m' ∧
        ∀ a ∈ attributes, ∃ v, m'.slot? ⟨name, a⟩ = some v)
      (attributes.forM (Model.ensureAttribute name) m) := by
  induction attributes generalizing m with
  | nil => exact .ok ⟨⟨h, .refl m⟩, hI, by simp⟩
  | cons a rest ih =>
    obtain ⟨region, hreg⟩ := hr
    have ha : a ∈ a :: rest := List.mem_cons_self
    refine Comes.bind (((h.ensureAttribute hreg (hD a ha)).both
      (hmade m a region ha h hI hreg)).mono id (fun _ _ he => he.1) fun _ _ hq => hq)
      fun _ m₁ ⟨⟨⟨h₁, hg₁⟩, v, hv⟩, hI₁⟩ => ?_
    obtain ⟨r₁, hr₁, -⟩ := region_of_slot hv
    refine (ih h₁ ⟨r₁, hr₁⟩ (fun b hb => hD b (List.mem_cons_of_mem _ hb)) hI₁
      fun m b region hb => hmade m b region (List.mem_cons_of_mem _ hb)).mono id
      (fun e m' he => ⟨he.1, he.2.1, hg₁.trans he.2.2⟩) fun _ m₂ ⟨⟨h₂, hg₂⟩, hI₂, hall⟩ =>
        ⟨⟨h₂, hg₁.trans hg₂⟩, hI₂, fun b hb => ?_⟩
    rcases List.mem_cons.1 hb with rfl | hb
    · exact ⟨v, hg₂.kept hv⟩
    · exact hall b hb

/-- A region has its edges and sizes and what else is asked for it. -/
theorem Charted.ensureEntry (h : m.Charted) {attributes : List Attribute}
    (hD : ∀ a, a.isPrimary = true ∨ a ∈ attributes → D ⟨name, a⟩)
    (hregion : Serves (fun _ m' => I m') (Model.ensureRegion name m))
    (hattribute : ∀ m a region, a ∈ attributes → m.Charted → I m → m.region? name = some region →
      Serves (fun _ m' => I m') (Model.ensureAttribute name a m)) :
    Comes False (fun e m' => (∃ fault, e = .solver fault) ∧ m'.Charted ∧ Grows D m m')
      (fun _ m' => (m'.Charted ∧ Grows D m m') ∧ I m' ∧
        ∀ a, a.isPrimary = true ∨ a ∈ attributes → ∃ v, m'.slot? ⟨name, a⟩ = some v)
      ((Model.ensureRegion name >>= fun _ =>
        (attributes.filter fun a => !a.isPrimary).forM (Model.ensureAttribute name)) m) := by
  refine Comes.bind (((h.ensureRegion fun b hb => hD b (.inl hb)).both hregion).mono id
    (fun _ _ hf => hf.1) fun _ _ hq => hq) fun _ m₀ h₀ => ?_
  obtain ⟨⟨⟨h₀, hg₀⟩, hr₀⟩, hI₀⟩ := h₀
  refine (h₀.ensureAttributes hr₀ (fun a ha => hD a (.inr (List.mem_filter.1 ha).1)) hI₀
    fun m a region ha => hattribute m a region (List.mem_filter.1 ha).1).mono id
    (fun e m' hf => ⟨hf.1, hf.2.1, hg₀.trans hf.2.2⟩) fun _ m₁ h₁ => ?_
  obtain ⟨⟨h₁, hg₁⟩, hI₁, hmade₁⟩ := h₁
  refine ⟨⟨h₁, hg₀.trans hg₁⟩, hI₁, fun a ha => ?_⟩
  cases hp : a.isPrimary with
  | true =>
    obtain ⟨r, hr⟩ := hr₀
    obtain ⟨v, hv⟩ := h₀.primary hr hp
    exact ⟨v, hg₁.kept hv⟩
  | false => refine hmade₁ a (List.mem_filter.2 ⟨ha.resolve_left ?_, ?_⟩) <;> simp [hp]

/-- A batch has all that it asks for and nothing else made, and `I` holds afterwards if making one
region or one attribute keeps it. -/
theorem Charted.materialize (h : m.Charted) (d : Demand) (hI : I m)
    (hregion : ∀ m e, e ∈ d.toList → m.Charted → I m →
      Serves (fun _ m' => I m') (Model.ensureRegion e.1 m))
    (hattribute : ∀ m e a region, e ∈ d.toList → a ∈ e.2 → m.Charted → I m →
      m.region? e.1 = some region →
      Serves (fun _ m' => I m') (Model.ensureAttribute e.1 a m)) :
    Comes False (fun e m' => (∃ fault, e = .solver fault) ∧ m'.Charted ∧ Grows d.Asks m m')
      (fun _ m' => (m'.Charted ∧ Grows d.Asks m m') ∧ I m' ∧
        ∀ ref, d.Asks ref → ∃ v, m'.slot? ref = some v)
      (materialize d m) := by
  have hD : ∀ e ∈ d.toList, ∀ a, a.isPrimary = true ∨ a ∈ e.2 → d.Asks ⟨e.1, a⟩ :=
    fun e he a ha => ⟨e.2, he, ha⟩
  -- along the list of entries it is those that were gone through that are made
  suffices hall : Comes False
      (fun e m' => (∃ fault, e = .solver fault) ∧ m'.Charted ∧ Grows d.Asks m m')
      (fun _ m' => (m'.Charted ∧ Grows d.Asks m m') ∧ I m' ∧
        ∀ e ∈ d.toList, ∀ a, a.isPrimary = true ∨ a ∈ e.2 → ∃ v, m'.slot? ⟨e.1, a⟩ = some v)
      (Model.materialize d m) from
    hall.imp fun _ m' ⟨hm', hI', hmade⟩ =>
      ⟨hm', hI', fun ref ⟨attributes, hmem, ha⟩ => hmade _ hmem ref.attr ha⟩
  rw [Model.materialize]
  generalize d.toList = regions at hregion hattribute hD ⊢
  induction regions generalizing m with
  | nil => exact .ok ⟨⟨h, .refl m⟩, hI, by simp⟩
  | cons e rest ih =>
    obtain ⟨name, attributes⟩ := e
    have he : (name, attributes) ∈ (name, attributes) :: rest := List.mem_cons_self
    refine (h.ensureEntry (fun a => hD _ he a) (hregion m _ he h hI) fun m a region =>
      hattribute m _ a region he).bind fun _ m₁ h₁ => ?_
    obtain ⟨⟨h₁, hg₁⟩, hI₁, hmade₁⟩ := h₁
    refine (ih h₁ hI₁ (fun m e he => hregion m e (List.mem_cons_of_mem _ he))
      (fun m e a region he => hattribute m e a region (List.mem_cons_of_mem _ he))
      fun e he => hD e (List.mem_cons_of_mem _ he)).mono id
      (fun e m' hf => ⟨hf.1, hf.2.1, hg₁.trans hf.2.2⟩) fun _ m₂ h₂ => ?_
    obtain ⟨⟨h₂, hg₂⟩, hI₂, hmade₂⟩ := h₂
    refine ⟨⟨h₂, hg₁.trans hg₂⟩, hI₂, fun e' he' a ha => ?_⟩
    rcases List.mem_cons.1 he' with rfl | he'
    · obtain ⟨v, hv⟩ := hmade₁ a ha
      exact ⟨v, hg₂.kept hv⟩
    · exact hmade₂ e' he' a ha

theorem Charted.made (h : m.Charted) (d : Demand) :
    Comes False (fun e m' => (∃ fault, e = .solver fault) ∧ m'.Charted ∧ Grows d.Asks m m')
      (fun _ m' => (m'.Charted ∧ Grows d.Asks m m') ∧
        ∀ ref, d.Asks ref → ∃ v, m'.slot? ref = some v)
      (Model.materialize d m) := by
  refine (h.materialize (I := fun _ => True) d trivial (fun m e _ h _ => ?_)
    fun m e a region _ _ h _ hr => ?_).imp fun _ m' ⟨hm', _, hall⟩ => ⟨hm', hall⟩
  · exact (h.ensureRegion (D := fun _ => True) fun _ _ => trivial).mono id (fun _ _ hf => hf.1)
      fun _ _ _ => trivial
  · exact (h.ensureAttribute (D := fun _ => True) hr trivial).mono id (fun _ _ hf => hf.1)
      fun _ _ _ => trivial

end Model

end RegionLayout
