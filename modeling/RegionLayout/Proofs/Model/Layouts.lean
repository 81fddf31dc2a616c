-- Layouts: a value for every attribute of every region. Relations are about layouts, and the
-- constraints that a model adds on its own say when one is proper. A model that has a variable
-- for each attribute its relations speak of asks the same of the variables as of layouts.
import RegionLayout.Proofs.Model.Charts
import RegionLayout.Proofs.Solver.Equations

namespace RegionLayout

/-! ## Relations -/

variable {ρ ρ' : AttributeRef → Rat} {ref ref' : AttributeRef} {r : Relation Rat}
  {x : Variable → Rat}

/-- The value of an expression where each attribute has a value. -/
def LinearExpr.eval (ρ : AttributeRef → Rat) (e : LinearExpr Rat) : Rat :=
  e.constant + (e.terms.entries.map fun t => t.2 * ρ t.1).sum

namespace Relation

/-- The layout is as the relation says. -/
def Holds (r : Relation Rat) (ρ : AttributeRef → Rat) : Prop :=
  r.comparator.Holds (ρ r.target - r.rhs.eval ρ)

/-- Only the attributes of the relation matter. -/
theorem sides_congr (h : ∀ ref ∈ r.refs, ρ ref = ρ' ref) :
    ρ r.target - r.rhs.eval ρ = ρ' r.target - r.rhs.eval ρ' := by
  have hrhs : r.rhs.eval ρ = r.rhs.eval ρ' := by
    unfold LinearExpr.eval
    congr 2
    apply List.map_congr_left
    intro t ht
    rw [h t.1 (mem_refs_of_term ht)]
  rw [hrhs, h _ target_mem_refs]

theorem holds_congr (h : ∀ ref ∈ r.refs, ρ ref = ρ' ref) : r.Holds ρ ↔ r.Holds ρ' := by
  rw [Holds, Holds, sides_congr h]

end Relation

/-- The layout is as the required ones of the relations say. -/
def Satisfies (ρ : AttributeRef → Rat) (relations : List (Relation Rat)) : Prop :=
  ∀ r ∈ relations, r.strength = .required → r.Holds ρ

theorem satisfies_append {rs rs' : List (Relation Rat)} :
    Satisfies ρ (rs ++ rs') ↔ Satisfies ρ rs ∧ Satisfies ρ rs' := by
  simp only [Satisfies, List.mem_append, or_imp, forall_and]

theorem satisfies_singleton :
    Satisfies ρ [r] ↔ (r.strength = .required → r.Holds ρ) := by
  simp [Satisfies]

/-! ## Proper layouts -/

/-- No size is negative, the container is at the origin, and the centres that count lie half a
size from their edges. -/
structure Proper (counts : AttributeRef → Prop) (ρ : AttributeRef → Rat) : Prop where
  sizes : ∀ name (axis : Axis), 0 ≤ ρ ⟨name, axis.size⟩
  pins : ∀ axis : Axis, ρ ⟨containerName, axis.origin⟩ = 0
  centers : ∀ name a axis, a.centerAxis? = some axis → counts ⟨name, a⟩ →
    ρ ⟨name, a⟩ = ρ ⟨name, axis.origin⟩ + ρ ⟨name, axis.size⟩ / 2

theorem Proper.mono {counts counts' : AttributeRef → Prop} (h : Proper counts ρ)
    (hc : ∀ ref, counts' ref → counts ref) : Proper counts' ρ :=
  ⟨h.sizes, h.pins, fun name a axis ha hn => h.centers name a axis ha (hc _ hn)⟩

/-! ## The variables of a model -/

namespace Model

variable {m m' : Model Rat} {v : Variable} {name : String} {region : Region} {a : Attribute}

def varOf? (m : Model Rat) (ref : AttributeRef) : Option Variable :=
  (m.region? ref.region).bind fun r => r.get? ref.attr

/-- The layout that the values of the variables come to. An attribute without a variable is
at zero. -/
def reading (m : Model Rat) (x : Variable → Rat) (ref : AttributeRef) : Rat :=
  (m.varOf? ref).elim 0 x

theorem reading_some (h : m.varOf? ref = some v) : m.reading x ref = x v := by
  rw [reading, h, Option.elim_some]

theorem reading_none (h : m.varOf? ref = none) : m.reading x ref = 0 := by
  rw [reading, h, Option.elim_none]

/-- The attributes a model has variables for. -/
def Has (m : Model Rat) (ref : AttributeRef) : Prop := ∃ v, m.varOf? ref = some v

theorem not_has_iff : ¬ m.Has ref ↔ m.varOf? ref = none := by
  rw [Has, ← Option.isSome_iff_exists, Option.not_isSome_iff_eq_none]

/-- What the model asks of the values of its variables. -/
def Obeys (m : Model Rat) (x : Variable → Rat) : Prop :=
  Proper m.Has (m.reading x) ∧ Satisfies (m.reading x) m.relations

/-- Every attribute of a region has a variable of its own, the primary ones from the start,
and so does every attribute of a relation. -/
structure Mapped (m : Model Rat) : Prop where
  names : ∀ {name r}, m.region? name = some r → r.name = name
  primary : ∀ {name r a}, m.region? name = some r → a.isPrimary = true → m.Has ⟨name, a⟩
  before : ∀ {ref v}, m.varOf? ref = some v → v.id < m.nextVariable
  own : ∀ {ref ref' v}, m.varOf? ref = some v → m.varOf? ref' = some v → ref = ref'
  resolved : ∀ {r ref}, r ∈ m.relations → ref ∈ r.refs → m.Has ref

/-- One relation more, with the variables it speaks of. -/
theorem Mapped.accept (h : m.Mapped) {r : Relation Rat} (hr : ∀ ref ∈ r.refs, m.Has ref)
    {journal : String} : Mapped { m with relations := m.relations ++ [r], journal } where
  names := h.names
  primary := h.primary
  before := h.before
  own := h.own
  resolved hr' href := by
    rcases List.mem_append.1 hr' with hr' | hr'
    · exact h.resolved hr' href
    · obtain rfl := List.mem_singleton.1 hr'
      exact hr _ href

theorem varOf?_of_region (h : m.region? name = some region) :
    m.varOf? ⟨name, a⟩ = region.get? a :=
  slot?_of_region h

theorem Mapped.has_primary (h : m.Mapped) (hh : m.Has ⟨name, a⟩) {b : Attribute}
    (hb : b.isPrimary = true) : m.Has ⟨name, b⟩ := by
  obtain ⟨v, hv⟩ := hh
  obtain ⟨r, hr, -⟩ := Option.bind_eq_some_iff.1 hv
  exact h.primary hr hb

end Model

theorem Attribute.centerAxis?_of_primary {a : Attribute} (h : a.isPrimary = true) :
    a.centerAxis? = none := by
  cases a <;> first | rfl | simp [isPrimary, primary] at h

namespace Model

variable {m m' : Model Rat} {v : Variable} {name : String} {a : Attribute}

/-! ## Layouts and variables -/

/-- The layout of the variables, with the centres that have none worked out. -/
def completed (m : Model Rat) (x : Variable → Rat) (ref : AttributeRef) : Rat :=
  match m.varOf? ref, ref.attr.centerAxis? with
  | none, some axis =>
    m.reading x ⟨ref.region, axis.origin⟩ + m.reading x ⟨ref.region, axis.size⟩ / 2
  | _, _ => m.reading x ref

theorem completed_of_has (h : m.Has ref) : m.completed x ref = m.reading x ref := by
  obtain ⟨v, hv⟩ := h
  simp [completed, hv]

theorem completed_of_primary (h : a.isPrimary = true) :
    m.completed x ⟨name, a⟩ = m.reading x ⟨name, a⟩ := by
  unfold completed
  rw [Attribute.centerAxis?_of_primary h]
  cases m.varOf? ⟨name, a⟩ <;> rfl

theorem proper_completed (h : Proper m.Has (m.reading x)) :
    Proper (fun _ => True) (m.completed x) where
  sizes name axis := by
    rw [completed_of_primary axis.size_isPrimary]
    exact h.sizes name axis
  pins axis := by
    rw [completed_of_primary axis.origin_isPrimary]
    exact h.pins axis
  centers name a axis ha _ := by
    rw [completed_of_primary axis.size_isPrimary, completed_of_primary axis.origin_isPrimary]
    cases hv : m.varOf? ⟨name, a⟩ with
    | none => simp [completed, hv, ha]
    | some v =>
      rw [completed_of_has ⟨v, hv⟩]
      exact h.centers name a axis ha ⟨v, hv⟩

open Classical in
/-- The values of the variables in a layout. -/
noncomputable def assigned (m : Model Rat) (ρ : AttributeRef → Rat) (v : Variable) : Rat :=
  if h : ∃ ref, m.varOf? ref = some v then ρ h.choose else 0

theorem Mapped.assigned_eq (h : m.Mapped) (hv : m.varOf? ref = some v) :
    m.assigned ρ v = ρ ref := by
  have hex : ∃ ref, m.varOf? ref = some v := ⟨ref, hv⟩
  rw [assigned, dif_pos hex, h.own hex.choose_spec hv]

theorem Mapped.reading_assigned (h : m.Mapped) (hh : m.Has ref) :
    m.reading (m.assigned ρ) ref = ρ ref := by
  obtain ⟨v, hv⟩ := hh
  rw [reading_some hv, h.assigned_eq hv]

theorem Mapped.proper_assigned (h : m.Mapped) (hρ : Proper m.Has ρ) :
    Proper m.Has (m.reading (m.assigned ρ)) where
  sizes name axis := by
    cases hv : m.varOf? ⟨name, axis.size⟩ with
    | none => rw [reading_none hv]
    | some v =>
      rw [h.reading_assigned ⟨v, hv⟩]
      exact hρ.sizes name axis
  pins axis := by
    cases hv : m.varOf? ⟨containerName, axis.origin⟩ with
    | none => rw [reading_none hv]
    | some v =>
      rw [h.reading_assigned ⟨v, hv⟩]
      exact hρ.pins axis
  centers name a axis ha hh := by
    rw [h.reading_assigned hh, h.reading_assigned (h.has_primary hh axis.origin_isPrimary),
      h.reading_assigned (h.has_primary hh axis.size_isPrimary)]
    exact hρ.centers name a axis ha hh

theorem holds_completed (hr : ∀ ref ∈ r.refs, m.Has ref) :
    r.Holds (m.completed x) ↔ r.Holds (m.reading x) :=
  Relation.holds_congr fun ref href => completed_of_has (hr ref href)

theorem Mapped.holds_assigned (h : m.Mapped) (hr : ∀ ref ∈ r.refs, m.Has ref) :
    r.Holds (m.reading (m.assigned ρ)) ↔ r.Holds ρ :=
  Relation.holds_congr fun ref href => h.reading_assigned (hr ref href)

/-- What the model asks can be had from its variables just when it can be had from a layout. -/
theorem Mapped.exists_obeys_iff (h : m.Mapped) (hr : ∀ ref ∈ r.refs, m.Has ref) :
    (∃ x, m.Obeys x ∧ r.Holds (m.reading x)) ↔
      ∃ ρ, Proper (fun _ => True) ρ ∧ Satisfies ρ m.relations ∧ r.Holds ρ := by
  constructor
  · rintro ⟨x, ⟨hp, hs⟩, hx⟩
    refine ⟨m.completed x, proper_completed hp, fun r' hr' hq => ?_, (holds_completed hr).2 hx⟩
    exact (holds_completed fun _ => h.resolved hr').2 (hs r' hr' hq)
  · rintro ⟨ρ, hp, hs, hx⟩
    refine ⟨m.assigned ρ, ⟨h.proper_assigned (hp.mono fun _ _ => trivial), fun r' hr' hq => ?_⟩,
      (h.holds_assigned hr).2 hx⟩
    exact (h.holds_assigned fun _ => h.resolved hr').2 (hs r' hr' hq)

end Model

end RegionLayout
