-- Regions and their attributes. What a model makes gets variables that nothing speaks of yet,
-- so what it then asks of them can always be had, and a model only grows.
import RegionLayout.Proofs.Model.Calls
import RegionLayout.Proofs.Model.Making

namespace RegionLayout

open Solver

namespace Model

variable {m m' m₁ m₂ : Model Rat} {P : (Variable → Rat) → Prop} {X : Prop} {L B k : Nat}
  {v w o : Variable} {ref : AttributeRef} {r : Relation Rat} {x : Variable → Rat}
  {name : String} {a : Attribute} {region : Region}

/-! ## Symbols to spend -/

/-- With the same limit, `k` symbols more stay within the bound. -/
structure Affords (L B k : Nat) (m : Model Rat) : Prop where
  limit : m.solver.limit = L
  tick : m.solver.tick + k ≤ B

theorem Affords.after {j : Nat} (h : m.Affords L B (j + k)) (hw : Worked j m m') :
    m'.Affords L B k where
  limit := hw.limit.trans h.limit
  tick := by
    have := hw.tick
    have := h.tick
    omega

theorem Affords.of_eq (h : m.Affords L B k) (hs : m'.solver = m.solver) : m'.Affords L B k :=
  ⟨hs ▸ h.limit, hs ▸ h.tick⟩

theorem Affords.mono {j : Nat} (h : m.Affords L B k) (hjk : j ≤ k) : m.Affords L B j :=
  ⟨h.limit, (Nat.add_le_add_left hjk _).trans h.tick⟩

theorem Affords.spent {j : Nat} (h : m.Affords L B (j + k))
    (hlim : m.solver.limit < turnBound (m.solver.tick + j)) : L < turnBound B := by
  rw [h.limit] at hlim
  refine hlim.trans_le (turnBound_mono ?_)
  have := h.tick
  omega

/-! ## Settled models -/

/-- A model between two calls: its solver asks what the model asks. -/
structure Settled (m : Model Rat) : Prop extends m.Mapped where
  kept : m.Kept m.Obeys

/-- A model with more variables, and the same relations. -/
structure Grown (m m' : Model Rat) : Prop where
  vars : ∀ {ref v}, m.varOf? ref = some v → m'.varOf? ref = some v
  relations : m'.relations = m.relations

theorem Grown.refl (m : Model Rat) : Grown m m := ⟨id, rfl⟩

theorem Grown.trans (h : Grown m m₁) (h' : Grown m₁ m₂) : Grown m m₂ :=
  ⟨fun hv => h'.vars (h.vars hv), h'.relations.trans h.relations⟩

theorem Grown.has (h : Grown m m') (hh : m.Has ref) : m'.Has ref := by
  obtain ⟨v, hv⟩ := hh
  exact ⟨v, h.vars hv⟩

theorem Grown.reading (h : Grown m m') (hh : m.Has ref) : m'.reading x ref = m.reading x ref := by
  obtain ⟨v, hv⟩ := hh
  rw [reading_some hv, reading_some (h.vars hv)]

theorem Grown.satisfies_iff (h : Grown m m') (hm : m.Mapped) :
    Satisfies (m'.reading x) m'.relations ↔ Satisfies (m.reading x) m.relations := by
  rw [h.relations]
  refine forall_congr' fun r => forall_congr' fun hr => imp_congr_right fun _ => ?_
  exact Relation.holds_congr fun ref href => h.reading (hm.resolved hr href)

/-- A model that only the solver has worked on. -/
theorem Worked.varOf? (h : Worked k m m') : m'.varOf? = m.varOf? := by rw [h.frame]; rfl

theorem Worked.has (h : Worked k m m') : m'.Has = m.Has := by rw [h.frame]; rfl

theorem Worked.reading (h : Worked k m m') : m'.reading x = m.reading x := by rw [h.frame]; rfl

theorem Worked.obeys_iff (h : Worked k m m') : m'.Obeys x ↔ m.Obeys x := by
  rw [h.frame]
  rfl

theorem Worked.mapped (h : Worked k m m') (hm : m.Mapped) : m'.Mapped := by
  rw [h.frame]
  exact ⟨hm.names, hm.primary, hm.before, hm.own, hm.resolved⟩

theorem Worked.grown (h : Worked k m m') : Grown m m' := by
  rw [h.frame]
  exact ⟨id, rfl⟩

theorem Worked.settled (h : Worked k m m') (hm : m.Mapped) (hk : m'.Kept m.Obeys) :
    m'.Settled := ⟨h.mapped hm, hk.congr fun _ => h.obeys_iff.symm⟩

/-! ## A region put in its place -/

theorem varOf?_eq (region : Region) (hr : ∀ name, m'.region? name =
      if name = region.name then some region else m.region? name) (ref : AttributeRef) :
    m'.varOf? ref = if ref.region = region.name then region.get? ref.attr else m.varOf? ref := by
  rw [varOf?, hr]
  split
  · rfl
  · rfl

theorem Kept.put (h : m.Kept P) (region : Region) : (m.put region).Kept P :=
  h.of_eq put_solver put_nextVariable.ge put_nextConstraint.ge fun hb => put_bindings ▸ hb

/-! ## What a model requires on its own -/

/-- A required constraint of the model's own that the variables can meet is always taken. -/
theorem Kept.install (h : m.Kept P) (e : Expression Rat) (c : Comparator)
    (ha : m.Affords L B (e.terms.length + 3 + k))
    (hnames : ∀ v, e.Names v → v.id < m.nextVariable) (hsat : ∃ x, P x ∧ c.Holds (e.eval x)) :
    Comes (L < turnBound B) (fun _ _ => False)
      (fun _ m' => (m'.Kept fun x => P x ∧ c.Holds (e.eval x)) ∧
        Worked (e.terms.length + 3) m m')
      ((freshConstraint >>= fun id =>
        onSolver .solver (·.add (.make id e c Weight.required))) m) := by
  have hreq := Constraint.isRequired_make_required (.declared m.nextConstraint) e c
  refine (h.enter (.make (.declared m.nextConstraint) e c Weight.required) .solver rfl rfl
    (Constraint.make_weight_nonneg _ _ _ _) hnames).mono (fun hlim => ha.spent hlim)
    (fun _ m' he => he.2.2.1 hsat) fun _ m' hok => ⟨hok.1.congr fun x => ?_, hok.2.2⟩
  rw [hreq]
  simp [Constraint.make]

theorem terms_bound (v : Variable) (c : Rat) :
    ((Expression.ofVariable v).sub (.ofConstant c)).terms = [(v, 1)] := rfl

theorem eval_bound (v : Variable) (c : Rat) :
    ((Expression.ofVariable v).sub (.ofConstant c)).eval x = x v - c := by
  rw [Expression.eval_eq, terms_bound]
  simp [Expression.sub, Expression.add, Expression.neg, Expression.scale, Expression.ofVariable,
    Expression.ofTerm, Expression.ofConstant]
  ring

/-- A variable is compared with a constant. -/
theorem Kept.require (h : m.Kept P) (v : Variable) (c : Comparator) (q : Rat)
    (ha : m.Affords L B (4 + k)) (hv : v.id < m.nextVariable)
    (hsat : ∃ x, P x ∧ c.Holds (x v - q)) :
    Comes (L < turnBound B) (fun _ _ => False)
      (fun _ m' => (m'.Kept fun x => P x ∧ c.Holds (x v - q)) ∧ Worked 4 m m')
      (require (.ofVariable v) c (.ofConstant q) m) := by
  have := h.install ((Expression.ofVariable v).sub (.ofConstant q)) c ha (fun u hu => ?_) ?_
  · simp only [eval_bound] at this
    exact this
  · obtain ⟨_, hu, -⟩ := hu
    rw [terms_bound, List.mem_singleton] at hu
    obtain ⟨rfl, -⟩ := Prod.mk.inj hu
    exact hv
  · simpa only [eval_bound] using hsat

theorem Kept.installSizes (h : m.Kept P) (ha : m.Affords L B (8 + k))
    (hw : region.get? .width = some v) (hh : region.get? .height = some w)
    (hv : v.id < m.nextVariable) (hw' : w.id < m.nextVariable)
    (hsat : ∃ x, P x ∧ 0 ≤ x v ∧ 0 ≤ x w) :
    Comes (L < turnBound B) (fun _ _ => False)
      (fun _ m' => (m'.Kept fun x => P x ∧ 0 ≤ x v ∧ 0 ≤ x w) ∧ Worked 8 m m')
      (installSizes region m) := by
  obtain ⟨x, hx, hxv, hxw⟩ := hsat
  have ha : m.Affords L B (4 + (4 + k)) := ha.mono (by omega)
  rw [Model.installSizes, forM_pair]
  refine Comes.bind (Q := fun _ m₁ => (m₁.Kept fun x => P x ∧ 0 ≤ x v - 0) ∧ Worked 4 m m₁)
    ?_ fun _ m₁ h₁ => ?_
  · rw [ask_bind (variableOf_some hw)]
    exact h.require v .atLeast 0 ha hv ⟨x, hx, by simpa [Comparator.Holds] using hxv⟩
  · obtain ⟨hk₁, hw₁⟩ := h₁
    refine Comes.bind (Q := fun _ m' => (m'.Kept fun x => (P x ∧ 0 ≤ x v - 0) ∧ 0 ≤ x w - 0) ∧
      Worked 4 m₁ m') ?_ fun _ m₂ h₂ => ?_
    · rw [ask_bind (variableOf_some hh)]
      refine hk₁.require w .atLeast 0 (ha.after hw₁) (by rw [hw₁.frame]; exact hw')
        ⟨x, ⟨hx, ?_⟩, ?_⟩
      · rwa [sub_zero]
      · rwa [Comparator.Holds, sub_zero]
    · refine .ok ⟨h₂.1.congr fun x => ?_, hw₁.trans h₂.2⟩
      rw [sub_zero, sub_zero, and_assoc]

/-- Half a size lies between an edge and the centre. -/
theorem Kept.installCenter (h : m.Kept P) (axis : Axis) (ha : m.Affords L B (6 + k))
    (ho : region.get? axis.origin = some o) (hw : region.get? axis.size = some w)
    (hv : v.id < m.nextVariable) (ho' : o.id < m.nextVariable) (hw' : w.id < m.nextVariable)
    (hsat : ∃ x, P x ∧ x v = x o + x w / 2) :
    Comes (L < turnBound B) (fun _ _ => False)
      (fun _ m' => (m'.Kept fun x => P x ∧ x v = x o + x w / 2) ∧ Worked 6 m m')
      (installCenter region axis v m) := by
  have heval : ∀ x : Variable → Rat, Comparator.equal.Holds
      ((⟨[(v, 1), (o, -1), (w, -(1 / 2))], 0⟩ : Expression Rat).eval x) ↔
        x v = x o + x w / 2 := by
    intro x
    rw [Expression.eval_eq, Comparator.Holds]
    simp only [List.map_cons, List.map_nil, List.sum_cons, List.sum_nil]
    constructor <;> intro h <;> linarith
  rw [Model.installCenter, ask_bind (variableOf_some ho), ask_bind (variableOf_some hw)]
  have := h.install ⟨[(v, 1), (o, -1), (w, -(1 / 2))], 0⟩ .equal ha (fun u hu => ?_) ?_
  · simp only [heval] at this
    exact this
  · obtain ⟨q, hu, -⟩ := hu
    simp only [List.mem_cons, List.not_mem_nil, or_false, Prod.mk.injEq] at hu
    rcases hu with ⟨rfl, -⟩ | ⟨rfl, -⟩ | ⟨rfl, -⟩
    · exact hv
    · exact ho'
    · exact hw'
  · simpa only [heval] using hsat

theorem Kept.installIntrinsic (h : m.Kept P) (ha : m.Affords L B (4 + k))
    (hv : v.id < m.nextVariable) (hnew : m.solver.edits.contains v = false) :
    Comes (L < turnBound B) (fun _ _ => False) (fun _ m' => m'.Kept P ∧ Worked 4 m m')
      (installIntrinsic v m) := by
  rw [Model.installIntrinsic]
  refine Comes.bind (((h.addEdit hv).mono (fun hlim => ha.spent hlim)
    (fun _ _ he => ?_) fun _ _ hq => hq)) fun _ m₁ h₁ => ?_
  · rw [hnew] at he
    simp at he
  · obtain ⟨hk₁, hw₁, e, he, htarget⟩ := h₁
    refine (hk₁.suggest v 0).mono (fun hlim => ?_) (fun _ _ hn => ?_) fun _ m' hq => ?_
    · have h0 := hlim e he htarget
      rw [(ha.after hw₁).limit] at h0
      rw [h0]
      exact Nat.two_pow_pos _
    · rw [he] at hn
      simp at hn
    · exact ⟨hq.1, hw₁.trans hq.2⟩

/-! ## Growing -/

/-- What a model that has grown asks: what it asked before, and what its new sizes and centres
are to be. -/
theorem Grown.obeys_iff (h : Grown m m') (hm : m.Mapped) : m'.Obeys x ↔ m.Obeys x ∧
    (∀ name (axis : Axis) v, ¬ m.Has ⟨name, axis.size⟩ →
      m'.varOf? ⟨name, axis.size⟩ = some v → 0 ≤ x v) ∧
    (∀ name a axis, a.centerAxis? = some axis → ¬ m.Has ⟨name, a⟩ → m'.Has ⟨name, a⟩ →
      m'.reading x ⟨name, a⟩ =
        m'.reading x ⟨name, axis.origin⟩ + m'.reading x ⟨name, axis.size⟩ / 2) := by
  have hnone : ∀ {ref}, ¬ m.Has ref → m.reading x ref = 0 := fun hno =>
    reading_none (not_has_iff.1 hno)
  have hcenter : ∀ {name a} (axis : Axis), m.Has ⟨name, a⟩ →
      m'.reading x ⟨name, a⟩ = m.reading x ⟨name, a⟩ ∧
      m'.reading x ⟨name, axis.origin⟩ = m.reading x ⟨name, axis.origin⟩ ∧
      m'.reading x ⟨name, axis.size⟩ = m.reading x ⟨name, axis.size⟩ := fun {name a} axis hh =>
    ⟨h.reading hh, h.reading (hm.has_primary hh axis.origin_isPrimary),
      h.reading (hm.has_primary hh axis.size_isPrimary)⟩
  have hpin : ∀ axis : Axis, m'.reading x ⟨containerName, axis.origin⟩ =
      m.reading x ⟨containerName, axis.origin⟩ := fun axis =>
    h.reading (hm.primary (if_pos rfl) axis.origin_isPrimary)
  rw [Obeys, Obeys, h.satisfies_iff hm]
  constructor
  · rintro ⟨hp, hs⟩
    refine ⟨⟨⟨fun name axis => ?_, fun axis => hpin axis ▸ hp.pins axis,
      fun name a axis ha hh => ?_⟩, hs⟩, fun name axis v hno hv => ?_,
      fun name a axis ha hno hh => hp.centers name a axis ha hh⟩
    · by_cases hh : m.Has ⟨name, axis.size⟩
      · rw [← h.reading hh]
        exact hp.sizes name axis
      · rw [hnone hh]
    · obtain ⟨h1, h2, h3⟩ := hcenter axis hh
      rw [← h1, ← h2, ← h3]
      exact hp.centers name a axis ha (h.has hh)
    · rw [← reading_some (x := x) hv]
      exact hp.sizes name axis
  · rintro ⟨⟨hp, hs⟩, hsizes, hcenters⟩
    refine ⟨⟨fun name axis => ?_, fun axis => (hpin axis).trans (hp.pins axis),
      fun name a axis ha hh => ?_⟩, hs⟩
    · by_cases hh : m.Has ⟨name, axis.size⟩
      · rw [h.reading hh]
        exact hp.sizes name axis
      · cases hv : m'.varOf? ⟨name, axis.size⟩ with
        | none => rw [reading_none hv]
        | some v =>
          rw [reading_some hv]
          exact hsizes name axis v hh hv
    · by_cases hh' : m.Has ⟨name, a⟩
      · obtain ⟨h1, h2, h3⟩ := hcenter axis hh'
        rw [h1, h2, h3]
        exact hp.centers name a axis ha hh'
      · exact hcenters name a axis ha hh' hh

/-- A model that has grown by variables no one had before. -/
theorem Mapped.grow (h : m.Mapped) (hg : Grown m m') (hn : m.nextVariable ≤ m'.nextVariable)
    (hnames : ∀ {name r}, m'.region? name = some r → r.name = name)
    (hprimary : ∀ {name r a}, m'.region? name = some r → a.isPrimary = true → m'.Has ⟨name, a⟩)
    (hnew : ∀ {ref v}, m'.varOf? ref = some v →
      m.varOf? ref = some v ∨ m.nextVariable ≤ v.id ∧ v.id < m'.nextVariable)
    (hown : ∀ {ref ref' v}, m'.varOf? ref = some v → m'.varOf? ref' = some v →
      m.nextVariable ≤ v.id → ref = ref') : m'.Mapped where
  names := hnames
  primary := hprimary
  before hv := by
    rcases hnew hv with hv | ⟨-, hlt⟩
    · exact (h.before hv).trans_le hn
    · exact hlt
  own hv hv' := by
    rcases hnew hv with ho | ⟨hge, -⟩
    · rcases hnew hv' with ho' | ⟨hge, -⟩
      · exact h.own ho ho'
      · exact hown hv hv' hge
    · exact hown hv hv' hge
  resolved hr href := hg.has (h.resolved (hg.relations ▸ hr) href)

theorem varOf?_of_make (hnone : m.region? name = none)
    (hr : ∀ n, m'.region? n = if n = name then some (Region.make name m.nextVariable)
      else m.region? n) (ref : AttributeRef) :
    m'.varOf? ref = if ref.region = name ∧ ref.attr.isPrimary = true then
      some ⟨m.nextVariable + ref.attr.rank⟩ else m.varOf? ref := by
  rw [varOf?_eq (Region.make name m.nextVariable) hr, get?_make]
  by_cases hreg : ref.region = name
  · have hold : m.varOf? ref = none := by rw [varOf?, hreg, hnone, Option.bind_none]
    rw [hold, if_pos (show ref.region = (Region.make name m.nextVariable).name from hreg)]
    simp [hreg]
  · rw [if_neg (show ¬ ref.region = (Region.make name m.nextVariable).name from hreg),
      if_neg fun h => hreg h.1]

section Make

variable (hnone : m.region? name = none)
  (hr : ∀ n, m'.region? n = if n = name then some (Region.make name m.nextVariable)
    else m.region? n)

include hnone hr

theorem varOf?_of_make_cases (hv : m'.varOf? ref = some v) : m.varOf? ref = some v ∨
    ref.region = name ∧ ref.attr.isPrimary = true ∧ v = ⟨m.nextVariable + ref.attr.rank⟩ := by
  rw [varOf?_of_make hnone hr] at hv
  split at hv
  · rename_i hnew
    exact Or.inr ⟨hnew.1, hnew.2, (Option.some.inj hv).symm⟩
  · exact Or.inl hv

theorem varOf?_of_make_primary (ha : a.isPrimary = true) :
    m'.varOf? ⟨name, a⟩ = some ⟨m.nextVariable + a.rank⟩ := by
  rw [varOf?_of_make hnone hr, if_pos ⟨rfl, ha⟩]

theorem grown_of_make (hrel : m'.relations = m.relations) : Grown m m' := by
  refine ⟨fun {ref v} hv => ?_, hrel⟩
  rw [varOf?_of_make hnone hr, if_neg]
  · exact hv
  · rintro ⟨rfl, -⟩
    simp [varOf?, hnone] at hv

theorem Mapped.make (h : m.Mapped) (hrel : m'.relations = m.relations)
    (hn : m'.nextVariable = m.nextVariable + 4) : m'.Mapped := by
  have hg := grown_of_make hnone hr hrel
  refine h.grow hg (by omega) (fun {n r} hreg => ?_) (fun {n r a} hreg ha => ?_)
    (fun {ref v} hv => ?_) fun {ref ref' v} hv hv' hge => ?_
  · rw [hr] at hreg
    split at hreg
    · obtain rfl := Option.some.inj hreg
      exact Eq.symm ‹_›
    · exact h.names hreg
  · rw [hr] at hreg
    split at hreg
    · subst n
      exact ⟨_, varOf?_of_make_primary hnone hr ha⟩
    · exact hg.has (h.primary hreg ha)
  · rcases varOf?_of_make_cases hnone hr hv with hv | ⟨-, hp, rfl⟩
    · exact Or.inl hv
    · have := Attribute.rank_lt_of_primary hp
      exact Or.inr ⟨Nat.le_add_right _ _, by rw [hn]; exact Nat.add_lt_add_left this _⟩
  · obtain ⟨n, a⟩ := ref
    obtain ⟨n', a'⟩ := ref'
    rcases varOf?_of_make_cases hnone hr hv with hv | ⟨rfl, -, rfl⟩
    · exact absurd (h.before hv) (not_lt.2 hge)
    · rcases varOf?_of_make_cases hnone hr hv' with hv' | ⟨rfl, -, he⟩
      · exact absurd (h.before hv') (not_lt.2 hge)
      · have hrank := Nat.add_left_cancel (congrArg Variable.id he)
        exact congrArg (AttributeRef.mk _) (Attribute.rank_injective hrank)

/-- A new region asks only that its sizes are not negative. -/
theorem Mapped.obeys_make_iff (h : m.Mapped) (hrel : m'.relations = m.relations)
    (x : Variable → Rat) : m'.Obeys x ↔
      m.Obeys x ∧ 0 ≤ x ⟨m.nextVariable + 2⟩ ∧ 0 ≤ x ⟨m.nextVariable + 3⟩ := by
  have hno : ∀ a, ¬ m.Has ⟨name, a⟩ := fun a hh => by simp [Has, varOf?, hnone] at hh
  refine ((grown_of_make hnone hr hrel).obeys_iff h).trans (and_congr_right fun _ => ?_)
  constructor
  · rintro ⟨hsizes, -⟩
    exact ⟨hsizes name .horizontal _ (hno _) (varOf?_of_make_primary hnone hr (a := .width) rfl),
      hsizes name .vertical _ (hno _) (varOf?_of_make_primary hnone hr (a := .height) rfl)⟩
  · rintro ⟨hw, hh⟩
    refine ⟨fun n axis v hno hv => ?_, fun n a axis ha hno hh' => ?_⟩
    · rcases varOf?_of_make_cases hnone hr hv with hv | ⟨-, -, rfl⟩
      · exact absurd ⟨v, hv⟩ hno
      · cases axis
        · exact hw
        · exact hh
    · obtain ⟨v, hv⟩ := hh'
      rcases varOf?_of_make_cases hnone hr hv with hv | ⟨-, hp, -⟩
      · exact absurd ⟨v, hv⟩ hno
      · rw [Attribute.centerAxis?_of_primary hp] at ha
        simp at ha

end Make

/-- A region that is not there yet is made with variables of its own. -/
theorem Settled.ensureRegion (h : m.Settled) (ha : m.Affords L B (8 + k)) (name : String) :
    Comes (L < turnBound B) (fun _ _ => False)
      (fun _ m' => m'.Settled ∧ Grown m m' ∧ (∃ r, m'.region? name = some r) ∧ m'.Affords L B k)
      (ensureRegion name m) := by
  rw [Model.ensureRegion]
  change Comes _ _ _ ((if (m.region? name).isNone = true then _ else _ : Change Rat Unit) m)
  split
  · rename_i hnone
    rw [Option.isNone_iff_eq_none] at hnone
    rw [freshVariables_bind]
    let m₀ : Model Rat := { m with nextVariable := m.nextVariable + 4 }
    have hkept : m₀.Kept m.Obeys := h.kept.of_eq rfl (Nat.le_add_right _ _) le_rfl id
    have ha₀ : m₀.Affords L B (8 + k) := ha.of_eq rfl
    have hlt : ∀ i < 4, m.nextVariable + i < m₀.nextVariable := fun i hi =>
      Nat.add_lt_add_left hi _
    have hsat : ∃ x, m.Obeys x ∧ 0 ≤ x ⟨m.nextVariable + 2⟩ ∧ 0 ≤ x ⟨m.nextVariable + 3⟩ := by
      refine ⟨fun v => if v.id < m.nextVariable then m.solver.value v else 0,
        h.kept.local (fun v hv => (if_pos hv).symm) h.kept.value, ?_, ?_⟩ <;> simp
    have hwidth : (Region.make name m.nextVariable).get? .width = some ⟨m.nextVariable + 2⟩ := rfl
    have hheight : (Region.make name m.nextVariable).get? .height = some ⟨m.nextVariable + 3⟩ := rfl
    refine Comes.bind (hkept.installSizes ha₀ hwidth hheight (hlt 2 (by decide))
      (hlt 3 (by decide)) hsat) fun _ m₁ h₁ => ?_
    obtain ⟨hk₁, hw₁⟩ := h₁
    have hr : ∀ n, (m₁.put (Region.make name m.nextVariable)).region? n =
        if n = name then some (Region.make name m.nextVariable) else m.region? n := by
      intro n
      rw [region?_put, hw₁.frame]
      rfl
    have hrel : (m₁.put (Region.make name m.nextVariable)).relations = m.relations := by
      rw [put_relations, hw₁.frame]
    have hm := h.toMapped.make hnone hr hrel (by rw [put_nextVariable, hw₁.frame])
    exact .ok ⟨⟨hm, (hk₁.put _).congr fun x => (h.toMapped.obeys_make_iff hnone hr hrel x).symm⟩,
      grown_of_make hnone hr hrel, ⟨_, (hr name).trans (if_pos rfl)⟩,
      (ha₀.after hw₁).of_eq put_solver⟩
  · rename_i hsome
    obtain ⟨r, hr⟩ := Option.isSome_iff_exists.1 (by simpa [Option.isSome_iff_ne_none] using hsome)
    exact .ok ⟨h, Grown.refl m, ⟨r, hr⟩, ha.mono (Nat.le_add_left _ _)⟩

section Extend

variable (h : m.Settled) (hreg : m.region? name = some region) (hno : ¬ m.Has ⟨name, a⟩)

include h hreg

theorem varOf?_extend (ref : AttributeRef) : (m.extend region a).varOf? ref =
    if ref = ⟨name, a⟩ then some ⟨m.nextVariable⟩ else m.varOf? ref :=
  slot?_extend (h.names hreg) hreg ref

theorem has_extend : (m.extend region a).Has ⟨name, a⟩ :=
  ⟨_, by rw [varOf?_extend h hreg, if_pos rfl]⟩

include hno

theorem grown_extend : Grown m (m.extend region a) := by
  refine ⟨fun {ref v} hv => ?_, put_relations⟩
  rw [varOf?_extend h hreg, if_neg]
  · exact hv
  · rintro rfl
    exact hno ⟨v, hv⟩

theorem mapped_extend : (m.extend region a).Mapped := by
  have hg := grown_extend h hreg hno
  have hn : (m.extend region a).nextVariable = m.nextVariable + 1 := put_nextVariable
  have split : ∀ {ref v}, (m.extend region a).varOf? ref = some v →
      m.varOf? ref = some v ∨ ref = ⟨name, a⟩ ∧ v = ⟨m.nextVariable⟩ := by
    intro ref v hv
    rw [varOf?_extend h hreg] at hv
    split at hv
    · exact Or.inr ⟨‹_›, (Option.some.inj hv).symm⟩
    · exact Or.inl hv
  refine h.toMapped.grow hg (by omega) (fun {n r} hr => ?_) (fun {n r b} hr hb => ?_)
    (fun {ref v} hv => ?_) fun {ref ref' v} hv hv' hge => ?_
  · rw [region?_extend (h.names hreg)] at hr
    split at hr
    · subst n
      obtain rfl := Option.some.inj hr
      change region.name = name
      exact h.names hreg
    · exact h.names hr
  · rw [region?_extend (h.names hreg)] at hr
    split at hr
    · subst n
      exact hg.has (h.primary hreg hb)
    · exact hg.has (h.primary hr hb)
  · rcases split hv with hv | ⟨-, rfl⟩
    · exact Or.inl hv
    · exact Or.inr ⟨le_rfl, by rw [hn]; exact Nat.lt_succ_self _⟩
  · rcases split hv with hv | ⟨rfl, rfl⟩
    · exact absurd (h.before hv) (not_lt.2 hge)
    · rcases split hv' with hv' | ⟨rfl, -⟩
      · exact absurd (h.before hv') (lt_irrefl _)
      · rfl

/-- A new attribute asks at most that it is a centre. -/
theorem obeys_extend : (m.extend region a).Obeys x ↔ m.Obeys x ∧
    ∀ axis, a.centerAxis? = some axis → (m.extend region a).reading x ⟨name, a⟩ =
      (m.extend region a).reading x ⟨name, axis.origin⟩ +
        (m.extend region a).reading x ⟨name, axis.size⟩ / 2 := by
  have hsame : ∀ {ref}, (m.extend region a).Has ref → ¬ m.Has ref → ref = ⟨name, a⟩ := by
    rintro ref ⟨v, hv⟩ hno'
    rw [varOf?_extend h hreg] at hv
    split at hv
    · assumption
    · exact absurd ⟨v, hv⟩ hno'
  refine ((grown_extend h hreg hno).obeys_iff h.toMapped).trans (and_congr_right fun _ => ?_)
  constructor
  · rintro ⟨-, hcenters⟩ axis ha
    exact hcenters name a axis ha hno (has_extend h hreg)
  · refine fun hcenter => ⟨fun n axis v hno' hv => ?_, fun n b axis hb hno' hh => ?_⟩
    · obtain ⟨rfl, rfl⟩ := AttributeRef.mk.inj (hsame ⟨v, hv⟩ hno')
      exact absurd (h.primary hreg axis.size_isPrimary) hno
    · obtain ⟨rfl, rfl⟩ := AttributeRef.mk.inj (hsame hh hno')
      exact hcenter axis hb

omit hreg hno in
theorem kept_extend : (m.extend region a).Kept m.Obeys := by
  refine Kept.put ?_ _
  exact h.kept.of_eq rfl (Nat.le_add_right _ _) le_rfl id

/-- What the solver has taken in for the new attribute settles the model. -/
theorem settled_extend {j : Nat} (ha : (m.extend region a).Affords L B (j + k))
    (hk : m'.Kept (m.extend region a).Obeys) (hw : Worked j (m.extend region a) m') :
    m'.Settled ∧ Grown m m' ∧ m'.Has ⟨name, a⟩ ∧ m'.Affords L B k :=
  ⟨hw.settled (mapped_extend h hreg hno) hk, (grown_extend h hreg hno).trans hw.grown,
    hw.grown.has (has_extend h hreg), ha.after hw⟩

theorem Settled.seatCenter (ha : m.Affords L B (6 + k)) {axis : Axis}
    (hc : a.centerAxis? = some axis) :
    Comes (L < turnBound B) (fun _ _ => False)
      (fun _ m' => m'.Settled ∧ Grown m m' ∧ m'.Has ⟨name, a⟩ ∧ m'.Affords L B k)
      (installCenter { region with vars := region.vars.insert a ⟨m.nextVariable⟩ } axis
        ⟨m.nextVariable⟩ (m.extend region a)) := by
  have ha' : (m.extend region a).Affords L B (6 + k) := ha.of_eq put_solver
  have hreg' := region?_extend_self (m := m) (a := a) (h.names hreg)
  have hold : ∀ b, b.isPrimary = true → ∃ v, v.id < m.nextVariable ∧
      (m.extend region a).varOf? ⟨name, b⟩ = some v := fun b hb => by
    obtain ⟨v, hv⟩ := h.primary hreg hb
    exact ⟨v, h.before hv, (grown_extend h hreg hno).vars hv⟩
  obtain ⟨o, hlo, ho⟩ := hold axis.origin axis.origin_isPrimary
  obtain ⟨w, hlw, hw⟩ := hold axis.size axis.size_isPrimary
  have hmade : (m.extend region a).varOf? ⟨name, a⟩ = some ⟨m.nextVariable⟩ := by
    rw [varOf?_extend h hreg, if_pos rfl]
  have hm := mapped_extend h hreg hno
  have hsat : ∃ x, m.Obeys x ∧ x ⟨m.nextVariable⟩ = x o + x w / 2 := by
    have hne : ∀ {v : Variable}, v.id < m.nextVariable → v ≠ ⟨m.nextVariable⟩ := by
      rintro v hv rfl
      exact lt_irrefl _ hv
    refine ⟨Function.update m.solver.value ⟨m.nextVariable⟩
      (m.solver.value o + m.solver.value w / 2), h.kept.local (fun v hv => ?_) h.kept.value, ?_⟩
    · rw [Function.update_of_ne (hne hv)]
    · rw [Function.update_self, Function.update_of_ne (hne hlo), Function.update_of_ne (hne hlw)]
  refine ((kept_extend h).installCenter axis ha' ((varOf?_of_region hreg').symm.trans ho)
    ((varOf?_of_region hreg').symm.trans hw) (hm.before hmade) (hm.before ho) (hm.before hw)
    hsat).imp fun _ m₁ h₁ => ?_
  refine settled_extend h hreg hno ha' (h₁.1.congr fun x => ?_) h₁.2
  rw [obeys_extend h hreg hno, hc]
  simp only [Option.some.injEq, forall_eq', reading_some hmade, reading_some ho, reading_some hw]

theorem Settled.seatOther (ha : m.Affords L B (6 + k)) (hc : a.centerAxis? = none) :
    Comes (L < turnBound B) (fun _ _ => False)
      (fun _ m' => m'.Settled ∧ Grown m m' ∧ m'.Has ⟨name, a⟩ ∧ m'.Affords L B k)
      ((if a.isIntrinsic then installIntrinsic ⟨m.nextVariable⟩ else pure () : Change Rat Unit)
        (m.extend region a)) := by
  have ha' : (m.extend region a).Affords L B (6 + k) := ha.of_eq put_solver
  have hk : (m.extend region a).Kept (m.extend region a).Obeys :=
    (kept_extend h).congr fun x => by
      rw [obeys_extend h hreg hno, hc]
      simp
  split
  · have hnew : (m.extend region a).solver.edits.contains ⟨m.nextVariable⟩ = false := by
      rw [SortedMap.contains_eq_false_iff, extend, put_solver]
      cases he : m.solver.edits.get? ⟨m.nextVariable⟩ with
      | none => rfl
      | some e => exact absurd (h.kept.pulled he) (lt_irrefl _)
    have ha₄ : (m.extend region a).Affords L B (4 + k) := ha'.mono (by omega)
    have hlt : m.nextVariable < (m.extend region a).nextVariable := by
      rw [extend, put_nextVariable]
      exact Nat.lt_succ_self _
    exact (hk.installIntrinsic ha₄ hlt hnew).imp fun _ m₁ h₁ =>
      settled_extend h hreg hno ha₄ h₁.1 h₁.2
  · have ha₀ : (m.extend region a).Affords L B (0 + k) := ha'.mono (by omega)
    exact .ok (settled_extend h hreg hno ha₀ hk ⟨rfl, rfl, le_rfl⟩)

end Extend

/-- An attribute that is not there yet is made with a variable of its own. -/
theorem Settled.ensureAttribute (h : m.Settled) (ha : m.Affords L B (6 + k))
    (hreg : m.region? name = some region) (a : Attribute) :
    Comes (L < turnBound B) (fun _ _ => False)
      (fun _ m' => m'.Settled ∧ Grown m m' ∧ m'.Has ⟨name, a⟩ ∧ m'.Affords L B k)
      (ensureAttribute name a m) := by
  cases hv : m.varOf? ⟨name, a⟩ with
  | some v =>
    rw [ensureAttribute_of_some hreg hv]
    exact .ok ⟨h, Grown.refl m, ⟨v, hv⟩, ha.mono (Nat.le_add_left _ _)⟩
  | none =>
    have hno : ¬ m.Has ⟨name, a⟩ := not_has_iff.2 hv
    rw [ensureAttribute_of_none hreg hv, seating]
    cases hc : a.centerAxis? with
    | some axis => exact h.seatCenter hreg hno ha hc
    | none => exact h.seatOther hreg hno ha hc

/-! ## Making what is asked for -/

theorem region_of_has (h : m.Has ⟨name, a⟩) : ∃ r, m.region? name = some r := by
  obtain ⟨v, hv⟩ := h
  obtain ⟨r, hr, -⟩ := Option.bind_eq_some_iff.1 hv
  exact ⟨r, hr⟩

theorem Settled.ensureAttributes (h : m.Settled) (attributes : List Attribute)
    (ha : m.Affords L B (6 * attributes.length + k)) (hreg : ∃ r, m.region? name = some r) :
    Comes (L < turnBound B) (fun _ _ => False)
      (fun _ m' => m'.Settled ∧ Grown m m' ∧ (∀ a ∈ attributes, m'.Has ⟨name, a⟩) ∧
        m'.Affords L B k)
      (attributes.forM (Model.ensureAttribute name) m) := by
  induction attributes generalizing m with
  | nil => exact .ok ⟨h, Grown.refl m, by simp, ha.mono (Nat.le_add_left _ _)⟩
  | cons a rest ih =>
    obtain ⟨r, hr⟩ := hreg
    have ha : m.Affords L B (6 + (6 * rest.length + k)) :=
      ha.mono (by rw [List.length_cons]; omega)
    refine (h.ensureAttribute ha hr a).bind fun _ m₁ h₁ => ?_
    obtain ⟨hs₁, hg₁, hh₁, ha₁⟩ := h₁
    refine (ih hs₁ ha₁ (region_of_has hh₁)).imp fun _ m₂ h₂ => ?_
    obtain ⟨hs₂, hg₂, hh₂, ha₂⟩ := h₂
    refine ⟨hs₂, hg₁.trans hg₂, fun b hb => ?_, ha₂⟩
    rcases List.mem_cons.1 hb with rfl | hb
    · exact hg₂.has hh₁
    · exact hh₂ b hb

/-- How many symbols the regions and attributes may take at most. -/
def supply (regions : List (String × List Attribute)) : Nat :=
  (regions.map fun e => 8 + 6 * e.2.length).sum

theorem Settled.materialize (h : m.Settled) (d : Demand)
    (ha : m.Affords L B (supply d.toList + k)) :
    Comes (L < turnBound B) (fun _ _ => False)
      (fun _ m' => m'.Settled ∧ Grown m m' ∧ (∀ e ∈ d.toList, ∀ a ∈ e.2, m'.Has ⟨e.1, a⟩) ∧
        m'.Affords L B k)
      (materialize d m) := by
  rw [Model.materialize]
  generalize d.toList = regions at ha ⊢
  induction regions generalizing m with
  | nil => exact .ok ⟨h, Grown.refl m, by simp, ha.mono (Nat.le_add_left _ _)⟩
  | cons e rest ih =>
    obtain ⟨name, attributes⟩ := e
    have hlen := List.length_filter_le (fun a : Attribute => !a.isPrimary) attributes
    have ha : m.Affords L B (8 + (6 * (attributes.filter fun a => !a.isPrimary).length +
        (supply rest + k))) := by
      refine ha.mono ?_
      simp only [supply, List.map_cons, List.sum_cons] at hlen ⊢
      omega
    refine Comes.bind (Q := fun _ m₁ => m₁.Settled ∧ Grown m m₁ ∧
      (∀ a ∈ attributes, m₁.Has ⟨name, a⟩) ∧ m₁.Affords L B (supply rest + k)) ?_ fun _ m₁ h₁ => ?_
    · refine (h.ensureRegion ha name).bind fun _ m₀ h₀ => ?_
      obtain ⟨hs₀, hg₀, hr₀, ha₀⟩ := h₀
      refine (hs₀.ensureAttributes _ ha₀ hr₀).imp fun _ m₁ h₁ => ?_
      obtain ⟨hs₁, hg₁, hh₁, ha₁⟩ := h₁
      refine ⟨hs₁, hg₀.trans hg₁, fun a hm => ?_, ha₁⟩
      cases hp : a.isPrimary with
      | true =>
        obtain ⟨r, hr⟩ := hr₀
        exact hg₁.has (hs₀.primary hr hp)
      | false => exact hh₁ a (List.mem_filter.2 ⟨hm, by simp [hp]⟩)
    · obtain ⟨hs₁, hg₁, hh₁, ha₁⟩ := h₁
      refine (ih hs₁ ha₁).imp fun _ m₂ h₂ => ?_
      obtain ⟨hs₂, hg₂, hh₂, ha₂⟩ := h₂
      refine ⟨hs₂, hg₁.trans hg₂, fun e' he' => ?_, ha₂⟩
      rcases List.mem_cons.1 he' with rfl | he'
      · exact fun a hm => hg₂.has (hh₁ a hm)
      · exact hh₂ e' he'

end Model

end RegionLayout
