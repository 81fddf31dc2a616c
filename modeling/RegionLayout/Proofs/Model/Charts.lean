-- The chart of a model: which attribute has which variable. Only a batch adds to it, and what it
-- adds are variables that were not given out before. All other calls, and a batch from its first
-- relation on, leave the chart as it is.
import RegionLayout.Proofs.Model.Changes
import RegionLayout.Proofs.Model.Demands
import Mathlib.Data.Nat.Basic
import Mathlib.Order.Basic

namespace RegionLayout

open Solver

theorem Attribute.rank_lt_of_primary {a : Attribute} (h : a.isPrimary = true) : a.rank < 4 := by
  cases a <;> first | decide | simp [isPrimary, primary] at h

theorem Attribute.not_intrinsic_of_primary {a : Attribute} (h : a.isPrimary = true) :
    a.isIntrinsic = false := by
  cases a <;> first | rfl | exact absurd h (by decide)

theorem Axis.size_isPrimary (axis : Axis) : axis.size.isPrimary = true := by cases axis <;> rfl

theorem Axis.origin_isPrimary (axis : Axis) : axis.origin.isPrimary = true := by
  cases axis <;> rfl

/-- The attribute that is the centre along an axis. -/
def Axis.center : Axis → Attribute
  | horizontal => .centerX
  | vertical => .centerY

theorem Axis.center_not_primary (axis : Axis) : axis.center.isPrimary = false := by
  cases axis <;> rfl

theorem Attribute.eq_center {a : Attribute} {axis : Axis} (h : a.centerAxis? = some axis) :
    a = axis.center := by
  cases a <;> cases h <;> rfl

namespace Model

variable {R : Type} {m m' m₁ m₂ : Model R} {ref ref' : AttributeRef} {u v : Variable}
  {name : String} {a : Attribute} {region : Region} {D D' : AttributeRef → Prop}

/-! ## Variables of attributes -/

def slot? (m : Model R) (ref : AttributeRef) : Option Variable :=
  (m.region? ref.region).bind fun r => r.get? ref.attr

theorem slot?_of_region (h : m.region? name = some region) :
    m.slot? ⟨name, a⟩ = region.get? a := by
  rw [slot?, h, Option.bind_some]

theorem region_of_slot (h : m.slot? ref = some v) :
    ∃ r, m.region? ref.region = some r ∧ r.get? ref.attr = some v :=
  Option.bind_eq_some_iff.1 h

theorem region_eq_ok_iff : m.region name = .ok region ↔ m.region? name = some region := by
  unfold Model.region
  cases m.region? name <;> simp

theorem variableOf_eq_ok_iff : variableOf region a = .ok v ↔ region.get? a = some v := by
  unfold variableOf
  cases region.get? a <;> simp

theorem lookup_eq_ok_iff : m.lookup name a = .ok v ↔ m.slot? ⟨name, a⟩ = some v := by
  unfold lookup slot? Model.region
  dsimp only
  cases m.region? name with
  | none => simp [Bind.bind, Except.bind]
  | some r => simp [Bind.bind, Except.bind, variableOf_eq_ok_iff]

theorem slot_of_measured {axis : Axis} {e : LayoutError}
    (h : (do match (← m.region name).get? axis.intrinsic with
      | some v => return v
      | none => throw e) = Except.ok v) : m.slot? ⟨name, axis.intrinsic⟩ = some v := by
  unfold Model.region at h
  unfold slot?
  dsimp only
  cases hr : m.region? name with
  | none =>
    rw [hr] at h
    cases h
  | some r =>
    simp only [hr, Bind.bind, Except.bind] at h
    rw [Option.bind_some]
    cases hg : r.get? axis.intrinsic with
    | none =>
      rw [hg] at h
      cases h
    | some u =>
      rw [hg] at h
      exact congrArg some (Except.ok.inj h)

/-- The model has a variable for the attribute. -/
def Knows (m : Model R) (ref : AttributeRef) : Prop := ∃ v, m.lookup ref.region ref.attr = .ok v

theorem knows_iff : m.Knows ref ↔ ∃ v, m.slot? ref = some v := exists_congr fun _ => lookup_eq_ok_iff

theorem geometry_isOk_iff [Scalar R] :
    (∃ g, m.geometry name = .ok g) ↔ ∃ r, m.region? name = some r := by
  unfold geometry Model.region
  cases m.region? name <;> simp [Bind.bind, Except.bind, Pure.pure, Except.pure]

theorem mem_vars (h : m.slot? ref = some v) : v ∈ m.vars := by
  obtain ⟨r, hr, hv⟩ := region_of_slot h
  have hmem : r ∈ m.regions.values ++ [m.container] := by
    unfold region? at hr
    split at hr
    · obtain rfl := Option.some.inj hr
      simp
    · exact List.mem_append_left _ (List.mem_map.2 ⟨_, (SortedMap.get?_eq_some_iff _).1 hr, rfl⟩)
  exact List.mem_flatMap.2 ⟨r, hmem, List.mem_map.2 ⟨_, (SortedMap.get?_eq_some_iff _).1 hv, rfl⟩⟩

/-- Every attribute of a region has a variable of its own, the primary ones from the start, and a
value is kept only for a variable that was given out. -/
structure Charted (m : Model R) : Prop where
  names : ∀ {name r}, m.region? name = some r → r.name = name
  apart : m.regions.get? containerName = none
  primary : ∀ {name r a}, m.region? name = some r → a.isPrimary = true →
    ∃ v, m.slot? ⟨name, a⟩ = some v
  before : ∀ {ref v}, m.slot? ref = some v → v.id < m.nextVariable
  own : ∀ {ref ref' v}, m.slot? ref = some v → m.slot? ref' = some v → ref = ref'
  noted : ∀ {v x}, m.values.get? v = some x → v.id < m.nextVariable

theorem Charted.slot_of_vars (h : m.Charted) (hv : v ∈ m.vars) : ∃ ref, m.slot? ref = some v := by
  obtain ⟨r, hr, hv⟩ := List.mem_flatMap.1 hv
  obtain ⟨⟨a, w⟩, ha, rfl⟩ := List.mem_map.1 hv
  have hget : r.get? a = some w := (SortedMap.get?_eq_some_iff _).2 ha
  rcases List.mem_append.1 hr with hr | hr
  · obtain ⟨⟨name, r'⟩, hn, rfl⟩ := List.mem_map.1 hr
    have hn := (SortedMap.get?_eq_some_iff _).2 hn
    have hreg : m.region? name = some r' := by
      rw [region?, if_neg]
      · exact hn
      · rintro rfl
        cases h.apart.symm.trans hn
    exact ⟨⟨name, a⟩, (slot?_of_region hreg).trans hget⟩
  · obtain rfl := List.mem_singleton.1 hr
    exact ⟨⟨containerName, a⟩, (slot?_of_region (if_pos rfl)).trans hget⟩

/-- A region can be told by its left edge. -/
theorem Charted.region_iff (h : m.Charted) :
    (∃ r, m.region? name = some r) ↔ m.Knows ⟨name, .left⟩ := by
  rw [knows_iff]
  constructor
  · rintro ⟨r, hr⟩
    exact h.primary hr rfl
  · rintro ⟨v, hv⟩
    obtain ⟨r, hr, -⟩ := region_of_slot hv
    exact ⟨r, hr⟩

/-! ## What a call leaves as it is -/

section Views

variable {α β γ : Type} {view : Model R → γ}

/-- Whatever the call answers, the view of the model is the same after it. -/
def Keeps (view : Model R → γ) (f : Change R α) : Prop := ∀ m, view (f m).2 = view m

theorem Keeps.yields {f : Change R α} (h : Keeps view f) (m : Model R) :
    Yields (fun _ m' => view m' = view m) (f m) := by
  have hm := h m
  generalize f m = p at hm
  obtain ⟨answer, m'⟩ := p
  cases answer with
  | ok => exact .ok hm
  | error => exact .error trivial

theorem keeps_pure (a : α) : Keeps view (pure a : Change R α) := fun _ => rfl

theorem Keeps.bind {f : Change R α} {g : α → Change R β} (hf : Keeps view f)
    (hg : ∀ a, Keeps view (g a)) : Keeps view (f >>= g) := by
  intro m
  have hm := hf m
  rw [bind_apply]
  generalize f m = p at hm
  obtain ⟨answer, m'⟩ := p
  cases answer with
  | error e => exact hm
  | ok a => exact (hg a m').trans hm

theorem keeps_ask (f : Model R → Except LayoutError α) : Keeps view (ask f) := fun m => by
  rw [ask_apply]

theorem keeps_get {g : Model R → Change R β} (hg : ∀ m, Keeps view (g m)) :
    Keeps view (get >>= g) := fun m => hg m m

theorem keeps_modify {f : Model R → Model R} (h : ∀ m, view (f m) = view m) :
    Keeps view (modify f : Change R Unit) := h

theorem keeps_forM {l : List α} {f : α → Change R PUnit} (h : ∀ a ∈ l, Keeps view (f a)) :
    Keeps view (l.forM f) := by
  induction l with
  | nil => exact keeps_pure _
  | cons a l ih =>
    exact (h a List.mem_cons_self).bind fun _ => ih fun b hb => h b (List.mem_cons_of_mem _ hb)

theorem keeps_mapM {l : List α} {f : α → Change R β} (h : ∀ a ∈ l, Keeps view (f a)) :
    Keeps view (l.mapM f) := by
  induction l with
  | nil => exact keeps_pure _
  | cons a l ih =>
    rw [List.mapM_cons]
    exact (h a List.mem_cons_self).bind fun _ =>
      (ih fun b hb => h b (List.mem_cons_of_mem _ hb)).bind fun _ => keeps_pure _

/-- Where the values of the attributes are to be found, and what they were at the last solve. -/
def chart (m : Model R) : R × Region × SortedMap String Region × Nat × SortedMap Variable R :=
  (m.density, m.container, m.regions, m.nextVariable, m.values)

/-- The view shows neither the solver nor which constraint is the next. -/
def Aside (view : Model R → γ) : Prop :=
  ∀ m s n, view { m with solver := s, nextConstraint := n } = view m

theorem Aside.onSolver (h : Aside view) (wrap : Fault → LayoutError)
    (f : Solver R → Answer R Unit) : Keeps view (onSolver wrap f) := fun m => by
  rw [onSolver_apply]
  exact h m _ m.nextConstraint

theorem Aside.freshConstraint (h : Aside view) : Keeps view (freshConstraint : Change R _) :=
  fun m => h m m.solver _

variable [Scalar R]

/-- No call of the solver changes the view, and no constraint that is numbered does. -/
structure Unmoved (view : Model R → γ) : Prop where
  fresh : Keeps view (freshConstraint : Change R _)
  add : ∀ wrap c, Keeps view (onSolver wrap (·.add c))
  remove : ∀ wrap id, Keeps view (onSolver wrap (·.remove id))
  addEdit : ∀ wrap v weight, Keeps view (onSolver wrap (·.addEdit v weight))
  removeEdit : ∀ wrap v, Keeps view (onSolver wrap (·.removeEdit v))
  suggest : ∀ wrap v value, Keeps view (onSolver wrap (·.suggest v value))

theorem Aside.unmoved (h : Aside view) : Unmoved view :=
  ⟨h.freshConstraint, fun _ _ => h.onSolver _ _, fun _ _ => h.onSolver _ _,
    fun _ _ _ => h.onSolver _ _, fun _ _ => h.onSolver _ _, fun _ _ _ => h.onSolver _ _⟩

theorem Unmoved.require (h : Unmoved view) (lhs : Expression R) (c : Comparator)
    (rhs : Expression R) : Keeps view (require lhs c rhs) :=
  h.fresh.bind fun _ => h.add _ _

theorem Unmoved.installSizes (h : Unmoved view) (r : Region) :
    Keeps view (installSizes r : Change R Unit) :=
  keeps_forM fun _ _ => (keeps_ask _).bind fun _ => h.require _ _ _

theorem Unmoved.installCenter (h : Unmoved view) (r : Region) (axis : Axis) (v : Variable) :
    Keeps view (installCenter r axis v : Change R Unit) :=
  (keeps_ask _).bind fun _ => (keeps_ask _).bind fun _ => h.fresh.bind fun _ => h.add _ _

theorem Unmoved.installIntrinsic (h : Unmoved view) (v : Variable) :
    Keeps view (installIntrinsic v : Change R Unit) :=
  (h.addEdit _ _ _).bind fun _ => h.suggest _ _ _

end Views

/-! ## Calls that only the solver has work with -/

/-- A call can fail only with a fault of the solver. -/
abbrev Serves {α : Type} (Q : α → Model R → Prop) : Except LayoutError α × Model R → Prop :=
  Comes False (fun e _ => ∃ fault, e = .solver fault) Q

abbrev OnlyFaults {α : Type} : Except LayoutError α × Model R → Prop := Serves fun _ _ => True

theorem serves_onSolver {f : Solver R → Answer R Unit} {Q : Unit → Model R → Prop}
    (h : ∀ s, f m.solver = (.ok (), s) → Q () { m with solver := s }) :
    Serves Q (onSolver .solver f m) := by
  rw [onSolver_apply]
  cases hf : f m.solver with
  | mk answer s =>
    cases answer with
    | ok => exact .ok (h s hf)
    | error fault => exact .error ⟨fault, rfl⟩

theorem onlyFaults_onSolver (f : Solver R → Answer R Unit) (m : Model R) :
    OnlyFaults (onSolver .solver f m) := serves_onSolver fun _ _ => trivial

theorem Keeps.comes {α γ : Type} {view : Model R → γ} {f : Change R α} (h : Keeps view f)
    (hf : OnlyFaults (f m)) :
    Comes False (fun e m' => (∃ fault, e = .solver fault) ∧ view m' = view m)
      (fun _ m' => view m' = view m) (f m) := by
  have hm := h m
  generalize f m = p at hf hm
  cases hf with
  | ok => exact .ok hm
  | error he => exact .error ⟨he, hm⟩
  | spent h => exact h.elim

section Installing

variable [Scalar R] {r : Region} {axis : Axis}

/-- The model with nothing of its solver. -/
def bare (m : Model R) : Model R := { m with solver := .empty 0, nextConstraint := 0 }

theorem aside_bare : Aside (bare : Model R → Model R) := fun _ _ _ => rfl

theorem eq_of_bare (h : m'.bare = m.bare) :
    m' = { m with solver := m'.solver, nextConstraint := m'.nextConstraint } := by
  cases m
  cases m'
  simp only [bare, mk.injEq] at h ⊢
  simpa using h

theorem onlyFaults_require (lhs : Expression R) (c : Comparator) (rhs : Expression R)
    (m : Model R) : OnlyFaults (require lhs c rhs m) := by
  rw [require, freshConstraint_bind]
  exact onlyFaults_onSolver _ _

theorem onlyFaults_installSizes (hw : r.get? .width = some u) (hh : r.get? .height = some v)
    (m : Model R) : OnlyFaults (installSizes r m) := by
  rw [installSizes, forM_pair]
  refine Comes.bind (Q := fun _ _ => True) ?_ fun _ m₁ _ => ?_
  · rw [ask_bind (variableOf_some hw)]
    exact onlyFaults_require _ _ _ m
  · refine Comes.bind (Q := fun _ _ => True) ?_ fun _ m₂ _ => .ok trivial
    rw [ask_bind (variableOf_some hh)]
    exact onlyFaults_require _ _ _ m₁

theorem onlyFaults_installCenter (ho : r.get? axis.origin = some u)
    (hs : r.get? axis.size = some v) (c : Variable) (m : Model R) :
    OnlyFaults (installCenter r axis c m) := by
  rw [installCenter, ask_bind (variableOf_some ho), ask_bind (variableOf_some hs),
    freshConstraint_bind]
  exact onlyFaults_onSolver _ _

theorem onlyFaults_installIntrinsic (v : Variable) (m : Model R) :
    OnlyFaults (installIntrinsic v m) :=
  (onlyFaults_onSolver _ m).bind fun _ m₁ _ => onlyFaults_onSolver _ m₁

end Installing

/-! ## Growing -/

/-- There are more attributes with variables, all among `D`, and the variables were not given out
before. -/
structure Spreads (D : AttributeRef → Prop) (m m' : Model R) : Prop where
  kept : ∀ {ref v}, m.slot? ref = some v → m'.slot? ref = some v
  fresh : ∀ {ref v}, m'.slot? ref = some v → m.slot? ref = some v ∨
    m.slot? ref = none ∧ D ref ∧ m.nextVariable ≤ v.id
  next : m.nextVariable ≤ m'.nextVariable

/-- A model that has more regions and attributes, and is otherwise as it was but for its solver. -/
structure Grows (D : AttributeRef → Prop) (m m' : Model R) : Prop extends Spreads D m m' where
  frame : m' = { m with
    solver := m'.solver, nextConstraint := m'.nextConstraint
    container := m'.container, regions := m'.regions, nextVariable := m'.nextVariable }

theorem Spreads.refl (m : Model R) : Spreads D m m := ⟨id, .inl, le_rfl⟩

theorem Spreads.trans (h : Spreads D m m₁) (h' : Spreads D m₁ m₂) : Spreads D m m₂ where
  kept hv := h'.kept (h.kept hv)
  fresh {ref v} hv := by
    rcases h'.fresh hv with hv | ⟨hnone, hD, hlt⟩
    · exact h.fresh hv
    · refine .inr ⟨?_, hD, h.next.trans hlt⟩
      cases hm : m.slot? ref with
      | none => rfl
      | some w => cases hnone.symm.trans (h.kept hm)
  next := h.next.trans h'.next

theorem Spreads.mono (h : Spreads D m m') (hD : ∀ ref, D ref → D' ref) : Spreads D' m m' where
  kept := h.kept
  fresh hv := (h.fresh hv).imp_right fun ⟨hnone, hd, hlt⟩ => ⟨hnone, hD _ hd, hlt⟩
  next := h.next

theorem Grows.refl (m : Model R) : Grows D m m := ⟨.refl m, rfl⟩

theorem Grows.trans (h : Grows D m m₁) (h' : Grows D m₁ m₂) : Grows D m m₂ :=
  ⟨h.toSpreads.trans h'.toSpreads, by rw [h'.frame, h.frame]⟩

theorem Grows.of_bare [Scalar R] (h : Grows D m m₁) (hb : m'.bare = m₁.bare) : Grows D m m' := by
  rw [eq_of_bare hb]
  exact ⟨⟨h.kept, h.fresh, h.next⟩, by rw [h.frame]⟩

theorem Charted.of_bare [Scalar R] (h : m.Charted) (hb : m'.bare = m.bare) : m'.Charted := by
  rw [eq_of_bare hb]
  exact ⟨h.names, h.apart, h.primary, h.before, h.own, h.noted⟩

/-- A region that keeps its variables and may have new ones, for attributes in `D`, among the next
`count`. -/
structure Widened (m : Model R) (count : Nat) (D : AttributeRef → Prop) (r : Region) : Prop where
  kept : ∀ {b v}, m.slot? ⟨r.name, b⟩ = some v → r.get? b = some v
  fresh : ∀ {b v}, r.get? b = some v → m.slot? ⟨r.name, b⟩ = some v ∨
    m.slot? ⟨r.name, b⟩ = none ∧ D ⟨r.name, b⟩ ∧ m.nextVariable ≤ v.id ∧
      v.id < m.nextVariable + count
  own : ∀ {b b' v}, r.get? b = some v → r.get? b' = some v → b = b'
  primary : ∀ {b}, b.isPrimary = true → ∃ v, r.get? b = some v

theorem slot?_put (ref : AttributeRef) : (m.put region).slot? ref =
    if ref.region = region.name then region.get? ref.attr else m.slot? ref := by
  rw [slot?, region?_put]
  split <;> rfl

/-! ## A widened region in its place -/

section Put

variable {count : Nat} (hm₁ : m₁ = { m with
  solver := m₁.solver, nextConstraint := m₁.nextConstraint
  nextVariable := m.nextVariable + count })

include hm₁

theorem region?_put_later (n : String) : (m₁.put region).region? n =
    if n = region.name then some region else m.region? n := by
  rw [region?_put, hm₁]
  rfl

theorem slot?_put_later (ref : AttributeRef) : (m₁.put region).slot? ref =
    if ref.region = region.name then region.get? ref.attr else m.slot? ref := by
  rw [slot?_put, hm₁]
  rfl

theorem nextVariable_put_later : (m₁.put region).nextVariable = m.nextVariable + count := by
  rw [put_nextVariable, hm₁]

variable (hw : m.Widened count D region)

include hw

theorem Widened.kept_put (hv : m.slot? ref = some v) : (m₁.put region).slot? ref = some v := by
  rw [slot?_put_later hm₁]
  split
  · rename_i hn
    exact hw.kept (hn ▸ hv)
  · exact hv

/-- A variable is an old one, or the region has it. -/
theorem Widened.of_put (hv : (m₁.put region).slot? ref = some v) :
    m.slot? ref = some v ∨ ref.region = region.name ∧ region.get? ref.attr = some v ∧
      m.slot? ref = none ∧ D ref ∧ m.nextVariable ≤ v.id ∧ v.id < m.nextVariable + count := by
  rw [slot?_put_later hm₁] at hv
  split at hv
  · rename_i hn
    obtain ⟨n, b⟩ := ref
    obtain rfl : n = region.name := hn
    exact (hw.fresh hv).imp_right fun hf => ⟨rfl, hv, hf⟩
  · exact .inl hv

theorem Widened.grows : Grows D m (m₁.put region) := by
  refine ⟨⟨hw.kept_put hm₁, fun {ref v} hv => ?_, ?_⟩, ?_⟩
  · rcases hw.of_put hm₁ hv with hv | ⟨-, -, hnone, hD, hge, -⟩
    · exact .inl hv
    · exact .inr ⟨hnone, hD, hge⟩
  · rw [nextVariable_put_later hm₁]
    exact Nat.le_add_right _ _
  · rw [Model.put, hm₁]
    split <;> rfl

/-- A new variable is none of the old ones, and the region has it once. -/
theorem Charted.own_put (h : m.Charted) {ref' : AttributeRef}
    (hv : (m₁.put region).slot? ref = some v) (hv' : (m₁.put region).slot? ref' = some v) :
    ref = ref' := by
  rcases hw.of_put hm₁ hv with ho | ⟨hn, hg, -, -, hge, -⟩
  -- of an old variable and a new one the new one has the larger number
  · rcases hw.of_put hm₁ hv' with ho' | ⟨-, -, -, -, hge, -⟩
    · exact h.own ho ho'
    · exact absurd (h.before ho) (not_lt.2 hge)
  · rcases hw.of_put hm₁ hv' with ho' | ⟨hn', hg', -⟩
    · exact absurd (h.before ho') (not_lt.2 hge)
    · obtain ⟨n, b⟩ := ref
      obtain ⟨n', b'⟩ := ref'
      obtain rfl : n = n' := hn.trans hn'.symm
      exact congrArg _ (hw.own hg hg')

theorem Charted.put (h : m.Charted) : (m₁.put region).Charted := by
  refine ⟨fun {n r} hr => ?_, ?_, fun {n r b} hr hb => ?_, fun {ref v} hv => ?_,
    h.own_put hm₁ hw, fun {v x} hx => ?_⟩
  · rw [region?_put_later hm₁] at hr
    split at hr
    · obtain rfl := Option.some.inj hr
      exact Eq.symm ‹_›
    · exact h.names hr
  · rw [Model.put, hm₁]
    split
    · exact h.apart
    · rename_i hne
      rw [SortedMap.get?_insert, if_neg (Ne.symm hne)]
      exact h.apart
  · rw [region?_put_later hm₁] at hr
    split at hr
    · subst n
      rw [slot?_put_later hm₁, if_pos rfl]
      exact hw.primary hb
    · obtain ⟨v, hv⟩ := h.primary hr hb
      exact ⟨v, hw.kept_put hm₁ hv⟩
  · rw [nextVariable_put_later hm₁]
    rcases hw.of_put hm₁ hv with hv | ⟨-, -, -, -, -, hlt⟩
    · exact (h.before hv).trans_le (Nat.le_add_right _ _)
    · exact hlt
  · rw [nextVariable_put_later hm₁]
    rw [put_values, hm₁] at hx
    exact (h.noted hx).trans_le (Nat.le_add_right _ _)

end Put

/-! ## Models of one chart -/

theorem aside_chart : Aside (chart : Model R → _) := fun _ _ _ => rfl

section SameChart

variable {D : AttributeRef → Prop} (hc : m'.chart = m.chart)

include hc

theorem eq_of_chart : m'.container = m.container ∧ m'.regions = m.regions ∧
    m'.nextVariable = m.nextVariable ∧ m'.values = m.values := by
  simp only [chart, Prod.mk.injEq] at hc
  exact hc.2

theorem values_of_chart : m'.values = m.values := (eq_of_chart hc).2.2.2

theorem region?_of_chart : m'.region? = m.region? := by
  obtain ⟨hcontainer, hregions, -⟩ := eq_of_chart hc
  funext n
  rw [region?, region?, hcontainer, hregions]

theorem slot?_of_chart : m'.slot? = m.slot? := by
  funext ref
  rw [slot?, slot?, region?_of_chart hc]

theorem Charted.of_chart (h : m.Charted) : m'.Charted := by
  obtain ⟨-, hregions, hnext, hvalues⟩ := eq_of_chart hc
  refine ⟨?_, hregions ▸ h.apart, ?_, ?_, ?_, ?_⟩
  · rw [region?_of_chart hc]
    exact h.names
  · rw [region?_of_chart hc, slot?_of_chart hc]
    exact h.primary
  · rw [slot?_of_chart hc, hnext]
    exact h.before
  · rw [slot?_of_chart hc]
    exact h.own
  · rw [hvalues, hnext]
    exact h.noted

theorem Spreads.of_chart {m₀ : Model R} (h : Spreads D m₀ m) : Spreads D m₀ m' := by
  obtain ⟨-, -, hnext, -⟩ := eq_of_chart hc
  refine ⟨?_, ?_, hnext ▸ h.next⟩
  · rw [slot?_of_chart hc]
    exact h.kept
  · rw [slot?_of_chart hc]
    exact h.fresh

end SameChart

end Model

end RegionLayout
