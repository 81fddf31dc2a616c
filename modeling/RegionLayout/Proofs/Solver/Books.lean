-- What the tableau has to do with the constraints. The solutions of a sound tableau are the
-- assignments that balance every constraint, and its objective is what their errors cost. So
-- the vertex of an optimal one satisfies what is required and violates the rest as little as
-- can be.
import RegionLayout.Proofs.Solver.Equations
import RegionLayout.Proofs.Tableau.Dual

namespace RegionLayout

open Solver

namespace Solver

/-! ## Books -/

/-- Each variable that has a symbol has an external one of its own. -/
structure Named (s : Solver Rat) : Prop where
  external : ∀ {v y}, s.symbols.get? v = some y → y.isExternal = true
  before : ∀ {v y}, s.symbols.get? v = some y → y.id ≤ s.tick
  own : ∀ {v w y}, s.symbols.get? v = some y → s.symbols.get? w = some y → v = w

/-- The constraints are kept with symbols of their own, and their variables have symbols. -/
structure Booked (s : Solver Rat) : Prop extends s.Named where
  ids : ∀ {id tag c}, s.constraints.get? id = some (tag, c) → c.id = id
  fits : ∀ {id tag c}, s.constraints.get? id = some (tag, c) → tag.Fits c
  weight : ∀ {id tag c}, s.constraints.get? id = some (tag, c) → 0 ≤ c.weight
  names : ∀ {id tag c v}, s.constraints.get? id = some (tag, c) → c.expression.Names v →
    ∃ y, s.symbols.get? v = some y
  made : ∀ {id tag c y}, s.constraints.get? id = some (tag, c) → y ∈ tag.symbols →
    y.id ≤ s.tick
  owner : ∀ {id id' tag tag' c c' y}, s.constraints.get? id = some (tag, c) →
    s.constraints.get? id' = some (tag', c') → y ∈ tag.symbols → y ∈ tag'.symbols → id = id'

variable {s s' : Solver Rat} {T : ConstraintId → Rat} {σ τ : Symbol → Rat} {x : Variable → Rat}
  {v w : Variable} {y z : Symbol} {id id' : ConstraintId} {tag tag' : Tag}
  {c c' : Constraint Rat}

theorem Booked.of_eq (h : s.Booked) (hc : s'.constraints = s.constraints)
    (hs : s'.symbols = s.symbols) (ht : s.tick ≤ s'.tick) : s'.Booked where
  external hv := h.external (hs ▸ hv)
  before hv := (h.before (hs ▸ hv)).trans ht
  own hv hw := h.own (hs ▸ hv) (hs ▸ hw)
  ids hi := h.ids (hc ▸ hi)
  fits hi := h.fits (hc ▸ hi)
  weight hi := h.weight (hc ▸ hi)
  names hi hn := by
    rw [hs]
    exact h.names (hc ▸ hi) hn
  made hi hy := (h.made (hc ▸ hi) hy).trans ht
  owner hi hi' := h.owner (hc ▸ hi) (hc ▸ hi')

/-- The value of a variable by the values of the symbols. One without a symbol is zero. -/
def read (s : Solver Rat) (σ : Symbol → Rat) (v : Variable) : Rat :=
  (s.symbols.get? v).elim 0 σ

theorem value_eq_read (s : Solver Rat) : s.value = s.read s.vertex := by
  funext v
  rw [value_eq, read]
  cases s.symbols.get? v <;> rfl

theorem read_congr (h : ∀ v y, s.symbols.get? v = some y → σ y = τ y) :
    s.read σ = s.read τ := by
  funext v
  unfold read
  cases hv : s.symbols.get? v with
  | none => rfl
  | some y => exact h v y hv

theorem read_of_eq (h : s'.symbols = s.symbols) : s'.read σ = s.read σ := by
  funext v
  rw [read, read, h]

/-- The constraint, with its target taken off and its symbols put in, is zero. -/
def Balances (s : Solver Rat) (T : ConstraintId → Rat) (σ : Symbol → Rat) (id : ConstraintId)
    (tag : Tag) (c : Constraint Rat) : Prop :=
  c.expression.eval (s.read σ) - T id + tag.gap c σ = 0

def Balanced (s : Solver Rat) (T : ConstraintId → Rat) (σ : Symbol → Rat) : Prop :=
  ∀ id tag c, s.constraints.get? id = some (tag, c) → s.Balances T σ id tag c

/-- What each error costs. -/
def prices (s : Solver Rat) : List (Symbol × Rat) :=
  s.constraints.entries.flatMap fun e => e.2.1.errors.map fun y => (y, e.2.2.weight)

theorem cost_prices (s : Solver Rat) (σ : Symbol → Rat) : cost s.prices σ =
    (s.constraints.entries.map fun e => e.2.2.weight * e.2.1.strain σ).sum := by
  unfold cost prices
  generalize s.constraints.entries = l
  induction l with
  | nil => rfl
  | cons e l ih =>
    rw [List.flatMap_cons, List.map_append, List.sum_append, List.map_cons, List.sum_cons, ih,
      Tag.strain, ← List.sum_map_mul_left, List.map_map]
    rfl

theorem Booked.priced (h : s.Booked) : Priced s.prices := by
  intro p hp
  obtain ⟨⟨id, tag, c⟩, he, hp⟩ := List.mem_flatMap.1 hp
  obtain ⟨y, hy, rfl⟩ := List.mem_map.1 hp
  have hi := (SortedMap.get?_eq_some_iff _).2 he
  exact ⟨(h.fits hi).not_external (List.mem_of_mem_filter hy), h.weight hi⟩

/-! ## Sound tableaux -/

/-- The tableau says what the constraints say, with the targets that edits pull to. -/
structure Faithful (s : Solver Rat) (T : ConstraintId → Rat) : Prop extends s.Booked where
  search : s.artificial = none
  solves : ∀ σ, s.Solves σ ↔ s.Balanced T σ
  measures : s.Measures s.prices s.objective

/-- A tableau between two calls. -/
structure Sound (s : Solver Rat) (T : ConstraintId → Rat) : Prop extends s.Steady, s.Faithful T

/-- Pivots keep a tableau faithful. -/
theorem Faithful.of_pivoted (h : s.Faithful T) (hp : Pivoted s s') : s'.Faithful T := by
  have hc : s'.constraints = s.constraints := by rw [hp.frame]
  have hn : s'.symbols = s.symbols := by rw [hp.frame]
  have ht : s'.tick = s.tick := by rw [hp.frame]
  refine ⟨h.toBooked.of_eq hc hn ht.ge, hp.search h.search, fun σ => ?_, ?_⟩
  · rw [hp.solves, h.solves]
    simp only [Balanced, Balances, hc, read_of_eq hn]
  · have hprices : s'.prices = s.prices := by rw [prices, prices, hc]
    rw [hprices]
    exact hp.measures (fun σ hσ => hp.objective hσ) h.measures

theorem Sound.of_pivoted (h : s.Sound T) (hp : Pivoted s s') (hs : s'.Steady) : s'.Sound T :=
  ⟨hs, h.toFaithful.of_pivoted hp⟩

/-- The tableau has nothing to do with what is kept of the edits. -/
theorem Sound.with_edits (h : s.Sound T) (edits : SortedMap Variable (Edit Rat)) (n : Nat) :
    Sound { s with edits, editTick := n } T :=
  ⟨h.toSteady.of_eq rfl rfl rfl rfl le_rfl, h.toBooked.of_eq rfl rfl le_rfl, h.search, h.solves,
    h.measures⟩

/-- Nor has it with the limit. -/
theorem Sound.with_limit (h : s.Sound T) (n : Nat) : Sound { s with limit := n } T :=
  ⟨h.toSteady.of_eq rfl rfl rfl rfl le_rfl, h.toBooked.of_eq rfl rfl le_rfl, h.search, h.solves,
    h.measures⟩

/-- Dummies that are idle are zero at the vertex. -/
theorem DummiesIdle.vertex (h : s.DummiesIdle) (hy : y.isDummy = true) : s.vertex y = 0 := by
  cases hr : s.rows.get? y with
  | none => exact vertex_free hr
  | some r =>
    rw [vertex_basic hr]
    exact (h y r hr hy).1

theorem Sound.balances (h : s.Sound T) (hc : s.constraints.get? id = some (tag, c)) :
    c.expression.eval s.value - T id + tag.gap c s.vertex = 0 := by
  rw [value_eq_read]
  exact (h.solves _).1 h.solves_vertex id tag c hc

/-- The values satisfy a required inequality, and a required equation if its dummy is zero. -/
theorem Sound.holds_iff (h : s.Sound T) (hc : s.constraints.get? id = some (tag, c))
    (hr : c.isRequired = true) : c.comparator.Holds (c.expression.eval s.value - T id) ↔
      (tag.marker.isDummy = true → s.vertex tag.marker = 0) := by
  have hf := h.fits hc
  exact hf.holds_iff hr (h.feasible.nonneg_vertex _ (hf.not_external tag.marker_mem))
    (h.balances hc)

/-! ## Assignments of variables -/

/-- The assignment satisfies every required constraint. -/
def Meets (s : Solver Rat) (T : ConstraintId → Rat) (x : Variable → Rat) : Prop :=
  ∀ id tag c, s.constraints.get? id = some (tag, c) → c.isRequired = true →
    c.comparator.Holds (c.expression.eval x - T id)

/-- What the violated constraints cost. -/
def burden (s : Solver Rat) (T : ConstraintId → Rat) (x : Variable → Rat) : Rat :=
  (s.constraints.entries.map fun e => if e.2.2.isRequired then 0 else
    e.2.2.weight * e.2.2.comparator.violation (e.2.2.expression.eval x - T e.1)).sum

theorem Sound.meets (h : s.Sound T) (hd : s.DummiesIdle) : s.Meets T s.value :=
  fun _ _ _ hc hr => (h.holds_iff hc hr).2 fun hm => hd.vertex hm

/-- Symbols for an assignment of the variables: each constraint has the least that balance it. -/
def lift (s : Solver Rat) (T : ConstraintId → Rat) (x : Variable → Rat) (y : Symbol) : Rat :=
  match s.symbols.find? fun _ z => z == y with
  | some (v, _) => x v
  | none =>
    match s.constraints.find? fun _ e => e.1.symbols.contains y with
    | some (id, tag, c) => tag.settle c (c.expression.eval x - T id) y
    | none => 0

theorem Booked.lift_symbol (h : s.Booked) (hv : s.symbols.get? v = some y) :
    s.lift T x y = x v := by
  unfold lift
  split
  · rename_i w z hf
    obtain ⟨hw, hz, -⟩ := SortedMap.find?_eq_some _ hf
    obtain rfl : z = y := by simpa using hz
    rw [h.own hv hw]
  · rename_i hn
    have := (SortedMap.find?_eq_none_iff _).1 hn v y hv
    simp at this

/-- No variable has a restricted symbol, so a constraint has it or nothing. -/
theorem Booked.lift_of_not_external (h : s.Booked) (hy : y.isExternal = false) : s.lift T x y =
    match s.constraints.find? fun _ e => e.1.symbols.contains y with
    | some (id, tag, c) => tag.settle c (c.expression.eval x - T id) y
    | none => 0 := by
  unfold lift
  split
  · rename_i w z hf
    obtain ⟨hw, hz, -⟩ := SortedMap.find?_eq_some _ hf
    obtain rfl : z = y := by simpa using hz
    rw [h.external hw] at hy
    cases hy
  · rfl

theorem Booked.lift_restricted (h : s.Booked) (hy : y.isExternal = false) : s.lift T x y = 0 ∨
    ∃ id tag c, s.constraints.get? id = some (tag, c) ∧ y ∈ tag.symbols ∧
      s.lift T x y = tag.settle c (c.expression.eval x - T id) y := by
  rw [h.lift_of_not_external hy]
  split
  · rename_i id tag c hf
    obtain ⟨hc, hm, -⟩ := SortedMap.find?_eq_some _ hf
    exact Or.inr ⟨id, tag, c, hc, by simpa using hm, rfl⟩
  · exact Or.inl rfl

theorem Booked.lift_mem (h : s.Booked) (hc : s.constraints.get? id = some (tag, c))
    (hy : y ∈ tag.symbols) : s.lift T x y = tag.settle c (c.expression.eval x - T id) y := by
  rw [h.lift_of_not_external ((h.fits hc).not_external hy)]
  split
  · rename_i id' tag' c' hf
    obtain ⟨hc', hm, -⟩ := SortedMap.find?_eq_some _ hf
    obtain rfl := h.owner hc hc' hy (by simpa using hm)
    obtain ⟨rfl, rfl⟩ := Prod.mk.inj (Option.some.inj (hc.symm.trans hc'))
    rfl
  · rename_i hn
    have := (SortedMap.find?_eq_none_iff _).1 hn id _ hc
    simp [hy] at this

theorem Booked.eval_lift (h : s.Booked) (hc : s.constraints.get? id = some (tag, c)) :
    c.expression.eval (s.read (s.lift T x)) = c.expression.eval x := by
  apply Expression.eval_congr
  intro v hv
  obtain ⟨y, hy⟩ := h.names hc hv
  rw [read, hy, Option.elim_some, h.lift_symbol hy]

theorem Booked.balanced_lift (h : s.Booked) (hx : s.Meets T x) :
    s.Balanced T (s.lift T x) := by
  intro id tag c hc
  rw [Balances, h.eval_lift hc, Tag.gap_congr fun y hy => h.lift_mem hc hy]
  exact (h.fits hc).gap_settle (hx id tag c hc)

theorem Booked.admissible_lift (h : s.Booked) (hx : s.Meets T x) :
    Admissible (s.lift T x) := by
  constructor
  · intro y hy
    rcases h.lift_restricted (T := T) (x := x) hy with h0 | ⟨id, tag, c, -, -, hs⟩
    · exact h0.ge
    · rw [hs]
      exact tag.settle_nonneg c _ y
  · intro y hy
    have hye := Symbol.isExternal_of_isDummy hy
    rcases h.lift_restricted (T := T) (x := x) hye with h0 | ⟨id, tag, c, hc, hm, hs⟩
    · exact h0
    · rw [hs]
      exact (h.fits hc).settle_dummy hm hy (hx id tag c hc)

theorem Booked.cost_lift (h : s.Booked) (T : ConstraintId → Rat) (x : Variable → Rat) :
    cost s.prices (s.lift T x) = s.burden T x := by
  rw [cost_prices, burden]
  congr 1
  apply List.map_congr_left
  rintro ⟨id, tag, c⟩ he
  have hc := (SortedMap.get?_eq_some_iff _).2 he
  have hf := h.fits hc
  dsimp only
  rw [Tag.strain_congr fun y hy => h.lift_mem hc hy]
  cases hr : c.isRequired with
  | true => simp [Tag.strain_of_required hf hr]
  | false => simp [hf.strain_settle hr]

/-- The values violate the soft constraints by no more than the errors of the vertex. -/
theorem Sound.burden_le_cost (h : s.Sound T) : s.burden T s.value ≤ cost s.prices s.vertex := by
  rw [cost_prices, burden]
  apply List.sum_le_sum
  rintro ⟨id, tag, c⟩ he
  have hc := (SortedMap.get?_eq_some_iff _).2 he
  have hf := h.fits hc
  dsimp only
  cases hr : c.isRequired with
  | true => simp [Tag.strain_of_required hf hr]
  | false =>
    refine mul_le_mul_of_nonneg_left ?_ (h.weight hc)
    exact hf.violation_le hr h.feasible.nonneg_vertex (h.balances hc)

/-- The values of an optimal tableau cost no more than any that meet what is required. -/
theorem Sound.least (h : s.Sound T) (ho : Optimal s.objective) (hx : s.Meets T x) :
    s.burden T s.value ≤ s.burden T x := by
  obtain ⟨k, hk⟩ := id h.measures
  have hle := h.constant_le h.priced h.solved.objective h.measures ho (h.admissible_lift hx)
  rw [hk _ ((h.solves _).2 (h.balanced_lift hx)), ← eval_vertex h.solved.objective,
    hk _ h.solves_vertex, h.cost_lift] at hle
  linarith [h.burden_le_cost]

end Solver

end RegionLayout
