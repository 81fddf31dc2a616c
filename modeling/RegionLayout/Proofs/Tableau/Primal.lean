-- The primal loop. Each turn pivots a feasible tableau to a feasible one with the same
-- solutions and the same costs, so the loop ends, if it does, at a vertex of least cost.
import RegionLayout.Proofs.Tableau.Ratios

namespace RegionLayout

open Solver

namespace Solver

/-! ## Loops -/

/-- What each turn keeps holds wherever the loop stops: before its last turn, before the turn
that broke, or when its turns are used up. -/
theorem Turn.run_cases {σ : Type} {step : σ → Turn σ} {P : σ → Prop}
    (keep : ∀ s s', P s → step s = .next s' → P s') {n : Nat} {s : σ} (h : P s) :
    (∃ t s', P t ∧ step t = .done s' ∧ Turn.run step n s = (.ok (), s')) ∨
      (∃ t b s', P t ∧ step t = .broken b s' ∧
        Turn.run step n s = (.error (.breakdown b), s')) ∨
      ∃ s', P s' ∧ Turn.run step n s = (.error .pivotLimit, s') := by
  induction n generalizing s with
  | zero => exact Or.inr (Or.inr ⟨s, h, rfl⟩)
  | succ n ih =>
    cases ht : step s with
    | done s' => exact Or.inl ⟨s, s', h, ht, by simp [Turn.run, ht]⟩
    | broken b s' => exact Or.inr (Or.inl ⟨s, b, s', h, ht, by simp [Turn.run, ht]⟩)
    | next s' =>
      have hr : Turn.run step (n + 1) s = Turn.run step n s' := by simp [Turn.run, ht]
      rw [hr]
      exact ih (keep s s' h ht)

/-- A loop fails by running out of turns or by breaking. -/
theorem Turn.eq_of_run_eq_error {α : Type} {step : α → Turn α} {n : Nat} {a : α} {f : Fault}
    (h : (Turn.run step n a).1 = .error f) : f = .pivotLimit ∨ ∃ b, f = .breakdown b := by
  have keep : ∀ b b' : α, True → step b = .next b' → True := fun _ _ _ _ => trivial
  rcases Turn.run_cases (n := n) (s := a) keep trivial with
    ⟨_, _, -, -, hr⟩ | ⟨_, b, _, -, -, hr⟩ | ⟨_, -, hr⟩
  · simp [hr] at h
  · rw [hr] at h
    exact Or.inr ⟨b, (Except.error.inj h).symm⟩
  · rw [hr] at h
    exact Or.inl (Except.error.inj h).symm

/-! ## Costs -/

/-- What the symbols cost at a price each. -/
def cost (prices : List (Symbol × Rat)) (σ : Symbol → Rat) : Rat :=
  (prices.map fun p => p.2 * σ p.1).sum

theorem cost_add (prices : List (Symbol × Rat)) (σ τ : Symbol → Rat) :
    cost prices (σ + τ) = cost prices σ + cost prices τ := by
  simp only [cost, ← List.sum_map_add, Pi.add_apply, mul_add]

/-- Prices are on restricted symbols, and none is negative. -/
def Priced (prices : List (Symbol × Rat)) : Prop :=
  ∀ p ∈ prices, p.1.isExternal = false ∧ 0 ≤ p.2

/-- On the solutions of the tableau the row is the cost, up to a constant. -/
def Measures (s : Solver Rat) (prices : List (Symbol × Rat)) (g : Row Rat) : Prop :=
  ∃ k, ∀ σ, s.Solves σ → g.eval σ = k + cost prices σ

/-- No restricted symbol is negative. -/
def Nonneg (σ : Symbol → Rat) : Prop := ∀ x, x.isExternal = false → 0 ≤ σ x

variable {s s' : Solver Rat} {prices : List (Symbol × Rat)} {g : Row Rat} {σ τ : Symbol → Rat}

theorem cost_nonneg (hp : Priced prices) (hσ : Nonneg σ) : 0 ≤ cost prices σ := by
  apply List.sum_nonneg
  intro k hk
  obtain ⟨p, hp', rfl⟩ := List.mem_map.1 hk
  exact mul_nonneg (hp p hp').2 (hσ _ (hp p hp').1)

theorem cost_congr (h : ∀ p ∈ prices, σ p.1 = τ p.1) : cost prices σ = cost prices τ := by
  unfold cost
  congr 1
  apply List.map_congr_left
  intro p hp
  rw [h p hp]

/-! ## Feasible tableaux -/

/-- No restricted basic symbol is negative. -/
def Feasible (s : Solver Rat) : Prop :=
  ∀ x r, s.rows.get? x = some r → x.isExternal = false → 0 ≤ r.constant

theorem Feasible.nonneg_vertex (h : s.Feasible) : Nonneg s.vertex := by
  intro x hx
  cases hr : s.rows.get? x with
  | none => rw [vertex_free hr]
  | some r =>
    rw [vertex_basic hr]
    exact h x r hr hx

/-- How the solution moves from the vertex when one free symbol grows to `t`. -/
theorem fill_single_basic {x y : Symbol} {r : Row Rat} (hx : s.rows.get? x = some r) (t : Rat) :
    s.fill (Pi.single y t) x = r.constant + r.coefficient y * t := by
  rw [fill_basic hx, Row.eval, Row.slope_single]

theorem eval_fill_single (hg : g.Within s.Free) (y : Symbol) (t : Rat) :
    g.eval (s.fill (Pi.single y t)) = g.constant + g.coefficient y * t := by
  rw [← Row.slope_single, ← Row.eval]
  exact Row.eval_congr fun x hx => fill_free (hg x hx)

/-- A cost with a free symbol that lowers it has a row that keeps the symbol from growing
without end. -/
theorem exists_leaving (h : s.Tidy) (hf : s.Feasible) (hp : Priced prices)
    (hg : g.Within s.Free) (hm : s.Measures prices g) {entering : Symbol}
    (he : g.coefficient entering < 0) : s.leaving? entering ≠ none := by
  intro hnone
  obtain ⟨k, hk⟩ := hm
  have hfree := hg entering (Row.uses_of_coefficient_ne he.ne)
  have bounded : ∀ t, 0 ≤ t → k ≤ g.constant + g.coefficient entering * t := by
    intro t ht
    have hn : Nonneg (s.fill (Pi.single entering t)) := by
      intro x hx
      cases hr : s.rows.get? x with
      | none =>
        rw [fill_free hr, Pi.single_apply]
        split
        · exact ht
        · exact le_refl _
      | some r =>
        rw [fill_single_basic hr]
        have := leaving?_eq_none hnone hr hx
        have := hf x r hr hx
        positivity
    rw [← eval_fill_single hg, hk _ (h.solves_fill _)]
    linarith [cost_nonneg hp hn]
  have hdiv : 0 ≤ (g.constant - k) / -g.coefficient entering := by
    have := bounded 0 le_rfl
    apply div_nonneg <;> linarith
  have := bounded ((g.constant - k) / -g.coefficient entering + 1) (by linarith)
  have hcancel : g.coefficient entering * ((g.constant - k) / -g.coefficient entering) =
      -(g.constant - k) := by
    field_simp [he.ne]
  rw [mul_add, hcancel] at this
  linarith

/-- No variable stands in a cost. -/
theorem coefficient_eq_zero_of_external (h : s.Regular) (hp : Priced prices)
    (hg : g.Within s.Free) (hm : s.Measures prices g) {y : Symbol} (hy : y.isExternal = true) :
    g.coefficient y = 0 := by
  by_contra hc
  obtain ⟨k, hk⟩ := hm
  have hfree := hg y (Row.uses_of_coefficient_ne hc)
  have hsame : cost prices (s.fill (Pi.single y 1)) = cost prices s.vertex := by
    apply cost_congr
    intro p hp'
    have hpe := (hp p hp').1
    cases hr : s.rows.get? p.1 with
    | none =>
      rw [fill_free hr, vertex_free hr, Pi.single_apply, if_neg]
      rintro rfl
      rw [hy] at hpe
      simp at hpe
    | some r =>
      rw [fill_single_basic hr, vertex_basic hr, Row.coefficient_of_not_uses, zero_mul, add_zero]
      intro hu
      rw [h.bound _ _ hr hpe y hu] at hy
      simp at hy
  have h1 := hk _ (h.solves_fill (Pi.single y 1))
  have h2 := hk _ h.solves_vertex
  rw [eval_vertex hg] at h2
  rw [eval_fill_single hg] at h1
  apply hc
  linarith

/-! ## Tableaux that pivots lead to -/

/-- The solver has the solutions and the costs of another, and differs only in its tableau. -/
structure Pivoted (s s' : Solver Rat) : Prop where
  solves : ∀ σ, s'.Solves σ ↔ s.Solves σ
  goalRow : ∀ goal g, s.goalRow? goal = some g →
    ∃ g', s'.goalRow? goal = some g' ∧ ∀ σ, s.Solves σ → g'.eval σ = g.eval σ
  search : s.artificial = none → s'.artificial = none
  frame : s' = { s with
    rows := s'.rows, infeasible := s'.infeasible, objective := s'.objective,
    artificial := s'.artificial }

theorem Pivoted.refl (s : Solver Rat) : Pivoted s s :=
  ⟨fun _ => Iff.rfl, fun _ g hg => ⟨g, hg, fun _ _ => rfl⟩, id, rfl⟩

theorem Pivoted.trans {s₁ s₂ s₃ : Solver Rat} (h : Pivoted s₁ s₂) (h' : Pivoted s₂ s₃) :
    Pivoted s₁ s₃ where
  solves σ := (h'.solves σ).trans (h.solves σ)
  goalRow goal g hg := by
    obtain ⟨g', hg', he'⟩ := h.goalRow goal g hg
    obtain ⟨g'', hg'', he''⟩ := h'.goalRow goal g' hg'
    exact ⟨g'', hg'', fun σ hσ => (he'' σ ((h.solves σ).2 hσ)).trans (he' σ hσ)⟩
  search hs := h'.search (h.search hs)
  frame := by rw [h'.frame, h.frame]

theorem Pivoted.objective (h : Pivoted s s') {σ : Symbol → Rat} (hσ : s.Solves σ) :
    s'.objective.eval σ = s.objective.eval σ := by
  obtain ⟨g', hg', he⟩ := h.goalRow .primary _ rfl
  obtain rfl := Option.some.inj hg'
  exact he σ hσ

theorem Pivoted.measures (h : Pivoted s s') {g g' : Row Rat}
    (he : ∀ σ, s.Solves σ → g'.eval σ = g.eval σ) (hm : s.Measures prices g) :
    s'.Measures prices g' := by
  obtain ⟨k, hk⟩ := hm
  refine ⟨k, fun σ hσ => ?_⟩
  have hσ := (h.solves σ).1 hσ
  rw [he σ hσ, hk σ hσ]

theorem pivoted_pivot (h : s.Tidy) {leaving entering : Symbol} {row : Row Rat}
    (hl : s.rows.get? leaving = some row) (he : row.coefficient entering ≠ 0) :
    Pivoted s (s.pivot leaving row entering) := by
  have same : ∀ σ, s.Solves σ → ∀ g : Row Rat,
      (g.substitute entering (row.exchange leaving entering)).eval σ = g.eval σ := by
    intro σ hσ g
    refine Row.eval_substitute_of_eq σ ?_ g
    exact (Row.eq_eval_exchange_iff σ he
      (h.ne_of_uses hl (Row.uses_of_coefficient_ne he))).2 (hσ _ _ hl)
  refine ⟨fun σ => h.solves_pivot hl he, ?_, fun hs => ?_, rfl⟩
  · intro goal g hg
    refine ⟨g.substitute entering (row.exchange leaving entering), ?_, fun σ hσ => same σ hσ g⟩
    cases goal with
    | primary =>
      obtain rfl := Option.some.inj hg
      rfl
    | artificial =>
      have hg : s.artificial = some g := hg
      change s.artificial.map _ = _
      rw [hg]
      rfl
  · change s.artificial.map _ = _
    rw [hs]
    rfl

/-! ## Turns -/

/-- A basic dummy is zero, and hangs on dummies alone. -/
def DummiesIdle (s : Solver Rat) : Prop :=
  ∀ x r, s.rows.get? x = some r → x.isDummy = true →
    r.constant = 0 ∧ r.Within fun y => y.isDummy = true

instance (s : Solver Rat) : Decidable s.DummiesIdle :=
  decidable_of_iff (∀ e ∈ s.rows.entries, e.1.isDummy = true →
      e.2.constant = 0 ∧ e.2.allDummies = true) <| by
    simp only [DummiesIdle, SortedMap.get?_eq_some_iff, Prod.forall, Row.allDummies_eq_true_iff]

/-- A tableau between two calls: restricted symbols are not negative, and none is noted to
be. -/
structure Steady (s : Solver Rat) : Prop extends s.Regular where
  feasible : s.Feasible
  noted : s.infeasible = []

/-- The row is over symbols that are free, numbered up to `n`, and has no zeros. -/
structure Suits (s : Solver Rat) (n : Nat) (r : Row Rat) : Prop where
  within : r.Within fun y => s.Free y ∧ y.id ≤ n
  clean : r.Clean

/-- A row has no symbol that was made after it. -/
theorem Suits.not_uses_of_new {n : Nat} (h : s.Suits n g) {x : Symbol} (hx : n < x.id) :
    ¬ g.Uses x := fun hu => absurd (h.within _ hu).2 (not_le.2 hx)

theorem Suits.mono {m n : Nat} (h : s.Suits m g) (hmn : m ≤ n) : s.Suits n g :=
  ⟨h.within.mono fun _ hy => ⟨hy.1, hy.2.trans hmn⟩, h.clean⟩

theorem Regular.suits_objective (h : s.Regular) : s.Suits s.tick s.objective :=
  ⟨fun y hy => ⟨h.solved.objective y hy, h.known.objective y hy⟩, h.clean.objective⟩

theorem Regular.suits_row (h : s.Regular) {x : Symbol} (hx : s.rows.get? x = some g) :
    s.Suits s.tick g :=
  ⟨fun y hy => ⟨h.solved.rows x g hx y hy, h.known.rows x g hx y hy⟩, h.clean.rows x g hx⟩

theorem Regular.suits_artificial (h : s.Regular) (hg : s.artificial = some g) :
    s.Suits s.tick g :=
  ⟨fun y hy => ⟨h.solved.artificial g hg y hy, h.known.artificial g hg y hy⟩,
    h.clean.artificial g hg⟩

/-- A steady tableau may be given other objectives and more symbols. -/
theorem Steady.of_rows (h : s.Steady) (hr : s'.rows = s.rows)
    (hi : s'.infeasible = s.infeasible) (ht : s.tick ≤ s'.tick)
    (ho : s.Suits s'.tick s'.objective)
    (ha : ∀ r, s'.artificial = some r → s.Suits s'.tick r) : s'.Steady := by
  have hfree : ∀ y, s.Free y → s'.Free y := fun y hy => by
    rw [Free, hr]
    exact hy
  have hrow : ∀ x r, s'.rows.get? x = some r → s.Suits s'.tick r := fun x r hx =>
    (h.suits_row (hr ▸ hx)).mono ht
  refine ⟨⟨⟨⟨fun x r hx => ?_, ?_, fun r hx => ?_⟩, ⟨fun x r hx => ?_, ?_, fun r hx => ?_⟩,
    fun x r hx => ?_⟩, ⟨fun x r hx => ?_, ho.clean, fun r hx => ?_⟩, fun x r hx => ?_⟩,
    fun x r hx => ?_, hi.trans h.noted⟩
  · exact (hrow x r hx).within.mono fun y hy => hfree y hy.1
  · exact ho.within.mono fun y hy => hfree y hy.1
  · exact (ha r hx).within.mono fun y hy => hfree y hy.1
  · exact (hrow x r hx).within.mono fun y hy => hy.2
  · exact ho.within.mono fun y hy => hy.2
  · exact (ha r hx).within.mono fun y hy => hy.2
  · exact (h.keys x r (hr ▸ hx)).trans ht
  · exact (hrow x r hx).clean
  · exact (ha r hx).clean
  · exact h.bound x r (hr ▸ hx)
  · exact h.feasible x r (hr ▸ hx)

/-- Only the rows, the objectives and the number of symbols made matter. -/
theorem Steady.of_eq (h : s.Steady) (hr : s'.rows = s.rows) (ho : s'.objective = s.objective)
    (ha : s'.artificial = s.artificial) (hi : s'.infeasible = s.infeasible)
    (ht : s.tick ≤ s'.tick) : s'.Steady :=
  h.of_rows hr hi ht (ho ▸ h.suits_objective.mono ht) fun _ hx =>
    (h.suits_artificial (ha ▸ hx)).mono ht

theorem Steady.dropRow (h : s.Steady) (x : Symbol) : (s.dropRow x).Steady where
  toRegular := h.toRegular.dropRow x
  feasible y r hy hye := by
    rw [rows_dropRow] at hy
    split at hy
    · simp at hy
    · exact h.feasible y r hy hye
  noted := h.noted

theorem DummiesIdle.dropRow (h : s.DummiesIdle) (x : Symbol) : (s.dropRow x).DummiesIdle := by
  intro y r hy hyd
  rw [rows_dropRow] at hy
  split at hy
  · simp at hy
  · exact h y r hy hyd

/-- What one turn of the primal loop comes to. -/
inductive PrimalOutcome (goal : Goal) (s : Solver Rat) : Turn (Solver Rat) → Prop
  | settled (hn : ∀ g, s.goalRow? goal = some g → entering? g = none) :
      PrimalOutcome goal s (.done s)
  | pivoted {g : Row Rat} {entering leaving : Symbol} {row : Row Rat}
      (hg : s.goalRow? goal = some g) (he : entering? g = some entering)
      (hl : s.leaving? entering = some leaving) (hr : s.rows.get? leaving = some row) :
      PrimalOutcome goal s (.next (s.pivot leaving row entering))
  /-- No row has less room the more the symbol grows. -/
  | stuck {g : Row Rat} {entering : Symbol} (hg : s.goalRow? goal = some g)
      (he : entering? g = some entering) (hl : s.leaving? entering = none) :
      PrimalOutcome goal s (.broken .unboundedObjective s)

theorem primalTurn_outcome (goal : Goal) (s : Solver Rat) :
    PrimalOutcome goal s (primalTurn goal s) := by
  unfold primalTurn
  split
  · rename_i hn
    refine .settled fun g hg => ?_
    rw [hg] at hn
    exact hn
  · rename_i entering he
    obtain ⟨g, hg, he⟩ := Option.bind_eq_some_iff.1 he
    split
    · exact .stuck hg he ‹_›
    · rename_i leaving hl
      obtain ⟨row, hr, -⟩ := leaving?_eq_some hl
      rw [hr]
      exact .pivoted hg he hl hr

theorem primalTurn_eq_next {goal : Goal} (h : primalTurn goal s = .next s') :
    ∃ g entering leaving row, s.goalRow? goal = some g ∧ entering? g = some entering ∧
      s.leaving? entering = some leaving ∧ s.rows.get? leaving = some row ∧
      s' = s.pivot leaving row entering := by
  have ho := primalTurn_outcome goal s
  rw [h] at ho
  cases ho with
  | pivoted hg he hl hr => exact ⟨_, _, _, _, hg, he, hl, hr, rfl⟩

theorem primalTurn_eq_done {goal : Goal} (h : primalTurn goal s = .done s') :
    s' = s ∧ ∀ g, s.goalRow? goal = some g → entering? g = none := by
  have ho := primalTurn_outcome goal s
  rw [h] at ho
  cases ho with
  | settled hn => exact ⟨rfl, hn⟩

theorem primalTurn_eq_broken {goal : Goal} {b : Breakdown}
    (h : primalTurn goal s = .broken b s') :
    ∃ g entering, s.goalRow? goal = some g ∧ entering? g = some entering ∧
      s.leaving? entering = none := by
  have ho := primalTurn_outcome goal s
  rw [h] at ho
  cases ho with
  | stuck hg he hl => exact ⟨_, _, hg, he, hl⟩

/-- A constant is not moved below zero by a step within the room that there is for it. -/
theorem add_mul_nonneg_of_le_room {k c q : Rat} (hk : 0 ≤ k) (hq : 0 ≤ q)
    (h : c < 0 → q ≤ -k / c) : 0 ≤ k + c * q := by
  rcases le_or_gt 0 c with hc | hc
  · have := mul_nonneg hc hq
    linarith
  · have hmul := mul_le_mul_of_nonpos_left (h hc) hc.le
    have hcancel : c * (-k / c) = -k := by field_simp [hc.ne]
    linarith

/-- A pivot by the ratio test keeps restricted symbols from going below zero. -/
theorem Steady.feasible_pivot (h : s.Steady) {entering leaving : Symbol} {row : Row Rat}
    (hl : s.leaving? entering = some leaving) (hr : s.rows.get? leaving = some row) :
    (s.pivot leaving row entering).Feasible := by
  obtain ⟨row', hr', hle, hneg, hmin⟩ := leaving?_eq_some hl
  obtain rfl : row' = row := Option.some.inj (hr'.symm.trans hr)
  have hne := h.ne_of_uses hr (Row.uses_of_coefficient_ne hneg.ne)
  have hroom : 0 ≤ room entering row' :=
    div_nonneg_of_nonpos (by linarith [h.feasible _ _ hr hle]) hneg.le
  intro x r hx hxe
  rw [rows_pivot] at hx
  split at hx
  · obtain rfl := Option.some.inj hx
    rw [Row.constant_exchange hneg.ne hne]
    exact hroom
  · split at hx
    · simp at hx
    · obtain ⟨r', hr', rfl⟩ := Option.map_eq_some_iff.1 hx
      rw [Row.constant_substitute, Row.constant_exchange hneg.ne hne]
      refine add_mul_nonneg_of_le_room (h.feasible x r' hr' hxe) hroom fun hneg' => ?_
      rcases hmin x r' hr' hxe hneg' with hlt | ⟨heq, -⟩
      · exact hlt.le
      · exact heq.le

/-- Notes go on the stack one by one. -/
theorem foldl_note {R : Type} (p : Symbol × Row R → Bool) (l : List (Symbol × Row R))
    (stack : List Symbol) :
    l.foldl (fun stack e => if p e then e.1 :: stack else stack) stack =
      ((l.filter p).map (·.1)).reverse ++ stack := by
  induction l generalizing stack with
  | nil => rfl
  | cons e l ih =>
    rw [List.foldl_cons, ih, List.filter_cons]
    split <;> simp

/-- A substitution notes the restricted rows it makes negative. -/
theorem infeasible_substitute (s : Solver Rat) (x : Symbol) (definition : Row Rat) :
    (s.substitute x definition).infeasible =
      (((s.rows.mapValues fun _ r => r.substitute x definition).entries.filter
        fun e => !e.1.isExternal && decide (e.2.constant < 0)).map (·.1)).reverse ++
        s.infeasible := foldl_note _ _ _

/-- Where no row is made negative, none is noted. -/
theorem infeasible_substitute_of_nonneg {x : Symbol} {definition : Row Rat}
    (h : (s.substitute x definition).Feasible) :
    (s.substitute x definition).infeasible = s.infeasible := by
  rw [infeasible_substitute]
  have hnil : (s.rows.mapValues fun _ r => r.substitute x definition).entries.filter
      (fun e => !e.1.isExternal && decide (e.2.constant < 0)) = [] := by
    rw [List.filter_eq_nil_iff]
    intro e he hneg
    simp only [Bool.and_eq_true, Bool.not_eq_true', decide_eq_true_eq] at hneg
    have := h e.1 e.2 ((SortedMap.get?_eq_some_iff _).2 he) hneg.1
    exact absurd hneg.2 (not_lt.2 this)
  rw [hnil]
  rfl

/-- Of an installed row only the other rows can be noted. -/
theorem Steady.of_install {x : Symbol} {definition : Row Rat} (hs : s.infeasible = [])
    (hr : (s.install x definition).Regular) (hx : s.Free x)
    (hf : (s.install x definition).Feasible) : (s.install x definition).Steady where
  toRegular := hr
  feasible := hf
  noted := by
    refine (infeasible_substitute_of_nonneg ?_).trans hs
    intro y r hy hye
    refine hf y r ?_ hye
    have hfree : (s.substitute x definition).Free x := (free_substitute s x x definition).2 hx
    rw [install, rows_putRow, if_neg (hfree.ne_of_basic hy).symm, hy]

theorem dummiesIdle_pivot (h : s.DummiesIdle) {entering leaving : Symbol} {row : Row Rat}
    (he : entering.isDummy = false) : (s.pivot leaving row entering).DummiesIdle := by
  intro x r hx hxd
  rw [rows_pivot] at hx
  split at hx
  · subst x
    rw [he] at hxd
    simp at hxd
  · split at hx
    · simp at hx
    · obtain ⟨r', hr', rfl⟩ := Option.map_eq_some_iff.1 hx
      obtain ⟨hc, hw⟩ := h x r' hr' hxd
      rw [Row.substitute_of_not_uses]
      · exact ⟨hc, hw⟩
      · intro hu
        rw [hw entering hu] at he
        simp at he

/-- A turn of the primal loop keeps all that is known of the tableau. -/
theorem Steady.primalTurn {goal : Goal} (h : s.Steady) (ht : primalTurn goal s = .next s') :
    s'.Steady ∧ Pivoted s s' ∧ (s.DummiesIdle → s'.DummiesIdle) := by
  obtain ⟨g, entering, leaving, row, hg, he, hl, hr, rfl⟩ := primalTurn_eq_next ht
  obtain ⟨row', hr', hle, hneg, -⟩ := leaving?_eq_some hl
  obtain rfl : row' = row := Option.some.inj (hr'.symm.trans hr)
  have hu := Row.uses_of_coefficient_ne hneg.ne
  refine ⟨?_, pivoted_pivot h.toTidy hr hneg.ne, fun hd => ?_⟩
  · refine Steady.of_install h.noted (h.pivot hr hle hu) ?_ (h.feasible_pivot hl hr)
    rw [Free, rows_dropRow, if_neg (h.ne_of_uses hr hu)]
    exact h.solved.rows _ _ hr _ hu
  · exact dummiesIdle_pivot hd (entering?_eq_some he).1

/-- No turn on a cost breaks. -/
theorem Steady.primalTurn_ne_broken {goal : Goal} (h : s.Steady)
    (hg : s.goalRow? goal = some g) (hp : Priced prices) (hm : s.Measures prices g)
    (b : Breakdown) : Solver.primalTurn goal s ≠ .broken b s' := by
  intro hb
  obtain ⟨g', entering, hg', he, hl⟩ := primalTurn_eq_broken hb
  obtain rfl := Option.some.inj (hg.symm.trans hg')
  have hw : g.Within s.Free := by
    cases goal with
    | primary => exact Option.some.inj hg ▸ h.solved.objective
    | artificial => exact h.solved.artificial g hg
  exact exists_leaving h.toTidy h.feasible hp hw hm (entering?_eq_some he).2.1 hl

/-! ## The loop -/

/-- No symbol lowers the row, dummies apart. -/
def Optimal (g : Row Rat) : Prop := ∀ y, y.isDummy = false → 0 ≤ g.coefficient y

/-- The loop over a cost ends at the least cost or runs out of turns; either way the tableau is
steady and has its old solutions. -/
theorem Steady.run {goal : Goal} (h : s.Steady) (hg : s.goalRow? goal = some g)
    (hp : Priced prices) (hm : s.Measures prices g) (n : Nat) :
    ∃ s', s'.Steady ∧ Pivoted s s' ∧ (s.DummiesIdle → s'.DummiesIdle) ∧
      ((Turn.run (Solver.primalTurn goal) n s = (.ok (), s') ∧
          ∀ g', s'.goalRow? goal = some g' → Optimal g') ∨
        Turn.run (Solver.primalTurn goal) n s = (.error .pivotLimit, s')) := by
  have keep : ∀ t t', (t.Steady ∧ Pivoted s t ∧ (s.DummiesIdle → t.DummiesIdle)) →
      Solver.primalTurn goal t = .next t' →
      t'.Steady ∧ Pivoted s t' ∧ (s.DummiesIdle → t'.DummiesIdle) := by
    rintro t t' ⟨h1, h2, h3⟩ ht
    obtain ⟨h1', h2', h3'⟩ := h1.primalTurn ht
    exact ⟨h1', h2.trans h2', fun hd => h3' (h3 hd)⟩
  rcases Turn.run_cases (n := n) keep ⟨h, Pivoted.refl s, id⟩ with
    ⟨t, s', ⟨h1, h2, h3⟩, hd, hrun⟩ | ⟨t, b, s', ⟨h1, h2, h3⟩, hb, -⟩ | ⟨s', ⟨h1, h2, h3⟩, hrun⟩
  · obtain ⟨rfl, hopt⟩ := primalTurn_eq_done hd
    exact ⟨s', h1, h2, h3, Or.inl ⟨hrun, fun g' hg' y hy => entering?_eq_none (hopt g' hg') hy⟩⟩
  · obtain ⟨g', hg', he⟩ := h2.goalRow goal g hg
    exact absurd hb (h1.primalTurn_ne_broken hg' hp (h2.measures he hm) b)
  · exact ⟨s', h1, h2, h3, Or.inr hrun⟩

theorem Steady.optimize {goal : Goal} (h : s.Steady) (hg : s.goalRow? goal = some g)
    (hp : Priced prices) (hm : s.Measures prices g) :
    ∃ s', s'.Steady ∧ Pivoted s s' ∧ (s.DummiesIdle → s'.DummiesIdle) ∧
      ((s.optimize goal = (.ok (), s') ∧ ∀ g', s'.goalRow? goal = some g' → Optimal g') ∨
        s.optimize goal = (.error .pivotLimit, s')) := h.run hg hp hm s.limit

end Solver

end RegionLayout
