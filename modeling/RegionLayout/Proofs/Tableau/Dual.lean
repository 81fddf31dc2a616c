-- The dual loop. It starts where restricted symbols may be negative and every such symbol is
-- noted. If it ends, none is negative, and what was the least cost still is. It breaks only
-- where the tableau has no admissible solution.
import RegionLayout.Proofs.Tableau.Primal

namespace RegionLayout

open Solver

namespace Solver

variable {s s' : Solver Rat} {σ : Symbol → Rat}

/-- A tableau in the dual loop: each restricted symbol that is negative is noted. -/
structure Watched (s : Solver Rat) : Prop extends s.Regular where
  noted : ∀ x r, s.rows.get? x = some r → x.isExternal = false → r.constant < 0 →
    x ∈ s.infeasible
  restricted : ∀ x ∈ s.infeasible, x.isExternal = false

/-- No restricted symbol is negative, and dummies are zero. -/
def Admissible (σ : Symbol → Rat) : Prop := Nonneg σ ∧ ∀ x, x.isDummy = true → σ x = 0

theorem Admissible.update (h : Admissible σ) {x : Symbol} (hx : x.isDummy = false) {v : Rat}
    (hv : 0 ≤ v) : Admissible (Function.update σ x v) := by
  constructor <;> intro y hy
  · by_cases hyx : y = x
    · rw [hyx, Function.update_self]
      exact hv
    · rw [Function.update_of_ne hyx]
      exact h.1 y hy
  · have hyx : y ≠ x := by
      rintro rfl
      rw [hx] at hy
      simp at hy
    rw [Function.update_of_ne hyx]
    exact h.2 y hy

/-- Where no symbol lowers a cost, no admissible assignment has a lower one than the vertex. -/
theorem Regular.constant_le (h : s.Regular) {prices : List (Symbol × Rat)} {g : Row Rat}
    (hp : Priced prices) (hg : g.Within s.Free) (hm : s.Measures prices g) (ho : Optimal g)
    (hσ : Admissible σ) : g.constant ≤ g.eval σ := by
  have : 0 ≤ g.slope σ := by
    refine Row.slope_nonneg fun y _ => ?_
    cases hye : y.isExternal with
    | true => simp [coefficient_eq_zero_of_external h hp hg hm hye]
    | false =>
      cases hyd : y.isDummy with
      | true => simp [hσ.2 y hyd]
      | false => exact mul_nonneg (ho y hyd) (hσ.1 y hye)
  rw [Row.eval]
  linarith

/-! ## The symbol that enters -/

theorem dualEntering?_eq_some {row : Row Rat} {entering : Symbol}
    (h : s.dualEntering? row = some entering) :
    entering.isDummy = false ∧ 0 < row.coefficient entering ∧
      ∀ y, y.isDummy = false → 0 < row.coefficient y →
        s.objective.coefficient entering / row.coefficient entering ≤
          s.objective.coefficient y / row.coefficient y := by
  have hf : ∀ (e c : Symbol × Rat), (if decide (0 < e.2) && !e.1.isDummy
      then some (e.1, s.objective.coefficient e.1 / e.2) else none) = some c → c.1 = e.1 := by
    intro e c hc
    split at hc
    · exact (congrArg Prod.fst (Option.some.inj hc)).symm
    · simp at hc
  obtain ⟨c, q, hc, hq, hmin⟩ := leastRatio_filterMap hf h
  split at hq
  · rename_i hp
    simp only [Bool.and_eq_true, decide_eq_true_eq, Bool.not_eq_true'] at hp
    obtain rfl := (Prod.mk.inj (Option.some.inj hq)).2
    rw [Row.coefficient_of_get? hc]
    refine ⟨hp.2, hp.1, fun y hyd hy => ?_⟩
    obtain ⟨c', hc'⟩ := Row.uses_of_coefficient_ne hy.ne'
    rw [Row.coefficient_of_get? hc'] at hy ⊢
    rcases hmin y c' _ hc' (if_pos (by simp [hy, hyd])) with hlt | ⟨heq, -⟩
    · exact hlt.le
    · exact heq.le
  · simp at hq

theorem dualEntering?_eq_none {row : Row Rat} (h : s.dualEntering? row = none) {y : Symbol}
    (hy : y.isDummy = false) : row.coefficient y ≤ 0 := by
  by_contra hc
  rw [not_le] at hc
  obtain ⟨c, hcy⟩ := Row.uses_of_coefficient_ne hc.ne'
  have := leastRatio_filterMap_eq_none h y c hcy
  rw [Row.coefficient_of_get? hcy] at hc
  simp [hy, hc] at this

/-! ## Turns -/

/-- What one turn of the dual loop comes to. -/
inductive DualOutcome (s : Solver Rat) : Turn (Solver Rat) → Prop
  | settled (hi : s.infeasible = []) : DualOutcome s (.done s)
  /-- The note on top is out of date. -/
  | stale {leaving : Symbol} {rest : List Symbol} (hi : s.infeasible = leaving :: rest)
      (hn : ∀ row, s.rows.get? leaving = some row → 0 ≤ row.constant) :
      DualOutcome s (.next { s with infeasible := rest })
  | pivoted {leaving entering : Symbol} {rest : List Symbol} {row : Row Rat}
      (hi : s.infeasible = leaving :: rest) (hr : s.rows.get? leaving = some row)
      (hneg : row.constant < 0) (he : s.dualEntering? row = some entering) :
      DualOutcome s (.next (Solver.pivot { s with infeasible := rest } leaving row entering))
  | stuck {leaving : Symbol} {rest : List Symbol} {row : Row Rat}
      (hi : s.infeasible = leaving :: rest) (hr : s.rows.get? leaving = some row)
      (hneg : row.constant < 0) (he : s.dualEntering? row = none) :
      DualOutcome s (.broken .noDualPivot { s with infeasible := rest })

theorem dualTurn_outcome (s : Solver Rat) : DualOutcome s (dualTurn s) := by
  unfold dualTurn
  split
  · exact .settled ‹_›
  · rename_i leaving rest hi
    dsimp only
    split
    · rename_i hnone
      exact .stale hi fun row hr => by cases hnone.symm.trans hr
    · rename_i row hr
      split
      · rename_i hneg
        have hneg : row.constant < 0 := by
          simp only [Bool.and_eq_true, decide_eq_true_eq] at hneg
          exact hneg.1
        split
        · exact .stuck hi hr hneg ‹_›
        · exact .pivoted hi hr hneg ‹_›
      · rename_i hneg
        refine .stale hi fun row' hr' => ?_
        obtain rfl := Option.some.inj (hr'.symm.trans hr)
        simp only [Bool.and_eq_true, decide_eq_true_eq, Bool.not_eq_true', not_and,
          Bool.not_eq_false, Row.nearZero_iff] at hneg
        by_contra hc
        exact hc (hneg (not_le.1 hc)).ge

/-- A row that is negative and can only fall has no admissible value. -/
theorem Regular.not_admissible (h : s.Regular) {x : Symbol} {row : Row Rat}
    (hx : s.rows.get? x = some row) (hxe : x.isExternal = false) (hneg : row.constant < 0)
    (he : s.dualEntering? row = none) : ¬ ∃ σ, s.Solves σ ∧ Admissible σ := by
  rintro ⟨σ, hσ, hn, hd⟩
  have hslope : 0 ≤ row.slope (-σ) := by
    refine Row.slope_nonneg fun y hy => ?_
    cases hyd : y.isDummy with
    | true => simp [hd y hyd]
    | false =>
      have hc := dualEntering?_eq_none he hyd
      have hy0 := hn y (h.bound x row hx hxe y hy)
      have := mul_nonneg (neg_nonneg.2 hc) hy0
      rw [Pi.neg_apply]
      linarith
  have hsmul : (-σ : Symbol → Rat) = (-1 : Rat) • σ := by
    funext y
    simp
  rw [hsmul, Row.slope_smul] at hslope
  have hval := hσ x row hx
  have := hn x hxe
  rw [Row.eval] at hval
  linarith

theorem mem_infeasible_substitute {x y : Symbol} {definition : Row Rat} :
    y ∈ (s.substitute x definition).infeasible ↔ y ∈ s.infeasible ∨
      ∃ r, (s.substitute x definition).rows.get? y = some r ∧ y.isExternal = false ∧
        r.constant < 0 := by
  rw [infeasible_substitute, List.mem_append, or_comm]
  simp only [List.mem_reverse, List.mem_map, List.mem_filter, Bool.and_eq_true,
    Bool.not_eq_true', decide_eq_true_eq, Prod.exists, exists_and_right, exists_eq_right,
    SortedMap.get?_eq_some_iff, substitute]

theorem Watched.pivot (h : s.Watched) {leaving entering : Symbol} {rest : List Symbol}
    {row : Row Rat} (hi : s.infeasible = leaving :: rest) (hr : s.rows.get? leaving = some row)
    (hneg : row.constant < 0) (he : s.dualEntering? row = some entering) :
    (Solver.pivot { s with infeasible := rest } leaving row entering).Watched := by
  have hreg : Regular { s with infeasible := rest } := h.of_eq rfl rfl rfl le_rfl
  have hle : leaving.isExternal = false := h.restricted leaving (by simp [hi])
  obtain ⟨-, hpos, -⟩ := dualEntering?_eq_some he
  have hu := Row.uses_of_coefficient_ne hpos.ne'
  have hne := h.ne_of_uses hr hu
  refine ⟨hreg.pivot hr hle hu, ?_, ?_⟩
  · intro x r hx hxe hc
    rw [rows_pivot] at hx
    split at hx
    · obtain rfl := Option.some.inj hx
      rw [Row.constant_exchange hpos.ne' hne] at hc
      have := div_nonneg (neg_nonneg.2 hneg.le) hpos.le
      linarith
    · split at hx
      · simp at hx
      · rename_i hxl
        refine mem_infeasible_substitute.2 (Or.inr ⟨r, ?_, hxe, hc⟩)
        rw [rows_substitute, rows_dropRow, if_neg hxl]
        exact hx
  · intro x hx
    rcases mem_infeasible_substitute.1 hx with hx | ⟨r, -, hxe, -⟩
    · exact h.restricted x (by rw [hi]; exact List.mem_cons_of_mem _ hx)
    · exact hxe

/-- The least cost stays the least: the entering symbol has the least ratio of cost. -/
theorem Regular.optimal_pivot (h : s.Regular) {leaving entering : Symbol} {row : Row Rat}
    (hr : s.rows.get? leaving = some row) (he : s.dualEntering? row = some entering)
    (ho : Optimal s.objective) : Optimal (s.pivot leaving row entering).objective := by
  obtain ⟨hed, hpos, hmin⟩ := dualEntering?_eq_some he
  have hne := h.ne_of_uses hr (Row.uses_of_coefficient_ne hpos.ne')
  intro y hyd
  change 0 ≤ (s.objective.substitute entering (row.exchange leaving entering)).coefficient y
  rw [Row.coefficient_substitute, Row.coefficient_exchange hpos.ne' hne]
  have hce := ho entering hed
  have hratio := div_nonneg hce hpos.le
  by_cases hye : y = entering
  · subst y
    simp only [if_true, hne, if_false]
    field_simp
    simp
  · simp only [hye, if_false, add_zero]
    have hcy := ho y hyd
    have habs := h.absent_of_basic hr
    have hleave := Row.coefficient_of_not_uses habs.objective
    have hrow := Row.coefficient_of_not_uses (habs.rows _ _ hr)
    by_cases hyl : y = leaving
    · subst y
      rw [hleave, hrow]
      simp only [if_true, sub_zero, zero_add, mul_one_div]
      exact hratio
    · simp only [hyl, if_false, zero_sub]
      have hform : s.objective.coefficient y + s.objective.coefficient entering *
          (-row.coefficient y / row.coefficient entering) =
          s.objective.coefficient y - s.objective.coefficient entering /
            row.coefficient entering * row.coefficient y := by
        field_simp
        ring
      rw [hform]
      rcases le_or_gt (row.coefficient y) 0 with hle | hgt
      · have := mul_nonneg hratio (neg_nonneg.2 hle)
        linarith
      · have := mul_le_mul_of_nonneg_right (hmin y hyd hgt) hgt.le
        rw [div_mul_cancel₀ _ hgt.ne'] at this
        linarith

/-! ## The loop -/

/-- To drop a note changes no row. -/
theorem pivoted_rest (s : Solver Rat) (rest : List Symbol) :
    Pivoted s { s with infeasible := rest } where
  solves _ := Iff.rfl
  goalRow goal g hg := ⟨g, by cases goal <;> exact hg, fun _ _ => rfl⟩
  search := id
  frame := rfl

/-- What a turn of the dual loop keeps. -/
theorem Watched.dualTurn (h : s.Watched) (ht : Solver.dualTurn s = .next s') :
    s'.Watched ∧ Pivoted s s' ∧ (s.DummiesIdle → s'.DummiesIdle) ∧
      (Optimal s.objective → Optimal s'.objective) := by
  have ho := dualTurn_outcome s
  rw [ht] at ho
  cases ho with
  | @stale leaving rest hi hc =>
    refine ⟨⟨h.of_eq rfl rfl rfl le_rfl, fun x r hx hxe hneg => ?_, fun x hx => ?_⟩,
      pivoted_rest s rest, id, id⟩
    · have := h.noted x r hx hxe hneg
      rw [hi] at this
      rcases List.mem_cons.1 this with rfl | hm
      · exact absurd hneg (not_lt.2 (hc r hx))
      · exact hm
    · exact h.restricted x (by rw [hi]; exact List.mem_cons_of_mem _ hx)
  | @pivoted leaving entering rest row hi hr hneg he =>
    have hreg : Regular { s with infeasible := rest } := h.of_eq rfl rfl rfl le_rfl
    obtain ⟨hed, hpos, -⟩ := dualEntering?_eq_some he
    exact ⟨h.pivot hi hr hneg he,
      (pivoted_rest s rest).trans (pivoted_pivot hreg.toTidy hr hpos.ne'),
      fun hd => dummiesIdle_pivot hd hed, hreg.optimal_pivot hr he⟩

/-- The dual loop settles every restricted symbol, breaks where nothing admissible solves the
tableau, or runs out of turns. -/
theorem Watched.dualOptimize (h : s.Watched) :
    ∃ s', Pivoted s s' ∧ (s.DummiesIdle → s'.DummiesIdle) ∧
      (Optimal s.objective → Optimal s'.objective) ∧
      (s.dualOptimize = (.ok (), s') ∧ s'.Steady ∨
        s.dualOptimize = (.error (.breakdown .noDualPivot), s') ∧
          (¬ ∃ σ, s.Solves σ ∧ Admissible σ) ∨
        s.dualOptimize = (.error .pivotLimit, s')) := by
  have keep : ∀ t t', (t.Watched ∧ Pivoted s t ∧ (s.DummiesIdle → t.DummiesIdle) ∧
      (Optimal s.objective → Optimal t.objective)) → Solver.dualTurn t = .next t' →
      t'.Watched ∧ Pivoted s t' ∧ (s.DummiesIdle → t'.DummiesIdle) ∧
        (Optimal s.objective → Optimal t'.objective) := by
    rintro t t' ⟨h1, h2, h3, h4⟩ ht
    obtain ⟨h1', h2', h3', h4'⟩ := h1.dualTurn ht
    exact ⟨h1', h2.trans h2', fun hd => h3' (h3 hd), fun ho => h4' (h4 ho)⟩
  rcases Turn.run_cases (n := s.limit) keep ⟨h, Pivoted.refl s, id, id⟩ with
    ⟨t, s', ⟨h1, h2, h3, h4⟩, hd, hrun⟩ | ⟨t, b, s', ⟨h1, h2, h3, h4⟩, hb, hrun⟩ |
      ⟨s', ⟨-, h2, h3, h4⟩, hrun⟩
  · have ho := dualTurn_outcome t
    rw [hd] at ho
    cases ho with
    | settled hnil =>
      refine ⟨_, h2, h3, h4, Or.inl ⟨hrun, h1.toRegular, fun x r hx hxe => ?_, hnil⟩⟩
      by_contra hneg
      have := h1.noted x r hx hxe (not_le.1 hneg)
      rw [hnil] at this
      simp at this
  · have ho := dualTurn_outcome t
    rw [hb] at ho
    cases ho with
    | @stuck leaving rest row hi hr hneg he =>
      have hle := h1.restricted leaving (by simp [hi])
      have hno := h1.not_admissible hr hle hneg he
      refine ⟨_, h2.trans (pivoted_rest t rest), h3, h4, Or.inr (Or.inl ⟨hrun, ?_⟩)⟩
      rintro ⟨σ, hσ, ha⟩
      exact hno ⟨σ, (h2.solves σ).2 hσ, ha⟩
  · exact ⟨s', h2, h3, h4, Or.inr (Or.inr hrun)⟩

end Solver

end RegionLayout
