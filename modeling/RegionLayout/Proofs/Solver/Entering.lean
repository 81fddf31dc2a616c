-- Putting a row into the tableau. Where the row can be solved for a symbol it is installed at
-- once. Else a symbol that stands for the row is driven to zero, and if it cannot reach zero
-- no admissible solution has the row zero.
import RegionLayout.Proofs.Solver.Drafting
import RegionLayout.Proofs.Tableau.Termination

namespace RegionLayout

open Solver

namespace Solver

variable {s t : Solver Rat} {row basic : Row Rat} {x art : Symbol} {tag : Tag}
  {σ : Symbol → Rat} {P Q : (Symbol → Rat) → Prop}

/-- The tableau has the solutions of another that have a property, at the same costs. -/
structure Narrowed (s : Solver Rat) (P : (Symbol → Rat) → Prop) (t : Solver Rat) : Prop where
  steady : t.Steady
  frame : t = { s with
    rows := t.rows, infeasible := t.infeasible, objective := t.objective,
    artificial := t.artificial, tick := t.tick }
  tick : s.tick ≤ t.tick
  bound : t.tick ≤ s.tick + 1
  search : t.artificial = none
  solves : ∀ σ, t.Solves σ ↔ s.Solves σ ∧ P σ
  objective : ∀ σ, t.Solves σ → t.objective.eval σ = s.objective.eval σ
  idle : s.DummiesIdle → t.DummiesIdle

theorem Narrowed.congr (h : Narrowed s P t) (hpq : ∀ σ, s.Solves σ → (P σ ↔ Q σ)) :
    Narrowed s Q t :=
  { h with
    solves := fun σ => (h.solves σ).trans ⟨fun ⟨hσ, hp⟩ => ⟨hσ, (hpq σ hσ).1 hp⟩,
      fun ⟨hσ, hq⟩ => ⟨hσ, (hpq σ hσ).2 hq⟩⟩ }

/-! ## A row that can be solved -/

/-- A row is installed for a symbol that no restricted row has. -/
theorem narrowed_install (hs : s.Steady) (ha : s.artificial = none) (hr : s.Suits s.tick row)
    (hx : row.Uses x) (hout : ∀ y r, s.rows.get? y = some r → y.isExternal = false → ¬ r.Uses x)
    (hin : x.isExternal = false → row.Within fun y => y.isExternal = false)
    (h0 : x.isExternal = false → 0 ≤ -row.constant / row.coefficient x)
    (hd : x.isDummy = true → row.constant = 0 ∧ row.Within fun y => y.isDummy = true) :
    Narrowed s (fun σ => row.eval σ = 0) (s.install x (row.solveFor x)) := by
  have hc := hr.clean.coefficient_ne hx
  obtain ⟨hfree, hid⟩ := hr.within x hx
  have hw : (row.solveFor x).Within fun y => y ≠ x ∧ s.Free y ∧ y.id ≤ s.tick := fun y hy => by
    obtain ⟨hne, hy⟩ := (Row.uses_solveFor hx).1 hy
    exact ⟨hne, hr.within y hy⟩
  have hreg : (s.install x (row.solveFor x)).Regular := hs.toRegular.install hid hw
    (hr.clean.solveFor x) fun hxe y hy => hin hxe y ((Row.uses_solveFor hx).1 hy).2
  have hold : ∀ y r, y ≠ x → y.isExternal = false →
      (s.install x (row.solveFor x)).rows.get? y = some r → s.rows.get? y = some r := by
    intro y r hyx hye hy
    rw [rows_install, if_neg hyx] at hy
    obtain ⟨r', hr', rfl⟩ := Option.map_eq_some_iff.1 hy
    rw [Row.substitute_of_not_uses _ (hout y r' hr' hye), hr']
  have hfeas : (s.install x (row.solveFor x)).Feasible := by
    intro y r hy hye
    by_cases hyx : y = x
    · subst y
      rw [rows_install, if_pos rfl] at hy
      obtain rfl := Option.some.inj hy
      rw [Row.constant_solveFor hc]
      exact h0 hye
    · exact hs.feasible y r (hold y r hyx hye hy) hye
  have hsol : ∀ σ, (s.install x (row.solveFor x)).Solves σ ↔ s.Solves σ ∧ row.eval σ = 0 :=
    fun σ => by rw [solves_install hfree, Row.eq_eval_solveFor_iff σ hc]
  refine ⟨Steady.of_install hs.noted hreg hfree hfeas, rfl, le_rfl, Nat.le_succ _, ?_, hsol,
    fun σ hσ => ?_, fun hidle y r hy hyd => ?_⟩
  · change s.artificial.map _ = _
    rw [ha]
    rfl
  · have := (Row.eq_eval_solveFor_iff σ hc).2 ((hsol σ).1 hσ).2
    exact Row.eval_substitute_of_eq σ this s.objective
  · by_cases hyx : y = x
    · subst y
      rw [rows_install, if_pos rfl] at hy
      obtain rfl := Option.some.inj hy
      obtain ⟨hz, hdw⟩ := hd hyd
      refine ⟨?_, fun z hz => hdw z ((Row.uses_solveFor hx).1 hz).2⟩
      rw [Row.constant_solveFor hc, hz]
      simp
    · exact hidle y r (hold y r hyx (Symbol.isExternal_of_isDummy hyd) hy) hyd

/-- The subject of a row is a variable's symbol, or a marker of its own with a negative
coefficient in a row without variables. -/
theorem subject?_eq_some (h : subject? row tag = some x) : row.Uses x ∧ (x.isExternal = true ∨
    (row.Within fun y => y.isExternal = false) ∧ x ∈ tag.symbols ∧ x.isPivotable = true ∧
      row.coefficient x < 0) := by
  have own : ∀ y, (if y.isPivotable && decide (row.coefficient y < 0) then some y else none) =
      some x → y = x ∧ x.isPivotable = true ∧ row.coefficient x < 0 := by
    intro y hy
    split at hy
    · rename_i hp
      obtain rfl := Option.some.inj hy
      simpa using hp
    · simp at hy
  unfold subject? at h
  rw [Option.or_eq_some_iff] at h
  rcases h with h | ⟨hn, h⟩
  · obtain ⟨⟨y, k⟩, hf, rfl⟩ := Option.map_eq_some_iff.1 h
    obtain ⟨hy, hye, -⟩ := SortedMap.find?_eq_some _ hf
    exact ⟨⟨k, hy⟩, Or.inl hye⟩
  · have hin : row.Within fun y => y.isExternal = false := fun y ⟨k, hy⟩ =>
      (SortedMap.find?_eq_none_iff _).1 (Option.map_eq_none_iff.1 hn) y k hy
    rw [Option.or_eq_some_iff] at h
    rcases h with h | ⟨-, h⟩
    · obtain ⟨rfl, hp, hneg⟩ := own _ h
      exact ⟨Row.uses_of_coefficient_ne hneg.ne, Or.inr ⟨hin, tag.marker_mem, hp, hneg⟩⟩
    · obtain ⟨y, hy, h⟩ := Option.bind_eq_some_iff.1 h
      obtain ⟨rfl, hp, hneg⟩ := own _ h
      refine ⟨Row.uses_of_coefficient_ne hneg.ne, Or.inr ⟨hin, ?_, hp, hneg⟩⟩
      simp [Tag.symbols, hy]

theorem subject?_eq_none (h : subject? row tag = none) :
    (row.Within fun y => y.isExternal = false) ∧
      ∀ y ∈ tag.symbols, y.isPivotable = true → 0 ≤ row.coefficient y := by
  unfold subject? at h
  simp only [Option.or_eq_none_iff, Option.map_eq_none_iff, Option.bind_eq_none_iff] at h
  obtain ⟨hn, hm, ho⟩ := h
  refine ⟨fun y ⟨k, hy⟩ => (SortedMap.find?_eq_none_iff _).1 hn y k hy, fun y hy hp => ?_⟩
  by_contra hneg
  rcases List.mem_cons.1 hy with rfl | hy
  · simp [hp, not_le.1 hneg] at hm
  · have := ho y (Option.mem_toList.1 hy)
    simp [hp, not_le.1 hneg] at this

/-! ## A symbol that stands for the row -/

section Search

variable {s t : Solver Rat} {row basic : Row Rat} {x art : Symbol} {σ : Symbol → Rat}

/-- A free symbol that no row has may have any value. -/
theorem solves_update (hf : s.Free x) (hu : ∀ y r, s.rows.get? y = some r → ¬ r.Uses x)
    (σ : Symbol → Rat) (v : Rat) : s.Solves (Function.update σ x v) ↔ s.Solves σ := by
  have key : ∀ y r, s.rows.get? y = some r →
      (Function.update σ x v y = r.eval (Function.update σ x v) ↔ σ y = r.eval σ) := by
    intro y r hy
    rw [Function.update_of_ne (hf.ne_of_basic hy).symm, Row.eval_update_of_not_uses σ (hu y r hy)]
  exact ⟨fun hs y r hy => (key y r hy).1 (hs y r hy), fun hs y r hy => (key y r hy).2 (hs y r hy)⟩

/-- A row that is dropped gave its symbol a value. -/
theorem Tidy.solves_dropRow_iff (h : s.Tidy) (hx : s.rows.get? x = some row)
    (σ : Symbol → Rat) : (s.dropRow x).Solves σ ↔ s.Solves (Function.update σ x (row.eval σ)) := by
  have hout := (h.absent_of_basic hx).rows
  rw [solves_dropRow (s := s) hx, Function.update_self,
    Row.eval_update_of_not_uses σ (hout x row hx), solves_update]
  · simp
  · simp [Free]
  · intro y r hy
    rw [rows_dropRow] at hy
    split at hy
    · simp at hy
    · exact hout y r hy

/-- The tableau in which a new symbol stands for the row. -/
def searching (s : Solver Rat) (row : Row Rat) : Solver Rat :=
  { ({ s with tick := s.tick + 1 }.putRow ⟨s.tick + 1, .slack⟩ row) with artificial := some row }

theorem steady_searching (hs : s.Steady) (hr : s.Suits s.tick row)
    (hin : row.Within fun y => y.isExternal = false) (h0 : 0 ≤ row.constant) :
    (s.searching row).Steady := by
  set art : Symbol := ⟨s.tick + 1, .slack⟩ with hart
  have hn : s.tick < art.id := Nat.lt_succ_self _
  have hne : ∀ y, row.Uses y → y ≠ art := by
    rintro y hy rfl
    exact hr.not_uses_of_new hn hy
  have hs' : Steady { s with tick := s.tick + 1 } := hs.of_eq rfl rfl rfl rfl (Nat.le_succ _)
  have hreg : (putRow { s with tick := s.tick + 1 } art row).Regular :=
    hs'.toRegular.putRow ⟨(hs.absent hn).rows, (hs.absent hn).objective,
        (hs.absent hn).artificial⟩ le_rfl
      (fun y hy => ⟨hne y hy, (hr.within y hy).1, (hr.within y hy).2.trans (Nat.le_succ _)⟩)
      hr.clean fun _ => hin
  have hput : (putRow { s with tick := s.tick + 1 } art row).Steady := by
    refine ⟨hreg, fun x r hx hxe => ?_, hs.noted⟩
    rw [rows_putRow] at hx
    split at hx
    · exact Option.some.inj hx ▸ h0
    · exact hs.feasible x r hx hxe
  refine hput.of_rows rfl rfl le_rfl hreg.suits_objective fun r hr' => ?_
  obtain rfl := Option.some.inj hr'
  refine ⟨fun y hy => ⟨?_, (hr.within y hy).2.trans (Nat.le_succ _)⟩, hr.clean⟩
  rw [Free, rows_putRow, if_neg (hne y hy)]
  exact (hr.within y hy).1

theorem solves_searching (hs : s.Tidy) (σ : Symbol → Rat) :
    (s.searching row).Solves σ ↔ s.Solves σ ∧ σ ⟨s.tick + 1, .slack⟩ = row.eval σ :=
  solves_putRow (hs.free_of_new (Nat.lt_succ_self _))

theorem dummiesIdle_searching (h : s.DummiesIdle) : (s.searching row).DummiesIdle := by
  intro x r hx hxd
  have hx : (putRow { s with tick := s.tick + 1 } ⟨s.tick + 1, .slack⟩ row).rows.get? x = some r :=
    hx
  rw [rows_putRow] at hx
  split at hx
  · subst x
    simp [Symbol.isDummy] at hxd
  · exact h x r hx hxd

/-- The row kept for the symbol that stands for a row agrees with it. -/
theorem Narrowed.eval_basic (h : Narrowed s (fun σ => σ art = row.eval σ) t) (hs : s.Tidy)
    (hn : s.tick < art.id) (hr : ¬ row.Uses art) (hb : t.rows.get? art = some basic)
    (hσ : s.Solves σ) : basic.eval σ = row.eval σ := by
  have hsol : t.Solves (Function.update σ art (row.eval σ)) := by
    rw [h.solves, solves_update (hs.free_of_new hn) (hs.absent hn).rows, Function.update_self,
      Row.eval_update_of_not_uses σ hr]
    exact ⟨hσ, rfl⟩
  have := hsol art basic hb
  rw [Function.update_self, Row.eval_update_of_not_uses σ
    ((h.steady.absent_of_basic hb).rows _ _ hb)] at this
  exact this.symm

/-- Without the row of the symbol that stands for a row, the tableau is as it was. -/
theorem Narrowed.dropRow (h : Narrowed s (fun σ => σ art = row.eval σ) t) (hs : s.Tidy)
    (hn : s.tick < art.id) (hr : ¬ row.Uses art) (hb : t.rows.get? art = some basic) :
    Narrowed s (fun _ => True) (t.dropRow art) where
  steady := h.steady.dropRow art
  frame := by rw [Solver.dropRow, h.frame]
  tick := h.tick
  bound := h.bound
  search := h.search
  solves σ := by
    rw [h.steady.solves_dropRow_iff hb, h.solves, solves_update (hs.free_of_new hn)
      (hs.absent hn).rows, Function.update_self, Row.eval_update_of_not_uses σ hr]
    simp only [and_true, and_iff_left_iff_imp]
    exact h.eval_basic hs hn hr hb
  objective σ hσ := by
    have := h.objective _ ((h.steady.solves_dropRow_iff hb σ).1 hσ)
    rwa [Row.eval_update_of_not_uses σ (hs.absent hn).objective,
      Row.eval_update_of_not_uses σ (h.steady.absent_of_basic hb).objective] at this
  idle hidle := (h.idle hidle).dropRow art

/-- A pivot narrows no further. -/
theorem Narrowed.of_pivoted {u : Solver Rat} {P : (Symbol → Rat) → Prop} (h : Narrowed s P t)
    (hp : Pivoted t u) (hu : u.Steady) (hd : t.DummiesIdle → u.DummiesIdle) :
    Narrowed s P u where
  steady := hu
  frame := by rw [hp.frame, h.frame]
  tick := by rw [hp.frame]; exact h.tick
  bound := by rw [hp.frame]; exact h.bound
  search := hp.search h.search
  solves σ := (hp.solves σ).trans (h.solves σ)
  objective σ hσ := by
    have hσ := (hp.solves σ).1 hσ
    rw [hp.objective hσ, h.objective σ hσ]
  idle hidle := hd (h.idle hidle)

/-- A symbol taken out of a row counts as zero. -/
theorem eval_remove_eq (r : Row Rat) (x : Symbol) (σ : Symbol → Rat) :
    (r.remove x).eval σ = r.eval (Function.update σ x 0) := by
  rw [Row.eval_remove, Row.eval_update]
  ring

theorem rows_removeSymbol (s : Solver Rat) (x y : Symbol) :
    (s.removeSymbol x).rows.get? y = (s.rows.get? y).map fun r => r.remove x :=
  SortedMap.get?_mapValues _ _ _

theorem solves_removeSymbol (hx : s.Free x) (σ : Symbol → Rat) :
    (s.removeSymbol x).Solves σ ↔ s.Solves (Function.update σ x 0) := by
  have hne : ∀ {y r}, s.rows.get? y = some r → y ≠ x := fun hy => (hx.ne_of_basic hy).symm
  constructor
  · intro h y r hy
    rw [Function.update_of_ne (hne hy), ← eval_remove_eq]
    exact h y _ (by rw [rows_removeSymbol, hy, Option.map_some])
  · intro h y r hy
    rw [rows_removeSymbol] at hy
    obtain ⟨r', hr', rfl⟩ := Option.map_eq_some_iff.1 hy
    rw [eval_remove_eq, ← h y r' hr', Function.update_of_ne (hne hr')]

theorem AllRows.removeSymbol {P Q : Row Rat → Prop} (h : s.AllRows P) (ha : s.artificial = none)
    (hpq : ∀ r, P r → Q (r.remove x)) : (s.removeSymbol x).AllRows Q where
  rows y r hy := by
    rw [rows_removeSymbol] at hy
    obtain ⟨r', hr', rfl⟩ := Option.map_eq_some_iff.1 hy
    exact hpq r' (h.rows y r' hr')
  objective := hpq _ h.objective
  artificial r hr := by
    have hr : s.artificial = some r := hr
    rw [ha] at hr
    simp at hr

theorem free_removeSymbol (s : Solver Rat) (x y : Symbol) :
    (s.removeSymbol x).Free y ↔ s.Free y := by
  rw [Free, rows_removeSymbol, Option.map_eq_none_iff, Free]

theorem Steady.removeSymbol (h : s.Steady) (ha : s.artificial = none) (x : Symbol) :
    (s.removeSymbol x).Steady where
  solved := h.solved.removeSymbol ha fun r hr y hy =>
    (free_removeSymbol s x y).2 (hr y (Row.uses_remove.1 hy).2)
  known := h.known.removeSymbol ha fun r hr y hy => hr y (Row.uses_remove.1 hy).2
  keys y r hy := by
    rw [rows_removeSymbol] at hy
    obtain ⟨r', hr', -⟩ := Option.map_eq_some_iff.1 hy
    exact h.keys y r' hr'
  clean := h.clean.removeSymbol ha fun r hr => hr.remove x
  bound y r hy hye := by
    rw [rows_removeSymbol] at hy
    obtain ⟨r', hr', rfl⟩ := Option.map_eq_some_iff.1 hy
    exact fun z hz => h.bound y r' hr' hye z (Row.uses_remove.1 hz).2
  feasible y r hy hye := by
    rw [rows_removeSymbol] at hy
    obtain ⟨r', hr', rfl⟩ := Option.map_eq_some_iff.1 hy
    exact h.feasible y r' hr' hye
  noted := h.noted

/-- Taken out at zero, the symbol leaves the row at zero. -/
theorem Narrowed.removeSymbol (h : Narrowed s (fun σ => σ art = row.eval σ) t) (hs : s.Tidy)
    (hn : s.tick < art.id) (hr : ¬ row.Uses art) (hf : t.Free art) :
    Narrowed s (fun σ => row.eval σ = 0) (t.removeSymbol art) where
  steady := h.steady.removeSymbol h.search art
  frame := by rw [Solver.removeSymbol, h.frame]
  tick := h.tick
  bound := h.bound
  search := h.search
  solves σ := by
    rw [solves_removeSymbol hf, h.solves, solves_update (hs.free_of_new hn) (hs.absent hn).rows,
      Function.update_self, Row.eval_update_of_not_uses σ hr, eq_comm (a := 0)]
  objective σ hσ := by
    have := h.objective _ ((solves_removeSymbol hf σ).1 hσ)
    rwa [Row.eval_update_of_not_uses σ (hs.absent hn).objective, ← eval_remove_eq] at this
  idle hd y r hy hyd := by
    rw [rows_removeSymbol] at hy
    obtain ⟨r', hr', rfl⟩ := Option.map_eq_some_iff.1 hy
    obtain ⟨hz, hw⟩ := h.idle hd y r' hr' hyd
    exact ⟨hz, fun z hz => hw z (Row.uses_remove.1 hz).2⟩

/-- A row without cells gives its constant. -/
theorem Row.eval_of_isEmpty {r : Row Rat} (h : r.cells.isEmpty = true) (σ : Symbol → Rat) :
    r.eval σ = r.constant := by
  have : r.cells.entries = [] := List.isEmpty_iff.1 h
  simp [Row.eval, Row.slope, this]

/-- A restricted row at zero lets any of its symbols in, at zero. -/
theorem Steady.pivot_zero (h : s.Steady) (hx : s.rows.get? art = some basic)
    (hxe : art.isExternal = false) (h0 : basic.constant = 0) (he : basic.Uses x) :
    (s.pivot art basic x).Steady := by
  have hc := (h.clean.rows _ _ hx).coefficient_ne he
  have hne := h.ne_of_uses hx he
  refine Steady.of_install h.noted (h.toRegular.pivot hx hxe he) ?_ fun y r hy hye => ?_
  · rw [Free, rows_dropRow, if_neg hne]
    exact h.solved.rows _ _ hx _ he
  · have hy : (s.pivot art basic x).rows.get? y = some r := hy
    rw [rows_pivot] at hy
    split at hy
    · obtain rfl := Option.some.inj hy
      simp [Row.constant_exchange hc hne, h0]
    · split at hy
      · simp at hy
      · obtain ⟨r', hr', rfl⟩ := Option.map_eq_some_iff.1 hy
        simpa [Row.constant_substitute, Row.constant_exchange hc hne, h0] using
          h.feasible y r' hr' hye

variable {u : Solver Rat} {g : Row Rat}

/-- The price that drives the symbol for the row to zero. -/
def searchPrices (s : Solver Rat) : List (Symbol × Rat) := [(⟨s.tick + 1, .slack⟩, 1)]

theorem priced_searchPrices (s : Solver Rat) : Priced s.searchPrices := by
  intro p hp
  obtain rfl : p = (⟨s.tick + 1, .slack⟩, 1) := by simpa [searchPrices] using hp
  exact ⟨rfl, by norm_num⟩

theorem measures_searching (hs : s.Tidy) :
    (s.searching row).Measures s.searchPrices row := by
  refine ⟨0, fun σ hσ => ?_⟩
  rw [← ((solves_searching hs σ).1 hσ).2]
  simp [cost, searchPrices]

/-- Every solution gives the symbol for the row a value. -/
theorem solves_searching_update (hs : s.Tidy) (hr : ¬ row.Uses ⟨s.tick + 1, .slack⟩)
    (hσ : s.Solves σ) :
    (s.searching row).Solves (Function.update σ ⟨s.tick + 1, .slack⟩ (row.eval σ)) := by
  have hnew : s.tick < (⟨s.tick + 1, .slack⟩ : Symbol).id := Nat.lt_succ_self _
  rw [solves_searching hs, solves_update (hs.free_of_new hnew) (hs.absent hnew).rows,
    Function.update_self, Row.eval_update_of_not_uses σ hr]
  exact ⟨hσ, rfl⟩

/-- A tableau in which the symbol for the row is as low as it gets. -/
structure Searched (s : Solver Rat) (row : Row Rat) (u : Solver Rat) : Prop where
  run : (s.searching row).optimize .artificial = (.ok (), u)
  steady : u.Steady
  pivoted : Pivoted (s.searching row) u
  idle : (s.searching row).DummiesIdle → u.DummiesIdle
  optimal : ∀ g, u.artificial = some g → Optimal g

/-- The objective of the search is the symbol for the row. -/
theorem Searched.artificial (h : Searched s row u) (hs : s.Tidy) : ∃ g, u.artificial = some g ∧
    (∀ σ, (s.searching row).Solves σ → g.eval σ = σ ⟨s.tick + 1, .slack⟩) ∧
      g.constant = u.vertex ⟨s.tick + 1, .slack⟩ := by
  obtain ⟨g, hg, he⟩ := h.pivoted.goalRow .artificial row rfl
  have hval : ∀ σ, (s.searching row).Solves σ → g.eval σ = σ ⟨s.tick + 1, .slack⟩ :=
    fun σ hσ => (he σ hσ).trans ((solves_searching hs σ).1 hσ).2.symm
  refine ⟨g, hg, hval, ?_⟩
  rw [← hval _ ((h.pivoted.solves _).1 h.steady.solves_vertex),
    eval_vertex (h.steady.solved.artificial g hg)]

/-- The search over, the tableau has the old solutions, with the symbol at the row's value. -/
theorem Searched.narrowed (h : Searched s row u) (hs : s.Tidy) :
    Narrowed s (fun σ => σ ⟨s.tick + 1, .slack⟩ = row.eval σ) { u with artificial := none } where
  steady := h.steady.of_rows rfl rfl le_rfl h.steady.suits_objective (by simp)
  frame := by rw [h.pivoted.frame]; rfl
  tick := by rw [h.pivoted.frame]; exact Nat.le_succ _
  bound := by rw [h.pivoted.frame]; exact le_rfl
  search := rfl
  solves σ := (h.pivoted.solves σ).trans (solves_searching hs σ)
  objective σ hσ := h.pivoted.objective ((h.pivoted.solves σ).1 hσ)
  idle hd := h.idle (dummiesIdle_searching hd)

/-- The search ends no higher than the row is in any admissible solution. -/
theorem Searched.vertex_le (h : Searched s row u) (hs : s.Tidy)
    (hr : ¬ row.Uses ⟨s.tick + 1, .slack⟩) (hσ : s.Solves σ) (ha : Admissible σ)
    (h0 : 0 ≤ row.eval σ) : u.vertex ⟨s.tick + 1, .slack⟩ ≤ row.eval σ := by
  obtain ⟨g, hg, hval, hconst⟩ := h.artificial hs
  have hm : u.Measures s.searchPrices g := by
    refine h.pivoted.measures (fun τ hτ => ?_) (measures_searching hs)
    rw [hval τ hτ, ← ((solves_searching hs τ).1 hτ).2]
  have := h.steady.toRegular.constant_le (priced_searchPrices s) (h.steady.solved.artificial g hg)
    hm (h.optimal g hg) (ha.update (x := ⟨s.tick + 1, .slack⟩) rfl h0)
  rwa [hval _ (solves_searching_update hs hr hσ), Function.update_self, hconst] at this

/-- With the dummies idle, the symbol for a row that is not all dummies does not hang on
dummies alone. -/
theorem not_within_dummies (hs : s.Tidy) (hr : s.Suits s.tick row) (hd : s.DummiesIdle)
    (hall : row.allDummies = false) (h : Searched s row u)
    (hb : u.rows.get? ⟨s.tick + 1, .slack⟩ = some basic) :
    ¬ basic.Within fun y => y.isDummy = true := by
  intro hw
  set art : Symbol := ⟨s.tick + 1, .slack⟩ with hart
  have hnew : s.tick < art.id := Nat.lt_succ_self _
  obtain ⟨y, hy, hyd⟩ : ∃ y, row.Uses y ∧ y.isDummy = false := by
    by_contra hno
    rw [Bool.eq_false_iff, ne_eq, Row.allDummies_eq_true_iff] at hall
    refine hall fun y hy => ?_
    by_contra hyd
    exact hno ⟨y, hy, by simpa using hyd⟩
  have hnotin : ¬ row.Uses art := hr.not_uses_of_new hnew
  have hval : ∀ v, row.constant + row.coefficient y * v = basic.constant := by
    intro v
    set τ := s.fill (Pi.single y v) with hτ
    have hsol : (s.searching row).Solves (Function.update τ art (row.eval τ)) :=
      solves_searching_update hs hnotin (hs.solves_fill _)
    have hdummy : ∀ d, d.isDummy = true → Function.update τ art (row.eval τ) d = 0 := by
      intro d hdd
      have hda : d ≠ art := by
        rintro rfl
        simp [hart, Symbol.isDummy] at hdd
      have hdy : ∀ z : Symbol, z.isDummy = true → (Pi.single y v : Symbol → Rat) z = 0 := by
        intro z hz
        have hne : z ≠ y := by
          rintro rfl
          rw [hyd] at hz
          simp at hz
        rw [Pi.single_apply, if_neg hne]
      rw [Function.update_of_ne hda]
      cases hdr : s.rows.get? d with
      | none => rw [hτ, fill_free hdr, hdy d hdd]
      | some r =>
        obtain ⟨hz, hwr⟩ := hd d r hdr hdd
        rw [hτ, fill_basic hdr, ← hz, ← Row.eval_zero]
        exact Row.eval_congr fun z hz => hdy z (hwr z hz)
    calc row.constant + row.coefficient y * v
        = row.eval τ := (eval_fill_single (fun z hz => (hr.within z hz).1) y v).symm
      _ = Function.update τ art (row.eval τ) art := by rw [Function.update_self]
      _ = basic.eval (Function.update τ art (row.eval τ)) := (h.pivoted.solves _).2 hsol art basic hb
      _ = basic.eval 0 := Row.eval_congr fun z hz => hdummy z (hw z hz)
      _ = basic.constant := Row.eval_zero basic
  have h0 := hval 0
  have h1 := hval 1
  exact hr.clean.coefficient_ne hy (by linarith)

/-- What the search for a row comes to. -/
inductive SearchOutcome (s : Solver Rat) (row : Row Rat) : Answer Rat Bool → Prop
  /-- The symbol for the row has left the basis. -/
  | free {u : Solver Rat} (h : Searched s row u) (hf : u.Free ⟨s.tick + 1, .slack⟩) :
      SearchOutcome s row
        (.ok true, { u with artificial := none }.removeSymbol ⟨s.tick + 1, .slack⟩)
  | above {u : Solver Rat} {basic : Row Rat} (h : Searched s row u)
      (hb : u.rows.get? ⟨s.tick + 1, .slack⟩ = some basic) (hpos : 0 < basic.constant) :
      SearchOutcome s row
        (.ok false, Solver.dropRow { u with artificial := none } ⟨s.tick + 1, .slack⟩)
  | empty {u : Solver Rat} {basic : Row Rat} (h : Searched s row u)
      (hb : u.rows.get? ⟨s.tick + 1, .slack⟩ = some basic) (hz : basic.constant = 0)
      (hempty : basic.cells.isEmpty = true) : SearchOutcome s row
        (.ok true, Solver.dropRow { u with artificial := none } ⟨s.tick + 1, .slack⟩)
  | stuck {u : Solver Rat} {basic : Row Rat} (h : Searched s row u)
      (hb : u.rows.get? ⟨s.tick + 1, .slack⟩ = some basic)
      (hd : basic.Within fun y => y.isDummy = true) : SearchOutcome s row
        (.ok false, Solver.dropRow { u with artificial := none } ⟨s.tick + 1, .slack⟩)
  /-- At zero, the symbol is replaced by one of its row. -/
  | replaced {u : Solver Rat} {basic : Row Rat} {entering : Symbol} (h : Searched s row u)
      (hb : u.rows.get? ⟨s.tick + 1, .slack⟩ = some basic) (hz : basic.constant = 0)
      (he : basic.Uses entering) (hp : entering.isPivotable = true) : SearchOutcome s row
        (.ok true, (Solver.pivot { u with artificial := none } ⟨s.tick + 1, .slack⟩ basic
          entering).removeSymbol ⟨s.tick + 1, .slack⟩)
  | exhausted {u : Solver Rat}
      (hrun : (s.searching row).optimize .artificial = (.error .pivotLimit, u)) :
      SearchOutcome s row (.error .pivotLimit, u)

theorem addArtificial_outcome (hs : s.Steady) (hr : s.Suits s.tick row)
    (hin : row.Within fun y => y.isExternal = false) (h0 : 0 ≤ row.constant) :
    SearchOutcome s row (s.addArtificial row) := by
  obtain ⟨u, hu, hp, hidle, ⟨hrun, ho⟩ | hrun⟩ :=
    (steady_searching hs hr hin h0).optimize
      (show (s.searching row).goalRow? .artificial = some row from rfl)
      (priced_searchPrices s) (measures_searching hs.toTidy)
  · have h : Searched s row u := ⟨hrun, hu, hp, hidle, ho⟩
    obtain ⟨g, hg, -, hconst⟩ := h.artificial hs.toTidy
    unfold searching at hrun
    unfold addArtificial
    simp only [freshSymbol, hrun, hg, Option.map_some, Option.getD_some]
    split
    · rename_i hfree
      rw [hconst, vertex_free hfree, Row.nearZero_iff.2 rfl]
      exact .free h hfree
    · rename_i basic hb
      rw [hconst, vertex_basic hb]
      by_cases hz : basic.constant = 0
      · rw [Row.nearZero_iff.2 hz]
        simp only [Bool.not_true, Bool.false_or]
        split
        · exact .empty h hb hz ‹_›
        · split
          · rename_i hnone
            refine .stuck h hb fun y hy => ?_
            have hye := hu.bound _ _ hb rfl y hy
            obtain ⟨k, hk⟩ := hy
            have hyp := (SortedMap.find?_eq_none_iff _).1 hnone y k hk
            obtain ⟨_, kind⟩ := y
            cases kind <;> simp_all [Symbol.isExternal, Symbol.isPivotable, Symbol.isDummy]
          · rename_i entering k hf
            obtain ⟨hk, hpivotable, -⟩ := SortedMap.find?_eq_some _ hf
            exact .replaced h hb hz ⟨k, hk⟩ hpivotable
      · rw [Bool.eq_false_iff.2 fun h => hz (Row.nearZero_iff.1 h)]
        simp only [Bool.not_false, Bool.true_or, if_true]
        exact .above h hb (lt_of_le_of_ne (hu.feasible _ _ hb rfl) (Ne.symm hz))
  · have hout := SearchOutcome.exhausted hrun
    unfold searching at hrun
    unfold addArtificial
    simpa only [freshSymbol, hrun] using hout

/-- The search ends with the row in the tableau, or with the tableau as it was. With the
dummies idle it gives up only on rows that no admissible solution has at zero. -/
theorem addArtificial_spec (hs : s.Steady) (hr : s.Suits s.tick row)
    (hin : row.Within fun y => y.isExternal = false) (h0 : 0 ≤ row.constant) :
    ∃ t, (s.addArtificial row = (.ok true, t) ∧ Narrowed s (fun σ => row.eval σ = 0) t) ∨
      (s.addArtificial row = (.ok false, t) ∧ Narrowed s (fun _ => True) t ∧
        (s.DummiesIdle → row.allDummies = false →
          ¬ ∃ σ, s.Solves σ ∧ Admissible σ ∧ row.eval σ = 0)) ∨
      (s.addArtificial row = (.error .pivotLimit, t) ∧ s.limit < turnBound (s.tick + 1)) := by
  have hnew : s.tick < (⟨s.tick + 1, .slack⟩ : Symbol).id := Nat.lt_succ_self _
  have hnotin := hr.not_uses_of_new hnew
  have hout := addArtificial_outcome hs hr hin h0
  generalize s.addArtificial row = p at hout ⊢
  cases hout with
  | free h hf =>
    exact ⟨_, Or.inl ⟨rfl, (h.narrowed hs.toTidy).removeSymbol hs.toTidy hnew hnotin hf⟩⟩
  | @above u basic h hb hpos =>
    refine ⟨_, Or.inr (Or.inl ⟨rfl, (h.narrowed hs.toTidy).dropRow hs.toTidy hnew hnotin hb,
      fun _ _ => ?_⟩)⟩
    rintro ⟨σ, hσ, ha, hzero⟩
    have hle := h.vertex_le hs.toTidy hnotin hσ ha hzero.ge
    rw [vertex_basic hb] at hle
    linarith
  | empty h hb hz hempty =>
    have hN := h.narrowed hs.toTidy
    refine ⟨_, Or.inl ⟨rfl, (hN.dropRow hs.toTidy hnew hnotin hb).congr fun σ hσ => ?_⟩⟩
    rw [← hN.eval_basic hs.toTidy hnew hnotin hb hσ, Row.eval_of_isEmpty hempty, hz]
    simp
  | stuck h hb hd =>
    refine ⟨_, Or.inr (Or.inl ⟨rfl, (h.narrowed hs.toTidy).dropRow hs.toTidy hnew hnotin hb,
      fun hidle hall => ?_⟩)⟩
    exact absurd hd (not_within_dummies hs.toTidy hr hidle hall h hb)
  | @replaced u basic entering h hb hz he hp =>
    have hN := h.narrowed hs.toTidy
    have hb' : { u with artificial := none }.rows.get? ⟨s.tick + 1, .slack⟩ = some basic := hb
    have hd : entering.isDummy = false := by
      obtain ⟨_, kind⟩ := entering
      cases kind <;> simp_all [Symbol.isPivotable, Symbol.isDummy]
    have hpiv := hN.of_pivoted
      (pivoted_pivot hN.steady.toTidy hb' ((h.steady.clean.rows _ _ hb).coefficient_ne he))
      (hN.steady.pivot_zero hb' rfl hz he) fun hi => dummiesIdle_pivot hi hd
    refine ⟨_, Or.inl ⟨rfl, hpiv.removeSymbol hs.toTidy hnew hnotin ?_⟩⟩
    rw [free_pivot]
    exact ⟨(h.steady.ne_of_uses hb he).symm, Or.inl rfl⟩
  | exhausted hrun =>
    refine ⟨_, Or.inr (Or.inr ⟨rfl, ?_⟩)⟩
    by_contra hlim
    exact (steady_searching hs hr hin h0).optimize_ends (not_lt.1 hlim) .artificial (by rw [hrun])

end Search

end Solver

end RegionLayout
