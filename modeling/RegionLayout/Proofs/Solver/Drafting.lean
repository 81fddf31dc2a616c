-- The row of a new constraint. Its variables get symbols, basic ones are replaced by their
-- rows, and the symbols of the constraint are put in, so on the solutions of the tableau the
-- row is the constraint's expression with its gap, up to the sign.
import RegionLayout.Proofs.Solver.Books

namespace RegionLayout

open Solver

namespace Solver

variable {s s' s₁ s₂ : Solver Rat} {row row' row₁ row₂ : Row Rat} {c : Constraint Rat} {tag : Tag}
  {σ : Symbol → Rat} {ts ts' : List (Variable × Rat)}

/-! ## Terms -/

/-- A row after terms were added to it, and the solver after their variables got symbols. -/
structure Summed (s : Solver Rat) (row : Row Rat) (ts : List (Variable × Rat)) (row' : Row Rat)
    (s' : Solver Rat) : Prop where
  frame : s' = { s with symbols := s'.symbols, tick := s'.tick }
  tick : s.tick ≤ s'.tick
  bound : s'.tick ≤ s.tick + ts.length
  named : s'.Named
  kept : ∀ {v y}, s.symbols.get? v = some y → s'.symbols.get? v = some y
  names : ∀ {v k}, (v, k) ∈ ts → k ≠ 0 → ∃ y, s'.symbols.get? v = some y
  suits : s.Suits s'.tick row'
  eval : ∀ σ, s.Solves σ →
    row'.eval σ = row.eval σ + (ts.map fun t => t.2 * s'.read σ t.1).sum

theorem Suits.of_rows {n : Nat} (h : s.Suits n row) (hr : s'.rows = s.rows) : s'.Suits n row :=
  ⟨h.within.mono fun y hy => ⟨by rw [Free, hr]; exact hy.1, hy.2⟩, h.clean⟩

theorem Summed.rows (h : Summed s row ts row' s') : s'.rows = s.rows := by rw [h.frame]

theorem Summed.steady (h : Summed s row ts row' s') (hs : s.Steady) : s'.Steady :=
  hs.of_eq h.rows (by rw [h.frame]) (by rw [h.frame]) (by rw [h.frame]) h.tick

/-- A symbol once given stays. -/
theorem read_of_kept (h : ∀ {v y}, s.symbols.get? v = some y → s'.symbols.get? v = some y)
    {v : Variable} (hv : ∃ y, s.symbols.get? v = some y) (σ : Symbol → Rat) :
    s'.read σ v = s.read σ v := by
  obtain ⟨y, hy⟩ := hv
  rw [read, read, hy, h hy]

theorem Summed.trans (h : Summed s row ts row₁ s₁) (h' : Summed s₁ row₁ ts' row₂ s₂) :
    Summed s row (ts ++ ts') row₂ s₂ where
  frame := by rw [h'.frame, h.frame]
  tick := h.tick.trans h'.tick
  bound := by
    have := h.bound
    have := h'.bound
    rw [List.length_append]
    omega
  named := h'.named
  kept hv := h'.kept (h.kept hv)
  names {v k} hv hk := by
    rcases List.mem_append.1 hv with hv | hv
    · obtain ⟨y, hy⟩ := h.names hv hk
      exact ⟨y, h'.kept hy⟩
    · exact h'.names hv hk
  suits := h'.suits.of_rows h.rows.symm
  eval σ hσ := by
    have hσ₁ : s₁.Solves σ := by
      intro x r hx
      rw [h.rows] at hx
      exact hσ x r hx
    have hsame : (ts.map fun t => t.2 * s₁.read σ t.1) = ts.map fun t => t.2 * s₂.read σ t.1 := by
      apply List.map_congr_left
      rintro ⟨v, k⟩ hv
      by_cases hk : k = 0
      · simp [hk]
      · rw [read_of_kept h'.kept (h.names hv hk)]
    rw [h'.eval σ hσ₁, h.eval σ hσ, List.map_append, List.sum_append, hsame]
    ring

/-- A variable has a symbol after it was asked for. -/
theorem symbolOf_spec (h : s.Named) (v : Variable) : ∃ y s', s.symbolOf v = (y, s') ∧
    s' = { s with symbols := s'.symbols, tick := s'.tick } ∧ s.tick ≤ s'.tick ∧
    s'.tick ≤ s.tick + 1 ∧ s'.Named ∧ s'.symbols.get? v = some y ∧
    ∀ {w z}, s.symbols.get? w = some z → s'.symbols.get? w = some z := by
  unfold symbolOf freshSymbol
  split
  · rename_i y hy
    exact ⟨y, s, rfl, rfl, le_rfl, Nat.le_succ _, h, hy, id⟩
  · rename_i hn
    refine ⟨_, _, rfl, rfl, Nat.le_succ _, le_rfl, ⟨?_, ?_, ?_⟩, ?_, ?_⟩
    · intro w z hw
      simp only [SortedMap.get?_insert] at hw
      split at hw
      · exact Option.some.inj hw ▸ rfl
      · exact h.external hw
    · intro w z hw
      simp only [SortedMap.get?_insert] at hw
      split at hw
      · exact Option.some.inj hw ▸ le_rfl
      · exact (h.before hw).trans (Nat.le_succ _)
    · intro w w' z hw hw'
      simp only [SortedMap.get?_insert] at hw hw'
      split at hw <;> split at hw'
      · exact ‹w = v›.trans ‹w' = v›.symm
      · have := h.before hw'
        rw [← Option.some.inj hw] at this
        exact absurd this (Nat.not_succ_le_self _)
      · have := h.before hw
        rw [← Option.some.inj hw'] at this
        exact absurd this (Nat.not_succ_le_self _)
      · exact h.own hw hw'
    · simp [SortedMap.get?_insert]
    · intro w z hw
      have hne : w ≠ v := by
        rintro rfl
        rw [hn] at hw
        simp at hw
      simp [SortedMap.get?_insert, hne, hw]

theorem Suits.insertSymbol {n : Nat} (h : s.Suits n row) {y : Symbol} (hf : s.Free y)
    (hy : y.id ≤ n) (k : Rat) : s.Suits n (row.insertSymbol y k) :=
  ⟨h.within.insertSymbol k ⟨hf, hy⟩, h.clean.insertSymbol y k⟩

theorem summed_insertTerm (hs : s.Regular) (hn : s.Named) (hr : s.Suits s.tick row)
    (t : Variable × Rat) :
    Summed s row [t] (insertTerm (row, s) t).1 (insertTerm (row, s) t).2 := by
  obtain ⟨v, k⟩ := t
  unfold insertTerm
  simp only [Row.nearZero_iff]
  split
  · rename_i hk
    subst hk
    exact ⟨rfl, le_rfl, Nat.le_succ _, hn, id, by simp, hr, by simp⟩
  · obtain ⟨y, s', heq, hframe, hle, hbound, hnamed, hy, hkept⟩ := symbolOf_spec hn v
    have hrows : s'.rows = s.rows := by rw [hframe]
    have hread : ∀ σ, s'.read σ v = σ y := fun σ => by rw [read, hy, Option.elim_some]
    have hr' := hr.mono hle
    have hnames : ∀ {w j}, (w, j) ∈ [(v, k)] → j ≠ 0 → ∃ y, s'.symbols.get? w = some y := by
      intro w j hm _
      obtain ⟨rfl, -⟩ : w = v ∧ j = k := by simpa using hm
      exact ⟨y, hy⟩
    simp only [heq, hrows]
    split
    · rename_i basic hb
      have hbasic := (hs.suits_row hb).mono hle
      refine ⟨hframe, hle, hbound, hnamed, hkept, hnames, ?_, fun σ hσ => ?_⟩
      · exact ⟨hr'.within.insertRow k hbasic.within, hr'.clean.insertRow _ _⟩
      · simp [hread, ← hσ y basic hb]
    · rename_i hfree
      refine ⟨hframe, hle, hbound, hnamed, hkept, hnames, ?_, fun σ _ => ?_⟩
      · exact hr'.insertSymbol hfree (hnamed.before hy) k
      · simp [hread]

theorem summed_insertTerms (hs : s.Steady) (hn : s.Named) (hr : s.Suits s.tick row)
    (ts : List (Variable × Rat)) :
    Summed s row ts (ts.foldl insertTerm (row, s)).1 (ts.foldl insertTerm (row, s)).2 := by
  induction ts generalizing s row with
  | nil => exact ⟨rfl, le_rfl, le_rfl, hn, id, by simp, hr, by simp⟩
  | cons t ts ih =>
    have h := summed_insertTerm hs.toRegular hn hr t
    exact h.trans (ih (h.steady hs) h.named (h.suits.of_rows h.rows))

/-! ## Markers -/

/-- A row after the symbols of a constraint were put in, and the solver that charges for
them. -/
structure Marked (s : Solver Rat) (c : Constraint Rat) (row row' : Row Rat) (tag : Tag)
    (s' : Solver Rat) : Prop where
  frame : s' = { s with tick := s'.tick, objective := s'.objective }
  tick : s.tick ≤ s'.tick
  bound : s'.tick ≤ s.tick + 2
  fits : tag.Fits c
  fresh : ∀ y ∈ tag.symbols, s.tick < y.id ∧ y.id ≤ s'.tick
  suits : s.Suits s'.tick row'
  eval : ∀ σ, row'.eval σ = row.eval σ + tag.gap c σ
  marker : row'.coefficient tag.marker = c.sign
  other : ∀ {y}, tag.other = some y → row'.coefficient y = -c.sign
  priced : s.Suits s'.tick s'.objective
  cost : ∀ σ, s'.objective.eval σ = s.objective.eval σ + c.weight * tag.strain σ

theorem insertMarkers_of_required (hr : c.isRequired = true) (row : Row Rat) (s : Solver Rat) :
    insertMarkers c row s =
      let m : Symbol := ⟨s.tick + 1, if c.comparator = .equal then .dummy else .slack⟩
      (row.insertSymbol m c.sign, ⟨m, none⟩, { s with tick := s.tick + 1 }) := by
  unfold insertMarkers Constraint.sign freshSymbol
  cases c.comparator <;> simp [hr]

theorem insertMarkers_of_soft (hr : c.isRequired = false) (row : Row Rat) (s : Solver Rat) :
    insertMarkers c row s =
      let m : Symbol := ⟨s.tick + 1, if c.comparator = .equal then .error else .slack⟩
      let o : Symbol := ⟨s.tick + 2, .error⟩
      let g := if c.comparator = .equal then s.objective.insertSymbol m c.weight else s.objective
      ((row.insertSymbol m c.sign).insertSymbol o (-c.sign), ⟨m, some o⟩,
        { s with tick := s.tick + 2, objective := g.insertSymbol o c.weight }) := by
  unfold insertMarkers Constraint.sign freshSymbol charge
  cases c.comparator <;> simp [hr]

theorem marked_insertMarkers_of_required (hs : s.Steady) (hw : s.Suits s.tick row)
    (hr : c.isRequired = true) : Marked s c row (insertMarkers c row s).1
      (insertMarkers c row s).2.1 (insertMarkers c row s).2.2 := by
  rw [insertMarkers_of_required hr]
  set m : Symbol := ⟨s.tick + 1, if c.comparator = .equal then .dummy else .slack⟩ with hm
  have hfits : Tag.Fits ⟨m, none⟩ c :=
    ⟨by by_cases he : c.comparator = .equal <;> simp [hm, he, hr], fun _ => rfl, by simp [hr]⟩
  have hmn : s.tick < m.id := Nat.lt_succ_self _
  have hle : s.tick ≤ s.tick + 1 := Nat.le_succ _
  refine ⟨rfl, hle, Nat.le_succ _, hfits, ?_, ?_, fun σ => ?_, ?_, by simp,
    hs.suits_objective.mono hle, fun σ => ?_⟩
  · intro y hy
    obtain rfl : y = m := by simpa [Tag.symbols] using hy
    exact ⟨hmn, le_rfl⟩
  · exact (hw.mono hle).insertSymbol (hs.free_of_new hmn) le_rfl _
  · simp [Tag.gap]
  · rw [Row.coefficient_insertSymbol, Row.coefficient_of_not_uses (hw.not_uses_of_new hmn)]
    simp
  · rw [Tag.strain_of_required hfits hr]
    ring

theorem marked_insertMarkers_of_soft (hs : s.Steady) (hw : s.Suits s.tick row)
    (hr : c.isRequired = false) : Marked s c row (insertMarkers c row s).1
      (insertMarkers c row s).2.1 (insertMarkers c row s).2.2 := by
  rw [insertMarkers_of_soft hr]
  set m : Symbol := ⟨s.tick + 1, if c.comparator = .equal then .error else .slack⟩ with hm
  set o : Symbol := ⟨s.tick + 2, .error⟩ with ho
  have hne : o ≠ m := fun h => by simpa [hm, ho] using congrArg Symbol.id h
  have hfits : Tag.Fits ⟨m, some o⟩ c :=
    ⟨by by_cases he : c.comparator = .equal <;> simp [hm, he, hr], by simp [hr],
      fun _ => ⟨o, rfl, rfl, hne⟩⟩
  have hmn : s.tick < m.id := Nat.lt_succ_self _
  have hon : s.tick < o.id := Nat.lt_add_of_pos_right (by decide)
  have hmf := hs.free_of_new hmn
  have hof := hs.free_of_new hon
  have hml : m.id ≤ s.tick + 2 := Nat.le_succ _
  have hle : s.tick ≤ s.tick + 2 := Nat.le_add_right _ _
  refine ⟨rfl, hle, le_rfl, hfits, ?_, ?_, fun σ => ?_, ?_, ?_, ?_, fun σ => ?_⟩
  · intro y hy
    have : y = m ∨ y = o := by simpa [Tag.symbols] using hy
    rcases this with rfl | rfl
    · exact ⟨hmn, hml⟩
    · exact ⟨hon, le_rfl⟩
  · exact ((hw.mono hle).insertSymbol hmf hml _).insertSymbol hof le_rfl _
  · simp only [Row.eval_insertSymbol, Tag.gap, Option.elim_some]
    ring
  · rw [Row.coefficient_insertSymbol, Row.coefficient_insertSymbol,
      Row.coefficient_of_not_uses (hw.not_uses_of_new hmn)]
    simp [hne]
  · intro y hy
    obtain rfl := Option.some.inj hy
    rw [Row.coefficient_insertSymbol, Row.coefficient_insertSymbol,
      Row.coefficient_of_not_uses (hw.not_uses_of_new hon)]
    simp [hne.symm]
  · refine Suits.insertSymbol ?_ hof le_rfl _
    split
    · exact (hs.suits_objective.mono hle).insertSymbol hmf hml _
    · exact hs.suits_objective.mono hle
  · rw [Tag.strain_of_soft hfits hr]
    simp only [Row.eval_insertSymbol, Option.elim_some]
    split
    · rw [Row.eval_insertSymbol]
      ring
    · ring

theorem marked_insertMarkers (hs : s.Steady) (hw : s.Suits s.tick row) (c : Constraint Rat) :
    Marked s c row (insertMarkers c row s).1 (insertMarkers c row s).2.1
      (insertMarkers c row s).2.2 := by
  cases hr : c.isRequired with
  | true => exact marked_insertMarkers_of_required hs hw hr
  | false => exact marked_insertMarkers_of_soft hs hw hr

/-! ## The row of a constraint -/

/-- A row for a constraint, up to the sign `k`, and the solver after it was made. -/
structure Drafted (s : Solver Rat) (c : Constraint Rat) (row : Row Rat) (tag : Tag)
    (s' : Solver Rat) (k : Rat) : Prop where
  frame : s' = { s with symbols := s'.symbols, tick := s'.tick, objective := s'.objective }
  tick : s.tick ≤ s'.tick
  bound : s'.tick ≤ s.tick + c.expression.terms.length + 2
  steady : s'.Steady
  named : s'.Named
  kept : ∀ {v y}, s.symbols.get? v = some y → s'.symbols.get? v = some y
  names : ∀ {v}, c.expression.Names v → ∃ y, s'.symbols.get? v = some y
  fits : tag.Fits c
  fresh : ∀ y ∈ tag.symbols, s.tick < y.id ∧ y.id ≤ s'.tick
  suits : s'.Suits s'.tick row
  sign : k = 1 ∨ k = -1
  eval : ∀ σ, s.Solves σ →
    row.eval σ = k * (c.expression.eval (s'.read σ) + tag.gap c σ)
  marker : row.coefficient tag.marker = k * c.sign
  other : ∀ {y}, tag.other = some y → row.coefficient y = -(k * c.sign)
  cost : ∀ σ, s'.objective.eval σ = s.objective.eval σ + c.weight * tag.strain σ

theorem Drafted.rows {k : Rat} (h : Drafted s c row tag s' k) : s'.rows = s.rows := by
  rw [h.frame]

theorem Drafted.negate {k : Rat} (h : Drafted s c row tag s' k) :
    Drafted s c row.negate tag s' (-k) := by
  refine ⟨h.frame, h.tick, h.bound, h.steady, h.named, h.kept, h.names, h.fits, h.fresh,
    ⟨fun y hy => h.suits.within y (Row.uses_negate.1 hy), h.suits.clean.negate⟩, ?_,
    fun σ hσ => ?_, ?_, fun hy => ?_, h.cost⟩
  · rcases h.sign with rfl | rfl <;> simp
  · rw [Row.eval_negate, h.eval σ hσ]
    ring
  · rw [Row.coefficient_negate, h.marker]
    ring
  · rw [Row.coefficient_negate, h.other hy]
    ring

/-- A row summed from the terms of a constraint and then marked is the row of the constraint. -/
theorem Drafted.of_marked (hs : s.Steady)
    (h : Summed s (.ofConstant c.expression.constant) c.expression.terms row₁ s₁)
    (hm : Marked s₁ c row₁ row₂ tag s') : Drafted s c row₂ tag s' 1 := by
  have hs₁ := h.steady hs
  have hrows : s'.rows = s₁.rows := by rw [hm.frame]
  have hsym : s'.symbols = s₁.symbols := by rw [hm.frame]
  have hart : s'.artificial = s₁.artificial := by rw [hm.frame]
  refine ⟨by rw [hm.frame, h.frame], h.tick.trans hm.tick, ?_, ?_, ?_, fun hv => ?_, ?_, hm.fits,
    fun y hy => ⟨h.tick.trans_lt (hm.fresh y hy).1, (hm.fresh y hy).2⟩, hm.suits.of_rows hrows,
    Or.inl rfl, fun σ hσ => ?_, ?_, fun hy => ?_, fun σ => ?_⟩
  · have := h.bound
    have := hm.bound
    omega
  · exact hs₁.of_rows hrows (by rw [hm.frame]) hm.tick hm.priced fun r hr =>
      (hs₁.suits_artificial (hart ▸ hr)).mono hm.tick
  · refine ⟨fun hv => ?_, fun hv => ?_, fun hv hw => ?_⟩
    · exact h.named.external (hsym ▸ hv)
    · exact (h.named.before (hsym ▸ hv)).trans hm.tick
    · exact h.named.own (hsym ▸ hv) (hsym ▸ hw)
  · rw [hsym]
    exact h.kept hv
  · rintro v ⟨k, hv, hk⟩
    rw [hsym]
    exact h.names hv hk
  · rw [hm.eval, h.eval σ hσ, Row.eval_ofConstant, Expression.eval_eq, read_of_eq hsym, one_mul]
  · rw [hm.marker, one_mul]
  · rw [hm.other hy, one_mul]
  · rw [hm.cost, show s₁.objective = s.objective by rw [h.frame]]

theorem createRow_spec (hs : s.Steady) (hn : s.Named) (c : Constraint Rat) :
    ∃ row tag s' k, s.createRow c = (row, tag, s') ∧ Drafted s c row tag s' k ∧
      0 ≤ row.constant := by
  have h := summed_insertTerms hs hn
    ⟨Row.within_ofConstant _ c.expression.constant, Row.clean_ofConstant _⟩ c.expression.terms
  unfold createRow
  set acc := c.expression.terms.foldl insertTerm (.ofConstant c.expression.constant, s) with hacc
  obtain ⟨row₁, s₁⟩ := acc
  simp only at h ⊢
  have hm := marked_insertMarkers (h.steady hs) (h.suits.of_rows h.rows) c
  set out := insertMarkers c row₁ s₁ with hout
  obtain ⟨row₂, tag, s'⟩ := out
  simp only at hm ⊢
  have hd := Drafted.of_marked hs h hm
  by_cases hneg : row₂.constant < 0
  · refine ⟨_, tag, s', -1, rfl, ?_⟩
    rw [if_pos hneg]
    refine ⟨hd.negate, ?_⟩
    simp only [Row.negate]
    linarith
  · refine ⟨_, tag, s', 1, rfl, ?_⟩
    rw [if_neg hneg]
    exact ⟨hd, not_lt.1 hneg⟩

end Solver

end RegionLayout
