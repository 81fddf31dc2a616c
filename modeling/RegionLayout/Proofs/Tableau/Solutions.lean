-- The solutions of a tableau. A tableau in solved form has a basic symbol for each row and no
-- basic symbol in a row, so a solution is free in every other symbol and fixed by those. A
-- pivot keeps the solved form and changes no solution.
import RegionLayout.Proofs.Tableau.Rows
import RegionLayout.Solver

namespace RegionLayout

open Solver

namespace Solver

/-! ## Rows of a changed tableau -/

section Rows

variable {R : Type}

@[simp] theorem rows_putRow (s : Solver R) (x y : Symbol) (row : Row R) :
    (s.putRow x row).rows.get? y = if y = x then some row else s.rows.get? y :=
  SortedMap.get?_insert _ _ _ _

@[simp] theorem rows_dropRow (s : Solver R) (x y : Symbol) :
    (s.dropRow x).rows.get? y = if y = x then none else s.rows.get? y :=
  SortedMap.get?_erase _ _ _

/-- Each row of the tableau has the property, and so has each objective. -/
structure AllRows (P : Row R → Prop) (s : Solver R) : Prop where
  rows : ∀ x r, s.rows.get? x = some r → P r
  objective : P s.objective
  artificial : ∀ r, s.artificial = some r → P r

theorem AllRows.mono {P Q : Row R → Prop} {s : Solver R} (h : s.AllRows P)
    (hpq : ∀ r, P r → Q r) : s.AllRows Q where
  rows x r hx := hpq r (h.rows x r hx)
  objective := hpq _ h.objective
  artificial r hr := hpq r (h.artificial r hr)

theorem AllRows.dropRow {P : Row R → Prop} {s : Solver R} (h : s.AllRows P) (x : Symbol) :
    (s.dropRow x).AllRows P where
  rows y r hy := by
    rw [rows_dropRow] at hy
    split at hy
    · simp at hy
    · exact h.rows y r hy
  objective := h.objective
  artificial := h.artificial

theorem AllRows.putRow {P : Row R → Prop} {s : Solver R} (h : s.AllRows P) {x : Symbol}
    {row : Row R} (hr : P row) : (s.putRow x row).AllRows P where
  rows y r hy := by
    rw [rows_putRow] at hy
    split at hy
    · exact Option.some.inj hy ▸ hr
    · exact h.rows y r hy
  objective := h.objective
  artificial := h.artificial

/-! ## Solved form -/

/-- The symbol has no row. -/
def Free (s : Solver R) (x : Symbol) : Prop := s.rows.get? x = none

theorem Free.ne_of_basic {s : Solver R} {x y : Symbol} {row : Row R} (h : s.Free x)
    (hy : s.rows.get? y = some row) : x ≠ y := by
  rintro rfl
  rw [Free, hy] at h
  simp at h

/-- No basic symbol stands in a row, and no symbol is newer than the one made last. -/
structure Tidy (s : Solver R) : Prop where
  solved : s.AllRows (Row.Within s.Free)
  known : s.AllRows (Row.Within fun x => x.id ≤ s.tick)
  keys : ∀ x r, s.rows.get? x = some r → x.id ≤ s.tick

theorem Tidy.dropRow {s : Solver R} (h : s.Tidy) (x : Symbol) : (s.dropRow x).Tidy where
  solved := (h.solved.dropRow x).mono fun r hr => hr.mono fun y hy => by
    rw [Free, rows_dropRow]
    split
    · rfl
    · exact hy
  known := h.known.dropRow x
  keys y r hy := by
    rw [rows_dropRow] at hy
    split at hy
    · simp at hy
    · exact h.keys y r hy

/-- A symbol that stands in a row is not the one that the row is for. -/
theorem Tidy.ne_of_uses {s : Solver R} {leaving entering : Symbol} {row : Row R} (h : s.Tidy)
    (hl : s.rows.get? leaving = some row) (he : row.Uses entering) : entering ≠ leaving :=
  Free.ne_of_basic (h.solved.rows _ _ hl _ he) hl

/-- The symbol stands in no row. -/
def Absent (s : Solver R) (x : Symbol) : Prop := s.AllRows fun r => ¬ r.Uses x

theorem Tidy.absent_of_basic {s : Solver R} {x : Symbol} {row : Row R} (h : s.Tidy)
    (hx : s.rows.get? x = some row) : s.Absent x :=
  h.solved.mono fun _ hr hu => (hr x hu).ne_of_basic hx rfl

/-- A symbol newer than a tidy tableau stands in none of its rows. -/
theorem Tidy.absent {s : Solver R} {x : Symbol} (h : s.Tidy) (hx : s.tick < x.id) : s.Absent x :=
  h.known.mono fun _ hr hu => absurd (hr x hu) (not_le.2 hx)

theorem Tidy.free_of_new {s : Solver R} {x : Symbol} (h : s.Tidy) (hx : s.tick < x.id) :
    s.Free x := by
  cases hr : s.rows.get? x with
  | none => exact hr
  | some r => exact absurd (h.keys x r hr) (not_le.2 hx)

/-- A tableau that has no more symbols in its rows than a tidy one, and no fewer free. -/
theorem Tidy.of_uses {s t : Solver R} (h : s.Tidy)
    (hr : ∀ x r, t.rows.get? x = some r → ∃ r', s.rows.get? x = some r' ∧ ∀ y, r.Uses y → r'.Uses y)
    (hf : ∀ x, s.Free x → t.Free x) (ho : ∀ y, t.objective.Uses y → s.objective.Uses y)
    (ha : ∀ r, t.artificial = some r → ∃ r', s.artificial = some r' ∧ ∀ y, r.Uses y → r'.Uses y)
    (ht : s.tick ≤ t.tick) : t.Tidy := by
  have within : ∀ {p q : Symbol → Prop}, (∀ y, p y → q y) → s.AllRows (Row.Within p) →
      t.AllRows (Row.Within q) := by
    intro p q hpq hall
    refine ⟨fun x r hx y hy => ?_, fun y hy => hpq y (hall.objective y (ho y hy)),
      fun r hr' y hy => ?_⟩
    · obtain ⟨r', hr', hu⟩ := hr x r hx
      exact hpq y (hall.rows x r' hr' y (hu y hy))
    · obtain ⟨r', ha', hu⟩ := ha r hr'
      exact hpq y (hall.artificial r' ha' y (hu y hy))
  refine ⟨within hf h.solved, within (fun y hy => hy.trans ht) h.known, fun x r hx => ?_⟩
  obtain ⟨r', hr', -⟩ := hr x r hx
  exact (h.keys x r' hr').trans ht

/-- Only the rows, the objectives and the number of symbols made matter. -/
theorem Tidy.of_eq {s t : Solver R} (h : s.Tidy) (hr : t.rows = s.rows)
    (ho : t.objective = s.objective) (ha : t.artificial = s.artificial) (ht : s.tick ≤ t.tick) :
    t.Tidy := by
  refine h.of_uses (fun x r hx => ⟨r, hr ▸ hx, fun _ => id⟩) (fun x hx => ?_) (fun y hy => ho ▸ hy)
    (fun r hr' => ⟨r, ha ▸ hr', fun _ => id⟩) ht
  rw [Free, hr]
  exact hx

theorem Tidy.putRow {s : Solver R} {x : Symbol} {row : Row R} (h : s.Tidy) (ha : s.Absent x)
    (hx : x.id ≤ s.tick) (hr : row.Within fun y => y ≠ x ∧ s.Free y ∧ y.id ≤ s.tick) :
    (s.putRow x row).Tidy where
  solved := by
    have free : ∀ r : Row R, ¬ r.Uses x → r.Within s.Free → r.Within (s.putRow x row).Free := by
      intro r hr hw y hy
      have hne : y ≠ x := by
        rintro rfl
        exact hr hy
      rw [Free, rows_putRow, if_neg hne]
      exact hw y hy
    refine AllRows.putRow ⟨fun y r hy => ?_, ?_, fun r hr => ?_⟩ ?_
    · exact free r (ha.rows y r hy) (h.solved.rows y r hy)
    · exact free _ ha.objective h.solved.objective
    · exact free r (ha.artificial r hr) (h.solved.artificial r hr)
    · exact free row (fun hu => (hr x hu).1 rfl) (hr.mono fun y hy => hy.2.1)
  known := h.known.putRow (hr.mono fun y hy => hy.2.2)
  keys y r hy := by
    rw [rows_putRow] at hy
    split at hy
    · subst y; exact hx
    · exact h.keys y r hy

/-! ## Pivots -/

variable [Scalar R]

@[simp] theorem rows_substitute (s : Solver R) (x y : Symbol) (definition : Row R) :
    (s.substitute x definition).rows.get? y =
      (s.rows.get? y).map fun r => r.substitute x definition := SortedMap.get?_mapValues _ _ _

theorem rows_install (s : Solver R) (x y : Symbol) (definition : Row R) :
    (s.install x definition).rows.get? y =
      if y = x then some definition
      else (s.rows.get? y).map fun r => r.substitute x definition := by
  rw [install, rows_putRow, rows_substitute]

theorem AllRows.substitute {P Q : Row R → Prop} {s : Solver R} (h : s.AllRows P) {x : Symbol}
    {definition : Row R} (hpq : ∀ r, P r → Q (r.substitute x definition)) :
    (s.substitute x definition).AllRows Q where
  rows y r hy := by
    rw [rows_substitute, Option.map_eq_some_iff] at hy
    obtain ⟨r, hr, rfl⟩ := hy
    exact hpq r (h.rows y r hr)
  objective := hpq _ h.objective
  artificial r hr := by
    obtain ⟨r', hr', rfl⟩ := Option.map_eq_some_iff.1 hr
    exact hpq r' (h.artificial r' hr')

theorem free_substitute (s : Solver R) (x y : Symbol) (definition : Row R) :
    (s.substitute x definition).Free y ↔ s.Free y := by
  rw [Free, rows_substitute, Option.map_eq_none_iff, Free]

section Substitution

variable {s : Solver R} {x : Symbol} {definition : Row R}

theorem absent_substitute (hd : ¬ definition.Uses x) :
    (s.substitute x definition).Absent x := by
  have key : ∀ r : Row R, ¬ (r.substitute x definition).Uses x := by
    intro r hr
    have hw : (r.substitute x definition).Within fun y => y ≠ x := by
      refine Row.Within.substitute (fun y _ hne => hne) fun _ y hy => ?_
      rintro rfl
      exact hd hy
    exact hw x hr rfl
  refine ⟨fun y r hy => ?_, key _, fun r hr => ?_⟩
  · rw [rows_substitute] at hy
    obtain ⟨r', -, rfl⟩ := Option.map_eq_some_iff.1 hy
    exact key r'
  · obtain ⟨r', -, rfl⟩ := Option.map_eq_some_iff.1 hr
    exact key r'

theorem Tidy.substitute (h : s.Tidy)
    (hd : definition.Within fun y => s.Free y ∧ y.id ≤ s.tick) :
    (s.substitute x definition).Tidy where
  solved := h.solved.substitute fun r hr =>
    (Row.Within.substitute (fun y hy _ => hr y hy) fun _ => hd.mono fun y hy => hy.1).mono
      fun y hy => (free_substitute s x y definition).2 hy
  known := h.known.substitute fun r hr =>
    Row.Within.substitute (fun y hy _ => hr y hy) fun _ => hd.mono fun y hy => hy.2
  keys y r hy := by
    rw [rows_substitute] at hy
    obtain ⟨r', hr', -⟩ := Option.map_eq_some_iff.1 hy
    exact h.keys y r' hr'

end Substitution

variable {s : Solver R} {x leaving entering : Symbol} {row definition : Row R}

/-- An exchanged row is about symbols that are free once its own row is gone. -/
theorem Tidy.within_exchange (h : s.Tidy) (hl : s.rows.get? leaving = some row)
    (entering : Symbol) : (row.exchange leaving entering).Within fun y =>
      y ≠ entering ∧ (s.dropRow leaving).Free y ∧ y.id ≤ s.tick := by
  refine Row.Within.exchange ?_ ⟨by simp [Free], h.keys _ _ hl⟩
  intro y hy
  refine ⟨?_, h.known.rows _ _ hl _ hy⟩
  have := h.solved.rows _ _ hl _ hy
  rw [Free, rows_dropRow]
  split
  · rfl
  · exact this

theorem rows_pivot (s : Solver R) (leaving entering y : Symbol) (row : Row R) :
    (s.pivot leaving row entering).rows.get? y =
      if y = entering then some (row.exchange leaving entering)
      else if y = leaving then none
      else (s.rows.get? y).map fun r => r.substitute entering (row.exchange leaving entering) := by
  rw [pivot, rows_install, rows_dropRow]
  split
  · rfl
  · split <;> rfl

theorem Tidy.install (h : s.Tidy) (hx : x.id ≤ s.tick)
    (hd : definition.Within fun y => y ≠ x ∧ s.Free y ∧ y.id ≤ s.tick) :
    (s.install x definition).Tidy := by
  refine (h.substitute (hd.mono fun y hy => hy.2)).putRow (absent_substitute ?_) hx ?_
  · exact fun hu => (hd x hu).1 rfl
  · exact hd.mono fun y hy => ⟨hy.1, (free_substitute s x y definition).2 hy.2.1, hy.2.2⟩

/-- The symbols of a pivoted tableau that have no row. -/
theorem free_pivot (s : Solver R) (leaving entering y : Symbol) (row : Row R) :
    (s.pivot leaving row entering).Free y ↔ y ≠ entering ∧ (y = leaving ∨ s.Free y) := by
  rw [Free, rows_pivot]
  by_cases he : y = entering
  · simp [he]
  · by_cases hl : y = leaving <;> simp [he, hl, Free]

/-! ## Shifts -/

theorem shiftRow_eq (s : Solver R) (x : Symbol) (row : Row R) (k : R) :
    s.shiftRow x row k = { s with
      rows := s.rows.insert x (row.shift k)
      infeasible := if (row.shift k).constant < 0 then x :: s.infeasible else s.infeasible } := by
  unfold shiftRow putRow
  dsimp only
  split <;> rfl

theorem rows_shiftRow (s : Solver R) (x y : Symbol) (row : Row R) (k : R) :
    (s.shiftRow x row k).rows.get? y =
      if y = x then some (row.shift k) else s.rows.get? y := by
  rw [shiftRow_eq, SortedMap.get?_insert]

theorem Tidy.shiftRow (h : s.Tidy) (hx : s.rows.get? x = some row) (k : R) :
    (s.shiftRow x row k).Tidy := by
  rw [shiftRow_eq]
  refine h.of_uses (fun y r hy => ?_) (fun y hy => ?_) (fun _ => id)
    (fun r hr => ⟨r, hr, fun _ => id⟩) le_rfl
  · rw [SortedMap.get?_insert] at hy
    split at hy
    · obtain rfl := Option.some.inj hy
      exact ⟨row, ‹y = x› ▸ hx, fun _ => id⟩
    · exact ⟨r, hy, fun _ => id⟩
  · rw [Free, SortedMap.get?_insert, if_neg (hy.ne_of_basic hx)]
    exact hy

/-- A shift of all rows moves constants, and takes no row away and adds none. -/
theorem basic_of_shiftAll {r : Row R} {y : Symbol} {k : R}
    (hy : (s.shiftAll x k).rows.get? y = some r) :
    ∃ r', s.rows.get? y = some r' ∧ ∃ c, r = { r' with constant := c } := by
  obtain ⟨r', hr', rfl⟩ := Option.map_eq_some_iff.1 ((SortedMap.get?_mapValues _ _ _).symm.trans hy)
  refine ⟨r', hr', ?_⟩
  dsimp only
  split
  · exact ⟨r'.constant, rfl⟩
  · exact ⟨r'.constant + k * r'.coefficient x, rfl⟩

theorem Tidy.shiftAll (h : s.Tidy) (x : Symbol) (k : R) : (s.shiftAll x k).Tidy := by
  refine h.of_uses (fun y r hy => ?_) (fun y hy => ?_) (fun _ => id)
    (fun r hr => ⟨r, hr, fun _ => id⟩) le_rfl
  · obtain ⟨r', hr', c, rfl⟩ := basic_of_shiftAll hy
    exact ⟨r', hr', fun _ => id⟩
  · have hfree : s.rows.get? y = none := hy
    rw [Free, Solver.shiftAll, SortedMap.get?_mapValues, hfree]
    rfl

end Rows

/-! ## Solutions -/

variable {s : Solver Rat} {x : Symbol} {σ τ : Symbol → Rat}

/-- Every basic symbol has the value of its row. -/
def Solves (s : Solver Rat) (σ : Symbol → Rat) : Prop :=
  ∀ x r, s.rows.get? x = some r → σ x = r.eval σ

theorem solves_dropRow {row : Row Rat} (hx : s.rows.get? x = some row) :
    s.Solves σ ↔ (s.dropRow x).Solves σ ∧ σ x = row.eval σ := by
  constructor
  · intro h
    refine ⟨fun y r hy => ?_, h x row hx⟩
    rw [rows_dropRow] at hy
    split at hy
    · simp at hy
    · exact h y r hy
  · rintro ⟨h, hr⟩ y r hy
    by_cases hyx : y = x
    · subst hyx
      rw [hx] at hy
      exact Option.some.inj hy ▸ hr
    · exact h y r (by rw [rows_dropRow, if_neg hyx, hy])

theorem solves_putRow {row : Row Rat} (hx : s.Free x) :
    (s.putRow x row).Solves σ ↔ s.Solves σ ∧ σ x = row.eval σ := by
  constructor
  · intro h
    refine ⟨fun y r hy => h y r ?_, h x row (by simp)⟩
    rw [rows_putRow, if_neg (hx.ne_of_basic hy).symm, hy]
  · rintro ⟨h, hr⟩ y r hy
    rw [rows_putRow] at hy
    split at hy
    · subst y
      exact Option.some.inj hy ▸ hr
    · exact h y r hy

theorem solves_substitute {definition : Row Rat} (hx : σ x = definition.eval σ) :
    (s.substitute x definition).Solves σ ↔ s.Solves σ := by
  constructor
  · intro h y r hy
    have := h y (r.substitute x definition) (by rw [rows_substitute, hy, Option.map_some])
    rwa [Row.eval_substitute_of_eq σ hx] at this
  · intro h y r hy
    rw [rows_substitute] at hy
    obtain ⟨r', hr', rfl⟩ := Option.map_eq_some_iff.1 hy
    rw [Row.eval_substitute_of_eq σ hx]
    exact h y r' hr'

theorem solves_install {definition : Row Rat} (hx : s.Free x) :
    (s.install x definition).Solves σ ↔ s.Solves σ ∧ σ x = definition.eval σ := by
  rw [install, solves_putRow ((free_substitute s x x definition).2 hx)]
  constructor
  · rintro ⟨h, he⟩
    exact ⟨(solves_substitute he).1 h, he⟩
  · rintro ⟨h, he⟩
    exact ⟨(solves_substitute he).2 h, he⟩

/-- A pivot changes no solution. -/
theorem Tidy.solves_pivot {leaving entering : Symbol} {row : Row Rat} (h : s.Tidy)
    (hl : s.rows.get? leaving = some row) (he : row.coefficient entering ≠ 0) :
    (s.pivot leaving row entering).Solves σ ↔ s.Solves σ := by
  have hu := Row.uses_of_coefficient_ne he
  have hfree : (s.dropRow leaving).Free entering := by
    rw [Free, rows_dropRow, if_neg (h.ne_of_uses hl hu)]
    exact h.solved.rows _ _ hl _ hu
  rw [Solver.pivot, solves_install hfree, Row.eq_eval_exchange_iff σ he (h.ne_of_uses hl hu),
    ← solves_dropRow hl]

/-- The assignment that agrees with `τ` on the free symbols and solves the tableau. -/
def fill (s : Solver Rat) (τ : Symbol → Rat) (x : Symbol) : Rat :=
  match s.rows.get? x with
  | some r => r.eval τ
  | none => τ x

theorem fill_free (hx : s.Free x) : s.fill τ x = τ x := by
  unfold fill
  rw [show s.rows.get? x = none from hx]

theorem fill_basic {r : Row Rat} (hx : s.rows.get? x = some r) : s.fill τ x = r.eval τ := by
  unfold fill
  rw [hx]

theorem Tidy.solves_fill (h : s.Tidy) (τ : Symbol → Rat) : s.Solves (s.fill τ) := by
  intro x r hx
  rw [fill_basic hx]
  apply Row.eval_congr
  intro y hy
  exact (fill_free (h.solved.rows x r hx y hy)).symm

/-- The free symbols decide a solution. -/
theorem Tidy.eq_fill (h : s.Tidy) (hσ : s.Solves σ) (hf : ∀ x, s.Free x → σ x = τ x) :
    σ = s.fill τ := by
  funext x
  cases hx : s.rows.get? x with
  | none => rw [fill_free hx, hf x hx]
  | some r =>
    rw [fill_basic hx, hσ x r hx]
    apply Row.eval_congr
    intro y hy
    exact hf y (h.solved.rows x r hx y hy)

/-- The solution that a tableau stands at: every free symbol is zero. -/
def vertex (s : Solver Rat) : Symbol → Rat := s.fill 0

theorem vertex_free (hx : s.Free x) : s.vertex x = 0 := fill_free hx

theorem vertex_basic {r : Row Rat} (hx : s.rows.get? x = some r) : s.vertex x = r.constant := by
  rw [vertex, fill_basic hx, Row.eval_zero]

theorem Tidy.solves_vertex (h : s.Tidy) : s.Solves s.vertex := h.solves_fill 0

theorem eval_vertex {r : Row Rat} (h : r.Within s.Free) : r.eval s.vertex = r.constant := by
  rw [← Row.eval_zero]
  exact Row.eval_congr fun y hy => vertex_free (h y hy)

/-- What a variable reads is the vertex at its symbol. -/
theorem value_eq (s : Solver Rat) (v : Variable) :
    s.value v = match s.symbols.get? v with
      | some x => s.vertex x
      | none => 0 := by
  unfold value
  cases s.symbols.get? v with
  | none => rfl
  | some x =>
    simp only [Option.bind_some]
    cases hx : s.rows.get? x with
    | none => exact (vertex_free hx).symm
    | some r => exact (vertex_basic hx).symm

/-! ## Exact tableaux -/

/-- A tableau without zero coefficients, where no restricted symbol hangs on a variable. -/
structure Regular (s : Solver Rat) : Prop extends s.Tidy where
  clean : s.AllRows Row.Clean
  bound : ∀ x r, s.rows.get? x = some r → x.isExternal = false →
    r.Within fun y => y.isExternal = false

/-- Only the rows, the objectives and the number of symbols made matter. -/
theorem Regular.of_eq {s s' : Solver Rat} (h : s.Regular) (hr : s'.rows = s.rows)
    (ho : s'.objective = s.objective) (ha : s'.artificial = s.artificial)
    (ht : s.tick ≤ s'.tick) : s'.Regular where
  toTidy := h.toTidy.of_eq hr ho ha ht
  clean := ⟨fun x r hx => h.clean.rows x r (hr ▸ hx), ho ▸ h.clean.objective,
    fun r hra => h.clean.artificial r (ha ▸ hra)⟩
  bound x r hx := h.bound x r (hr ▸ hx)

theorem Regular.dropRow (h : s.Regular) (x : Symbol) : (s.dropRow x).Regular where
  toTidy := h.toTidy.dropRow x
  clean := h.clean.dropRow x
  bound y r hy := by
    rw [rows_dropRow] at hy
    split at hy
    · simp at hy
    · exact h.bound y r hy

theorem Regular.putRow {row : Row Rat} (h : s.Regular) (ha : s.Absent x) (hx : x.id ≤ s.tick)
    (hr : row.Within fun y => y ≠ x ∧ s.Free y ∧ y.id ≤ s.tick) (hc : row.Clean)
    (hb : x.isExternal = false → row.Within fun y => y.isExternal = false) :
    (s.putRow x row).Regular where
  toTidy := h.toTidy.putRow ha hx hr
  clean := h.clean.putRow hc
  bound y r hy := by
    rw [rows_putRow] at hy
    split at hy
    · subst y
      exact Option.some.inj hy ▸ hb
    · exact h.bound y r hy

/-- The definition put in the place of a symbol may name variables only if no restricted row
has the symbol. -/
theorem Regular.substitute {definition : Row Rat} (h : s.Regular)
    (hd : definition.Within fun y => s.Free y ∧ y.id ≤ s.tick)
    (hb : ∀ y r, s.rows.get? y = some r → y.isExternal = false → r.Uses x →
      definition.Within fun z => z.isExternal = false) :
    (s.substitute x definition).Regular where
  toTidy := h.toTidy.substitute hd
  clean := h.clean.substitute fun r hr => hr.substitute x definition
  bound y r hy hye := by
    rw [rows_substitute] at hy
    obtain ⟨r', hr', rfl⟩ := Option.map_eq_some_iff.1 hy
    exact Row.Within.substitute (fun z hz _ => h.bound y r' hr' hye z hz)
      fun hu => hb y r' hr' hye hu

theorem Regular.install {definition : Row Rat} (h : s.Regular) (hx : x.id ≤ s.tick)
    (hd : definition.Within fun y => y ≠ x ∧ s.Free y ∧ y.id ≤ s.tick) (hc : definition.Clean)
    (hb : x.isExternal = false → definition.Within fun y => y.isExternal = false) :
    (s.install x definition).Regular := by
  refine (h.substitute (hd.mono fun y hy => hy.2) ?_).putRow (absent_substitute ?_) hx ?_ hc hb
  · exact fun y r hy hye hu => hb (h.bound y r hy hye x hu)
  · exact fun hu => (hd x hu).1 rfl
  · exact hd.mono fun y hy => ⟨hy.1, (free_substitute s x y definition).2 hy.2.1, hy.2.2⟩

theorem Regular.pivot {leaving entering : Symbol} {row : Row Rat} (h : s.Regular)
    (hl : s.rows.get? leaving = some row) (hle : leaving.isExternal = false)
    (he : row.Uses entering) : (s.pivot leaving row entering).Regular := by
  refine (h.dropRow leaving).install (h.known.rows _ _ hl _ he) (h.within_exchange hl entering)
    ((h.clean.rows _ _ hl).exchange _ _) fun _ => ?_
  exact ((h.bound _ _ hl hle).exchange hle).mono fun y hy => hy.2

end Solver

end RegionLayout
