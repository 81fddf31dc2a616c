-- Taking a constraint out. Its errors are no longer charged for, and its marker is given up
-- with one row: its own where it has one, else one that the ratio test picks. The solutions
-- left are those of the tableau with the marker at any value, so the other constraints still
-- balance.
import RegionLayout.Proofs.Solver.Adding

namespace RegionLayout

open Solver

namespace Solver

variable {s s' t : Solver Rat} {T : ConstraintId → Rat} {row r : Row Rat} {tag : Tag}
  {c : Constraint Rat} {m x y : Symbol} {id : ConstraintId} {w : Rat} {σ : Symbol → Rat}

/-! ## What errors cost -/

/-- Takes what one error costs out of the objective. -/
def waive {R : Type} [Scalar R] (w : R) (s : Solver R) (x : Symbol) : Solver R :=
  match s.rows.get? x with
  | some row => { s with objective := s.objective.insertRow row (-w) }
  | none => s.charge x (-w)

theorem discharge_eq {R : Type} [Scalar R] (s : Solver R) (w : R) (tag : Tag) :
    s.discharge w tag = tag.errors.foldl (waive w) s := by
  have hdrop : ∀ (s : Solver R) (x : Symbol),
      ([x].filter fun y => y.kind == .error).foldl (waive w) s =
        if x.kind == .error then waive w s x else s := by
    intro s x
    by_cases hx : x.kind == .error <;> simp [hx]
  unfold Tag.errors Tag.symbols
  rw [← List.singleton_append, List.filter_append, List.foldl_append, hdrop]
  unfold discharge
  cases tag.other with
  | none => rfl
  | some o =>
    rw [Option.toList_some, hdrop]
    rfl

/-- The objective without what some errors cost. -/
structure Waived (w : Rat) (s : Solver Rat) (xs : List Symbol) (s' : Solver Rat) : Prop where
  frame : s' = { s with objective := s'.objective }
  suits : s.Suits s.tick s'.objective
  eval : ∀ σ, s.Solves σ → s'.objective.eval σ = s.objective.eval σ - w * (xs.map σ).sum

theorem waived_waive (hs : s.Regular) (hx : x.id ≤ s.tick) :
    Waived w s [x] (s.waive w x) := by
  unfold waive
  have ho := hs.suits_objective
  split
  · rename_i row hr
    refine ⟨rfl, ⟨ho.within.insertRow _ (hs.suits_row hr).within, ho.clean.insertRow _ _⟩,
      fun σ hσ => ?_⟩
    simp only [Row.eval_insertRow, List.map_cons, List.map_nil, List.sum_cons, List.sum_nil,
      hσ x row hr]
    ring
  · rename_i hr
    refine ⟨rfl, ho.insertSymbol hr hx _, fun σ _ => ?_⟩
    simp only [charge, Row.eval_insertSymbol, List.map_cons, List.map_nil, List.sum_cons,
      List.sum_nil]
    ring

theorem waived_waives (hs : s.Steady) {xs : List Symbol} (hx : ∀ x ∈ xs, x.id ≤ s.tick) :
    Waived w s xs (xs.foldl (waive w) s) := by
  induction xs generalizing s with
  | nil => exact ⟨rfl, hs.suits_objective, by simp⟩
  | cons x xs ih =>
    have h := waived_waive (w := w) hs.toRegular (hx x List.mem_cons_self)
    have hrows : (s.waive w x).rows = s.rows := by rw [h.frame]
    have htick : (s.waive w x).tick = s.tick := by rw [h.frame]
    have hart : (s.waive w x).artificial = s.artificial := by rw [h.frame]
    have hs' : (s.waive w x).Steady := by
      refine hs.of_rows hrows (by rw [h.frame]) htick.ge (htick ▸ h.suits) fun r hr => ?_
      rw [htick]
      exact hs.suits_artificial (hart ▸ hr)
    have h' := ih hs' fun y hy => by
      rw [htick]
      exact hx y (List.mem_cons_of_mem _ hy)
    rw [List.foldl_cons]
    refine ⟨by rw [h'.frame, h.frame], ?_, fun σ hσ => ?_⟩
    · have := h'.suits.of_rows hrows.symm
      rwa [htick] at this
    · have hσ' : (s.waive w x).Solves σ := by
        unfold Solves
        rw [hrows]
        exact hσ
      rw [h'.eval σ hσ', h.eval σ hσ]
      simp only [List.map_cons, List.map_nil, List.sum_cons, List.sum_nil]
      ring

/-! ## The row that leaves -/

/-- The rows that have the marker: their symbols, constants and coefficients. -/
def markerUses (s : Solver Rat) (m : Symbol) : List (Symbol × Rat × Rat) :=
  s.rows.entries.filterMap fun (x, row) =>
    let c := row.coefficient m
    if c == 0 then none else some (x, row.constant, c)

theorem mem_markerUses {u : Symbol × Rat × Rat} : u ∈ s.markerUses m ↔
    ∃ r, s.rows.get? u.1 = some r ∧ r.coefficient m ≠ 0 ∧ u.2 = (r.constant, r.coefficient m) := by
  obtain ⟨z, k, a⟩ := u
  rw [markerUses, List.mem_filterMap]
  constructor
  · rintro ⟨⟨z', r⟩, he, hu⟩
    simp only [beq_iff_eq] at hu
    split at hu
    · simp at hu
    · obtain ⟨rfl, rfl, rfl⟩ : z' = z ∧ r.constant = k ∧ r.coefficient m = a := by simpa using hu
      exact ⟨r, (SortedMap.get?_eq_some_iff _).2 he, ‹_›, rfl⟩
  · rintro ⟨r, hr, hc, hu⟩
    obtain ⟨rfl, rfl⟩ : k = r.constant ∧ a = r.coefficient m := by simpa using hu
    exact ⟨(z, r), (SortedMap.get?_eq_some_iff _).1 hr, by simp [hc]⟩

theorem mem_markerUses_restricted {u : Symbol × Rat × Rat} :
    u ∈ (s.markerUses m).filter (fun u => !u.1.isExternal) ↔
      ∃ r, s.rows.get? u.1 = some r ∧ u.1.isExternal = false ∧ r.coefficient m ≠ 0 ∧
        u.2 = (r.constant, r.coefficient m) := by
  rw [List.mem_filter, mem_markerUses, Bool.not_eq_true']
  constructor
  · rintro ⟨⟨r, hr, hc, hu⟩, hx⟩
    exact ⟨r, hr, hx, hc, hu⟩
  · rintro ⟨r, hr, hx, hc, hu⟩
    exact ⟨⟨r, hr, hc, hu⟩, hx⟩

/-- The restricted rows that fall when the marker grows, by the room they have. -/
def falling (s : Solver Rat) (m : Symbol) : List (Symbol × Rat) :=
  ((s.markerUses m).filter fun u => !u.1.isExternal).filterMap fun (x, k, c) =>
    if c < 0 then some (x, -k / c) else none

/-- The restricted rows that rise when the marker grows, by the room they have the other
way. -/
def rising (s : Solver Rat) (m : Symbol) : List (Symbol × Rat) :=
  ((s.markerUses m).filter fun u => !u.1.isExternal).filterMap fun (x, k, c) =>
    if c < 0 then none else some (x, k / c)

theorem mem_falling {q : Rat} : (x, q) ∈ s.falling m ↔ ∃ r, s.rows.get? x = some r ∧
    x.isExternal = false ∧ r.coefficient m < 0 ∧ q = room m r := by
  rw [falling, List.mem_filterMap]
  constructor
  · rintro ⟨⟨z, k, a⟩, hu, hp⟩
    obtain ⟨r, hr, hz, -, he⟩ := mem_markerUses_restricted.1 hu
    obtain ⟨rfl, rfl⟩ := Prod.mk.inj he
    dsimp only at hp
    split at hp
    · obtain ⟨rfl, rfl⟩ := Prod.mk.inj (Option.some.inj hp)
      exact ⟨r, hr, hz, ‹_›, rfl⟩
    · cases hp
  · rintro ⟨r, hr, hz, hc, rfl⟩
    exact ⟨(x, r.constant, r.coefficient m),
      mem_markerUses_restricted.2 ⟨r, hr, hz, hc.ne, rfl⟩, if_pos hc⟩

theorem mem_rising {q : Rat} : (x, q) ∈ s.rising m ↔ ∃ r, s.rows.get? x = some r ∧
    x.isExternal = false ∧ 0 < r.coefficient m ∧ q = -room m r := by
  rw [rising, List.mem_filterMap]
  constructor
  · rintro ⟨⟨z, k, a⟩, hu, hp⟩
    obtain ⟨r, hr, hz, hc, he⟩ := mem_markerUses_restricted.1 hu
    obtain ⟨rfl, rfl⟩ := Prod.mk.inj he
    dsimp only at hp
    split at hp
    · cases hp
    · rename_i hneg
      obtain ⟨rfl, rfl⟩ := Prod.mk.inj (Option.some.inj hp)
      refine ⟨r, hr, hz, lt_of_le_of_ne (not_lt.1 hneg) (Ne.symm hc), ?_⟩
      rw [room, neg_div, neg_neg]
  · rintro ⟨r, hr, hz, hc, rfl⟩
    refine ⟨(x, r.constant, r.coefficient m),
      mem_markerUses_restricted.2 ⟨r, hr, hz, hc.ne', rfl⟩, ?_⟩
    rw [room, neg_div, neg_neg]
    exact if_neg (not_lt.2 hc.le)

theorem markerLeaving?_eq (s : Solver Rat) (m : Symbol) : s.markerLeaving? m =
    (leastRatio (s.falling m)).or ((leastRatio (s.rising m)).or
      (((s.markerUses m).filter fun u => u.1.isExternal).getLast?.map (·.1))) := rfl

/-- The row that a marker leaves by: a restricted one if one has it, and then one that keeps
the other restricted symbols from going below zero. -/
inductive Leaves (s : Solver Rat) (m : Symbol) (x : Symbol) (row : Row Rat) : Prop
  | falling (hx : x.isExternal = false) (hc : row.coefficient m < 0)
      (hmin : ∀ y r, s.rows.get? y = some r → y.isExternal = false → r.coefficient m < 0 →
        room m row ≤ room m r)
  | rising (hx : x.isExternal = false) (hc : 0 < row.coefficient m)
      (hmin : ∀ y r, s.rows.get? y = some r → y.isExternal = false →
        0 ≤ r.coefficient m ∧ (0 < r.coefficient m → room m r ≤ room m row))
  | external (hx : x.isExternal = true) (hc : row.coefficient m ≠ 0)
      (hmin : ∀ y r, s.rows.get? y = some r → y.isExternal = false → r.coefficient m = 0)

theorem markerLeaving?_eq_some (h : s.markerLeaving? m = some x) :
    ∃ row, s.rows.get? x = some row ∧ Leaves s m x row := by
  rw [markerLeaving?_eq, Option.or_eq_some_iff] at h
  rcases h with h | ⟨hfall, h⟩
  · obtain ⟨q, hq, hmin⟩ := leastRatio_le h
    obtain ⟨row, hrow, hx, hc, hroom⟩ := mem_falling.1 hq
    refine ⟨row, hrow, .falling hx hc fun y r hy hye hyc => ?_⟩
    rw [← hroom]
    exact hmin (y, room m r) (mem_falling.2 ⟨r, hy, hye, hyc, rfl⟩)
  · have hnofall : ∀ y r, s.rows.get? y = some r → y.isExternal = false →
        0 ≤ r.coefficient m := by
      intro y r hy hye
      by_contra hc
      have : (y, room m r) ∈ s.falling m := mem_falling.2 ⟨r, hy, hye, not_le.1 hc, rfl⟩
      rw [leastRatio_eq_none_iff.1 hfall] at this
      simp at this
    rw [Option.or_eq_some_iff] at h
    rcases h with h | ⟨hrise, h⟩
    · obtain ⟨q, hq, hmin⟩ := leastRatio_le h
      obtain ⟨row, hrow, hx, hc, hroom⟩ := mem_rising.1 hq
      refine ⟨row, hrow, .rising hx hc fun y r hy hye => ⟨hnofall y r hy hye, fun hyc => ?_⟩⟩
      have := hmin (y, -room m r) (mem_rising.2 ⟨r, hy, hye, hyc, rfl⟩)
      linarith
    · obtain ⟨u, hu, rfl⟩ := Option.map_eq_some_iff.1 h
      obtain ⟨hu, hx⟩ := List.mem_filter.1 (List.mem_of_getLast? hu)
      obtain ⟨row, hrow, hc, -⟩ := mem_markerUses.1 hu
      refine ⟨row, hrow, .external hx hc fun y r hy hye => ?_⟩
      by_contra hne
      have : (y, -room m r) ∈ s.rising m := mem_rising.2
        ⟨r, hy, hye, lt_of_le_of_ne (hnofall y r hy hye) (Ne.symm hne), rfl⟩
      rw [leastRatio_eq_none_iff.1 hrise] at this
      simp at this

theorem markerLeaving?_eq_none (h : s.markerLeaving? m = none) (hy : s.rows.get? y = some r) :
    r.coefficient m = 0 := by
  rw [markerLeaving?_eq] at h
  simp only [Option.or_eq_none_iff, Option.map_eq_none_iff] at h
  obtain ⟨hfall, hrise, hext⟩ := h
  by_contra hc
  cases hye : y.isExternal with
  | true =>
    have : (y, r.constant, r.coefficient m) ∈ (s.markerUses m).filter fun u => u.1.isExternal :=
      List.mem_filter.2 ⟨mem_markerUses.2 ⟨r, hy, hc, rfl⟩, hye⟩
    rw [List.getLast?_eq_none_iff.1 hext] at this
    simp at this
  | false =>
    rcases lt_or_gt_of_ne hc with hneg | hpos
    · have : (y, room m r) ∈ s.falling m := mem_falling.2 ⟨r, hy, hye, hneg, rfl⟩
      rw [leastRatio_eq_none_iff.1 hfall] at this
      simp at this
    · have : (y, -room m r) ∈ s.rising m := mem_rising.2 ⟨r, hy, hye, hpos, rfl⟩
      rw [leastRatio_eq_none_iff.1 hrise] at this
      simp at this

/-! ## Giving up a marker -/

/-- The tableau has the solutions of another with the marker left out. -/
structure Freed (s : Solver Rat) (m : Symbol) (t : Solver Rat) : Prop where
  steady : t.Steady
  frame : t = { s with
    rows := t.rows, infeasible := t.infeasible, objective := t.objective,
    artificial := t.artificial }
  search : t.artificial = none
  solves : ∀ σ, t.Solves σ ↔ ∃ v, s.Solves (Function.update σ m v)
  objective : ∀ σ v, s.Solves (Function.update σ m v) →
    t.objective.eval σ = s.objective.eval (Function.update σ m v)
  idle : s.DummiesIdle →
    (∀ y r, s.rows.get? y = some r → y.isDummy = true → ¬ r.Uses m) → t.DummiesIdle

theorem freed_dropRow (hs : s.Steady) (ha : s.artificial = none)
    (hm : s.rows.get? m = some row) : Freed s m (s.dropRow m) where
  steady := hs.dropRow m
  frame := rfl
  search := ha
  solves σ := by
    rw [hs.solves_dropRow_iff hm]
    constructor
    · exact fun h => ⟨_, h⟩
    · rintro ⟨v, hv⟩
      have := hv m row hm
      rw [Function.update_self,
        Row.eval_update_of_not_uses σ ((hs.absent_of_basic hm).rows _ _ hm)] at this
      rwa [← this]
  objective σ v _ := (Row.eval_update_of_not_uses σ (hs.absent_of_basic hm).objective v).symm
  idle h _ := h.dropRow m

/-- The marker in the place of the row that leaves keeps restricted symbols from going below
zero. -/
theorem Leaves.nonneg (h : Leaves s m x row) (hs : s.Steady) (hx : s.rows.get? x = some row)
    (hy : s.rows.get? y = some r) (hye : y.isExternal = false) :
    0 ≤ r.constant + r.coefficient m * room m row := by
  have hr := hs.feasible y r hy hye
  cases h with
  | falling hxe hc hmin =>
    have hroom : 0 ≤ room m row :=
      div_nonneg_of_nonpos (by linarith [hs.feasible x row hx hxe]) hc.le
    exact add_mul_nonneg_of_le_room hr hroom (hmin y r hy hye)
  | rising hxe hc hmin =>
    have hroom : 0 ≤ -room m row := by
      rw [room, neg_div, neg_neg]
      exact div_nonneg (hs.feasible x row hx hxe) hc.le
    have hle : -r.coefficient m < 0 → -room m row ≤ -r.constant / -r.coefficient m := by
      intro hneg
      have := (hmin y r hy hye).2 (by linarith)
      rw [neg_div_neg_eq]
      rw [room, neg_div] at this
      linarith
    have := add_mul_nonneg_of_le_room hr hroom hle
    rwa [neg_mul_neg] at this
  | external hxe hc hmin =>
    rw [hmin y r hy hye, zero_mul, add_zero]
    exact hr

theorem Leaves.coefficient_ne (h : Leaves s m x row) : row.coefficient m ≠ 0 := by
  cases h with
  | falling _ hc _ => exact hc.ne
  | rising _ hc _ => exact hc.ne'
  | external _ hc _ => exact hc

theorem of_rows_substitute_dropRow {e r : Row Rat} {y : Symbol}
    (hy : ((s.dropRow x).substitute m e).rows.get? y = some r) :
    ∃ r', y ≠ x ∧ s.rows.get? y = some r' ∧ r = r'.substitute m e := by
  rw [rows_substitute, rows_dropRow] at hy
  split at hy
  · cases hy
  · obtain ⟨r', hr', rfl⟩ := Option.map_eq_some_iff.1 hy
    exact ⟨r', ‹_›, hr', rfl⟩

/-- The row that leaves gives the marker its value, and the rest of the tableau keeps the other
symbols. -/
theorem Tidy.solves_update_exchange (hs : s.Tidy) (hm : s.Free m) (hx : s.rows.get? x = some row)
    (hc : row.coefficient m ≠ 0) (v : Rat) : s.Solves (Function.update σ m v) ↔
      ((s.dropRow x).substitute m (row.exchange x m)).Solves σ ∧
        v = (row.exchange x m).eval σ := by
  have hne := hs.ne_of_uses hx (Row.uses_of_coefficient_ne hc)
  have hmd : ¬ (row.exchange x m).Uses m := fun h => (hs.within_exchange hx m m h).1 rfl
  have hfree : ((s.dropRow x).substitute m (row.exchange x m)).Free m := by
    rw [free_substitute, Free, rows_dropRow, if_neg hne]
    exact hm
  have hval := Row.eq_eval_exchange_iff (Function.update σ m v) hc hne
  rw [Function.update_self, Row.eval_update_of_not_uses σ hmd] at hval
  rw [solves_dropRow hx, ← hval, ← solves_update hfree (absent_substitute hmd).rows σ v]
  refine and_congr_left fun hv => (solves_substitute ?_).symm
  rw [Function.update_self, Row.eval_update_of_not_uses σ hmd]
  exact hv

theorem freed_substitute (hs : s.Steady) (ha : s.artificial = none) (hm : s.Free m)
    (hx : s.rows.get? x = some row) (hl : Leaves s m x row) :
    Freed s m ((s.dropRow x).substitute m (row.exchange x m)) := by
  have hc := hl.coefficient_ne
  have hu := Row.uses_of_coefficient_ne hc
  have hne := hs.ne_of_uses hx hu
  have hw := hs.within_exchange hx m
  have hmd : ¬ (row.exchange x m).Uses m := fun h => (hw m h).1 rfl
  set t := (s.dropRow x).substitute m (row.exchange x m) with ht
  have habs : t.Absent m := absent_substitute hmd
  have hreg : t.Regular := by
    refine (hs.toRegular.dropRow x).substitute (hw.mono fun y hy => hy.2) fun y r hy hye hyu => ?_
    rw [rows_dropRow] at hy
    split at hy
    · simp at hy
    · have hxe : x.isExternal = false := by
        cases hl with
        | falling hxe _ _ => exact hxe
        | rising hxe _ _ => exact hxe
        | external _ _ hmin =>
          exact absurd (hmin y r hy hye) ((hs.clean.rows y r hy).coefficient_ne hyu)
      exact ((hs.bound x row hx hxe).exchange hxe).mono fun z hz => hz.2
  have hfeas : t.Feasible := by
    intro y r hy hye
    obtain ⟨r', -, hr', rfl⟩ := of_rows_substitute_dropRow hy
    rw [Row.constant_substitute, Row.constant_exchange hc hne]
    exact hl.nonneg hs hx hr' hye
  have hsol (σ : Symbol → Rat) (v : Rat) := hs.solves_update_exchange (σ := σ) hm hx hc v
  refine ⟨⟨hreg, hfeas, ?_⟩, rfl, ?_, fun σ => ?_, fun σ v hσ => ?_, fun hd hno y r hy hyd => ?_⟩
  · exact (infeasible_substitute_of_nonneg hfeas).trans hs.noted
  · change s.artificial.map _ = _
    rw [ha]
    rfl
  · constructor
    · exact fun h => ⟨_, (hsol σ _).2 ⟨h, rfl⟩⟩
    · rintro ⟨v, hv⟩
      exact ((hsol σ v).1 hv).1
  · have hv : Function.update σ m v m = (row.exchange x m).eval (Function.update σ m v) := by
      rw [Function.update_self, Row.eval_update_of_not_uses σ hmd]
      exact ((hsol σ v).1 hσ).2
    rw [← Row.eval_update_of_not_uses σ habs.objective v]
    exact Row.eval_substitute_of_eq _ hv s.objective
  · obtain ⟨r', -, hr', rfl⟩ := of_rows_substitute_dropRow hy
    rw [Row.substitute_of_not_uses _ (hno y r' hr' hyd)]
    exact hd y r' hr' hyd

/-! ## A constraint out of the books -/

theorem Booked.erase (h : s.Booked) (hc : s'.constraints = s.constraints.erase id)
    (hs : s'.symbols = s.symbols) (ht : s'.tick = s.tick) : s'.Booked := by
  have sub : ∀ {id' : ConstraintId} {p : Tag × Constraint Rat},
      s'.constraints.get? id' = some p → s.constraints.get? id' = some p := by
    intro id' p hi
    rw [hc, SortedMap.get?_erase] at hi
    split at hi
    · simp at hi
    · exact hi
  exact ⟨⟨fun hv => h.external (hs ▸ hv), fun hv => ht ▸ h.before (hs ▸ hv),
    fun hv hw => h.own (hs ▸ hv) (hs ▸ hw)⟩, fun hi => h.ids (sub hi), fun hi => h.fits (sub hi),
    fun hi => h.weight (sub hi), fun hi hn => by rw [hs]; exact h.names (sub hi) hn,
    fun hi hy => ht ▸ h.made (sub hi) hy, fun hi hi' => h.owner (sub hi) (sub hi')⟩

/-- A marker has no say in what the variables read. -/
theorem Booked.read_update (h : s.Booked) (hc : s.constraints.get? id = some (tag, c))
    (hy : y ∈ tag.symbols) (σ : Symbol → Rat) (v : Rat) :
    s.read (Function.update σ y v) = s.read σ := by
  apply read_congr
  intro w z hz
  refine Function.update_of_ne ?_ v σ
  rintro rfl
  have := h.external hz
  rw [(h.fits hc).not_external hy] at this
  simp at this

/-- The other constraints balance where some value of the marker balances them all. -/
theorem Booked.balanced_erase (h : s.Booked) (hc : s.constraints.get? id = some (tag, c))
    (he : s'.constraints = s.constraints.erase id) (hs : s'.symbols = s.symbols)
    (σ : Symbol → Rat) :
    (∃ v, s.Balanced T (Function.update σ tag.marker v)) ↔ s'.Balanced T σ := by
  have hread := h.read_update hc tag.marker_mem σ
  have others : ∀ v id' tag' c', id' ≠ id → s.constraints.get? id' = some (tag', c') →
      (s.Balances T (Function.update σ tag.marker v) id' tag' c' ↔
        s'.Balances T σ id' tag' c') := by
    intro v id' tag' c' hne hi
    rw [Balances, Balances, hread, read_of_eq hs, Tag.gap_congr fun y hy => ?_]
    refine Function.update_of_ne ?_ v σ
    rintro rfl
    exact hne (h.owner hi hc hy tag.marker_mem)
  constructor
  · rintro ⟨v, hv⟩ id' tag' c' hi
    rw [he, SortedMap.get?_erase] at hi
    split at hi
    · simp at hi
    · exact (others v id' tag' c' ‹_› hi).1 (hv id' tag' c' hi)
  · intro hb
    have hsign := c.sign_mul_sign
    refine ⟨σ tag.marker - c.sign * (c.expression.eval (s.read σ) - T id + tag.gap c σ),
      fun id' tag' c' hi => ?_⟩
    by_cases hne : id' = id
    · subst hne
      obtain ⟨rfl, rfl⟩ := Prod.mk.inj (Option.some.inj (hc.symm.trans hi))
      rw [Balances, hread, Tag.gap_update (h.fits hc)]
      linear_combination
        (-(c.expression.eval (s.read σ) - T id' + tag.gap c σ)) * hsign
    · refine (others _ id' tag' c' hne hi).2 (hb id' tag' c' ?_)
      rw [he, SortedMap.get?_erase, if_neg hne, hi]

theorem cost_prices_erase (hc : s.constraints.get? id = some (tag, c))
    (he : s'.constraints = s.constraints.erase id) (σ : Symbol → Rat) :
    cost s'.prices σ = cost s.prices σ - c.weight * tag.strain σ := by
  have h := SortedMap.sum_alter
    (fun (_ : ConstraintId) (e : Tag × Constraint Rat) => e.2.weight * e.1.strain σ)
    s.constraints id fun _ => none
  rw [cost_prices, cost_prices, he, SortedMap.erase, h, hc]
  simp only [Option.elim_none, Option.elim_some]
  ring

/-! ## Removing -/

/-- Without the errors and the marker of a constraint the tableau is sound for the others. -/
theorem Sound.free (h : s.Sound T) (hc : s.constraints.get? id = some (tag, c))
    (hw : Waived c.weight { s with constraints := s.constraints.erase id } tag.errors s')
    (hf : Freed s' tag.marker t) : t.Sound T := by
  have he : t.constraints = s.constraints.erase id := by rw [hf.frame, hw.frame]
  have hs : t.symbols = s.symbols := by rw [hf.frame, hw.frame]
  have ht : t.tick = s.tick := by rw [hf.frame, hw.frame]
  have hsol : ∀ σ, s'.Solves σ ↔ s.Solves σ := fun σ => by
    have hrows : s'.rows = s.rows := by rw [hw.frame]
    unfold Solves
    rw [hrows]
  refine ⟨hf.steady, h.toBooked.erase he hs ht, hf.search, fun σ => ?_, ?_⟩
  · rw [hf.solves, ← h.toBooked.balanced_erase hc he hs]
    simp only [hsol, h.solves]
  · obtain ⟨k, hk⟩ := h.measures
    refine ⟨k, fun σ hσ => ?_⟩
    obtain ⟨v, hv⟩ := (hf.solves σ).1 hσ
    have hv' := (hsol _).1 hv
    have hcost : cost t.prices (Function.update σ tag.marker v) = cost t.prices σ := by
      refine cost_congr fun p hp => Function.update_of_ne ?_ v σ
      obtain ⟨⟨id', tag', c'⟩, hi, hp⟩ := List.mem_flatMap.1 hp
      obtain ⟨y, hy, rfl⟩ := List.mem_map.1 hp
      have hi := (SortedMap.get?_eq_some_iff _).2 hi
      rw [he, SortedMap.get?_erase] at hi
      split at hi
      · simp at hi
      · rintro rfl
        exact ‹id' ≠ id› (h.owner hi hc (List.mem_of_mem_filter hy) tag.marker_mem)
    rw [hf.objective σ v hv, hw.eval _ hv', ← hcost, cost_prices_erase hc he]
    change s.objective.eval _ - c.weight * tag.strain _ = _
    rw [hk _ hv']
    ring

/-- A marker stands in the tableau: else its value would be free, and it is not. -/
theorem Sound.exists_uses (h : s.Sound T) (hc : s.constraints.get? id = some (tag, c))
    (hm : s.Free tag.marker) : ∃ y r, s.rows.get? y = some r ∧ r.coefficient tag.marker ≠ 0 := by
  by_contra hno
  push Not at hno
  have hout : ∀ y r, s.rows.get? y = some r → ¬ r.Uses tag.marker := fun y r hy hu =>
    (h.clean.rows y r hy).coefficient_ne hu (hno y r hy)
  have h0 := (h.solves _).1 h.solves_vertex id tag c hc
  have h1 := (h.solves _).1 ((solves_update hm hout s.vertex (s.vertex tag.marker + 1)).2
    h.solves_vertex) id tag c hc
  rw [Balances] at h0
  rw [Balances, h.read_update hc tag.marker_mem, Tag.gap_update (h.fits hc)] at h1
  rcases c.sign_cases with hk | hk <;> rw [hk] at h1 <;> linarith

/-- What the removal of a constraint comes to. -/
inductive Removed (s : Solver Rat) (T : ConstraintId → Rat) (id : ConstraintId) :
    Answer Rat Unit → Prop
  | unknown (hc : s.constraints.get? id = none) : Removed s T id (.error .unknownConstraint, s)
  | taken {s' : Solver Rat} (tag : Tag) (c : Constraint Rat)
      (hc : s.constraints.get? id = some (tag, c))
      (he : s'.constraints = s.constraints.erase id) (hs : s'.Sound T)
      (ho : Optimal s'.objective)
      (hd : s.DummiesIdle → (∀ y r, s.rows.get? y = some r → y.isDummy = true →
        ¬ r.Uses tag.marker) → s'.DummiesIdle)
      (hk : Carried 0 s s') : Removed s T id (.ok (), s')
  | exhausted (s' : Solver Rat) (hlim : s.limit < turnBound s.tick) :
      Removed s T id (.error .pivotLimit, s')

theorem Sound.removed_optimize (h : s.Sound T) (hc : s.constraints.get? id = some (tag, c))
    (hw : Waived c.weight { s with constraints := s.constraints.erase id } tag.errors s')
    (hf : Freed s' tag.marker t) : Removed s T id (t.optimize .primary) := by
  have hlim : t.limit = s.limit := by rw [hf.frame, hw.frame]
  have htick : t.tick = s.tick := by rw [hf.frame, hw.frame]
  have hrows : s'.rows = s.rows := by rw [hw.frame]
  obtain ⟨u, hp, hu, hd, ⟨hrun, ho⟩ | ⟨hrun, hbound⟩⟩ := (h.free hc hw hf).optimize
  · rw [hrun]
    refine .taken tag c hc (by rw [hp.frame, hf.frame, hw.frame]) hu ho (fun hi hno => ?_) ?_
    · refine hd (hf.idle ?_ ?_)
      · unfold DummiesIdle
        rw [hrows]
        exact hi
      · rw [hrows]
        exact hno
    · refine ⟨?_, ?_, ?_, ?_⟩ <;> rw [hp.frame, hf.frame, hw.frame]
      exact le_rfl
  · rw [hrun]
    rw [hlim, htick] at hbound
    exact .exhausted u hbound

/-- Without what its errors cost, a constraint leaves the books and the tableau is steady. -/
theorem Sound.discharged (h : s.Sound T) (hc : s.constraints.get? id = some (tag, c))
    (hs : s' = discharge { s with constraints := s.constraints.erase id } c.weight tag) :
    Waived c.weight { s with constraints := s.constraints.erase id } tag.errors s' ∧
      s'.Steady ∧ s'.artificial = none := by
  have hsteady : Steady { s with constraints := s.constraints.erase id } :=
    h.toSteady.of_eq rfl rfl rfl rfl le_rfl
  have hw : Waived c.weight { s with constraints := s.constraints.erase id } tag.errors s' := by
    rw [hs, discharge_eq]
    exact waived_waives hsteady fun y hy => h.made hc (List.mem_of_mem_filter hy)
  have hart : s'.artificial = none := by
    rw [hw.frame]
    exact h.search
  refine ⟨hw, ?_, hart⟩
  have htick : s'.tick = s.tick := by rw [hw.frame]
  refine hsteady.of_rows (by rw [hw.frame]) (by rw [hw.frame]) htick.ge (htick ▸ hw.suits)
    fun r hr => ?_
  rw [hart] at hr
  simp at hr

theorem Sound.remove (h : s.Sound T) (id : ConstraintId) : Removed s T id (s.remove id) := by
  unfold Solver.remove
  split
  · exact .unknown ‹_›
  · rename_i tag c hc
    obtain ⟨s', hs'⟩ : ∃ s', s' =
        discharge { s with constraints := s.constraints.erase id } c.weight tag := ⟨_, rfl⟩
    obtain ⟨hw, hst, hart⟩ := h.discharged hc hs'
    have hrows : s'.rows = s.rows := by rw [hw.frame]
    dsimp only
    rw [← hs']
    split
    · rename_i row hm
      exact h.removed_optimize hc hw (freed_dropRow hst hart hm)
    · rename_i hm
      split
      · rename_i hnone
        exfalso
        obtain ⟨y, r, hy, hne⟩ := h.exists_uses hc (by rw [Free, ← hrows]; exact hm)
        cases hl : s'.markerLeaving? tag.marker with
        | none => exact hne (markerLeaving?_eq_none hl (by rw [hrows]; exact hy))
        | some x =>
          obtain ⟨row, hx, -⟩ := markerLeaving?_eq_some hl
          rw [hl, Option.bind_some, hx] at hnone
          simp at hnone
      · rename_i x row hsome
        obtain ⟨y, hy, hyx⟩ := Option.bind_eq_some_iff.1 hsome
        obtain ⟨row', hrow', hp⟩ := Option.map_eq_some_iff.1 hyx
        obtain ⟨rfl, rfl⟩ := Prod.mk.inj hp
        obtain ⟨row, hrow, hl⟩ := markerLeaving?_eq_some hy
        obtain rfl := Option.some.inj (hrow.symm.trans hrow')
        exact h.removed_optimize hc hw (freed_substitute hst hart hm hrow hl)

end Solver

end RegionLayout
