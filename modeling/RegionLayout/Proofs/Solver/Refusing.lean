-- Refusals. A required constraint that cannot be satisfied is not taken, but the search for a
-- place for its row has moved the tableau as near to it as the required constraints allow. So
-- the values stay what they were only if nothing nearer was to be had.
import RegionLayout.Proofs.Solver.Runs

namespace RegionLayout

open Solver

/-- Calls made one after the other, whatever they answered, as long as none was broken off. -/
inductive Trail (may : Requests → Call → Prop) : Requests → Solver Rat → Prop
  | start (limit : Nat) : Trail may {} (.empty limit)
  | granted {q : Requests} {s : Solver Rat} {call : Call} (h : Trail may q s) (ha : may q call)
      (hok : (call.perform s).1 = .ok ()) : Trail may (q.after call) (call.perform s).2
  | denied {q : Requests} {s : Solver Rat} {call : Call} (h : Trail may q s) (ha : may q call)
      {f : Fault} (hf : (call.perform s).1 = .error f) (hl : f ≠ .pivotLimit)
      (hb : ∀ b, f ≠ .breakdown b) : Trail may q (call.perform s).2

namespace Solver

variable {s s' t u : Solver Rat} {T : ConstraintId → Rat} {q : Requests} {c : Constraint Rat}
  {row : Row Rat} {tag : Tag} {x y : Symbol} {σ τ : Symbol → Rat} {k : Rat}

/-! ## Vertices of changed tableaux -/

theorem vertex_of_rows (h : s'.rows = s.rows) : s'.vertex = s.vertex := by
  funext y
  unfold vertex fill
  rw [h]

theorem vertex_putRow (s : Solver Rat) (x : Symbol) (row : Row Rat) :
    (s.putRow x row).vertex = Function.update s.vertex x row.constant := by
  funext y
  by_cases hy : y = x
  · subst hy
    rw [Function.update_self]
    apply vertex_basic
    simp
  · rw [Function.update_of_ne hy, vertex, vertex, fill, fill, rows_putRow, if_neg hy]

theorem vertex_dropRow (s : Solver Rat) (x : Symbol) :
    (s.dropRow x).vertex = Function.update s.vertex x 0 := by
  funext y
  by_cases hy : y = x
  · subst hy
    rw [Function.update_self]
    apply vertex_free
    simp [Free]
  · rw [Function.update_of_ne hy, vertex, vertex, fill, fill, rows_dropRow, if_neg hy]

/-! ## Between two solutions -/

/-- The assignment a part of the way from one to the other. -/
def between (σ τ : Symbol → Rat) (t : Rat) : Symbol → Rat := (1 - t) • σ + t • τ

theorem eval_between (r : Row Rat) (σ τ : Symbol → Rat) (t : Rat) :
    r.eval (between σ τ t) = (1 - t) * r.eval σ + t * r.eval τ := by
  simp only [Row.eval, between, Row.slope_add, Row.slope_smul]
  ring

theorem Solves.between (hσ : s.Solves σ) (hτ : s.Solves τ) (t : Rat) :
    s.Solves (Solver.between σ τ t) := by
  intro y r hy
  rw [eval_between, ← hσ y r hy, ← hτ y r hy]
  rfl

theorem Admissible.between (hσ : Admissible σ) (hτ : Admissible τ) {t : Rat} (h0 : 0 ≤ t)
    (h1 : t ≤ 1) : Admissible (Solver.between σ τ t) := by
  refine ⟨fun y hy => ?_, fun y hy => ?_⟩
  · have h1 := mul_nonneg (sub_nonneg.2 h1) (hσ.1 y hy)
    have h2 := mul_nonneg h0 (hτ.1 y hy)
    exact add_nonneg h1 h2
  · simp [Solver.between, hσ.2 y hy, hτ.2 y hy]

/-- A row that is not below zero in one admissible solution and never at zero is above zero in
all of them. -/
theorem eval_pos_of_ne (hσ : s.Solves σ ∧ Admissible σ) (hτ : s.Solves τ ∧ Admissible τ)
    (h0 : 0 ≤ row.eval σ) (hno : ¬ ∃ ρ, s.Solves ρ ∧ Admissible ρ ∧ row.eval ρ = 0) :
    0 < row.eval τ := by
  by_contra hneg
  rw [not_lt] at hneg
  have hne : row.eval τ ≠ 0 := fun h => hno ⟨τ, hτ.1, hτ.2, h⟩
  have hgap : 0 < row.eval σ - row.eval τ := by
    have := lt_of_le_of_ne hneg hne
    linarith
  refine hno ⟨between σ τ (row.eval σ / (row.eval σ - row.eval τ)), hσ.1.between hτ.1 _,
    hσ.2.between hτ.2 (div_nonneg h0 hgap.le) ?_, ?_⟩
  · rw [div_le_one hgap]
    linarith
  · rw [eval_between]
    field_simp
    ring

/-! ## A search that gives up -/

/-- A row is kept out: the tableau has its old solutions, and stands where the row is least. -/
structure Withstood (s : Solver Rat) (row : Row Rat) (t : Solver Rat) : Prop where
  narrowed : Narrowed s (fun _ => True) t
  nonneg : 0 ≤ row.eval t.vertex
  low : row.eval t.vertex ≤ row.constant
  still : row.eval t.vertex = row.constant → t.vertex = s.vertex
  dummies : ∀ y, y.isDummy = true → s.Free y → t.Free y
  least : s.DummiesIdle → ∀ σ, s.Solves σ → Admissible σ → row.eval t.vertex ≤ row.eval σ

/-- A row over dummies alone is the same in all admissible solutions. -/
theorem withstood_refl (hs : s.Steady) (ha : s.artificial = none) (hr : s.Suits s.tick row)
    (hall : row.allDummies = true) (h0 : 0 ≤ row.constant) : Withstood s row s := by
  have hv : row.eval s.vertex = row.constant := eval_vertex fun y hy => (hr.within y hy).1
  refine ⟨narrowed_refl hs ha, by rwa [hv], hv.le, fun _ => rfl, fun _ _ hf => hf, ?_⟩
  intro _ σ _ hσ
  rw [hv, ← Row.eval_zero]
  refine (Row.eval_congr fun y hy => ?_).le
  exact (hσ.2 y (Row.allDummies_eq_true_iff.1 hall y hy)).symm

/-- A search that gives up ends with the symbol for its row in the basis. -/
theorem searched_of_eq_false (hs : s.Steady) (hr : s.Suits s.tick row)
    (hin : row.Within fun y => y.isExternal = false) (h0 : 0 ≤ row.constant)
    (h : s.addArtificial row = (.ok false, t)) :
    ∃ u basic, Searched s row u ∧ u.rows.get? ⟨s.tick + 1, .slack⟩ = some basic ∧
      t = Solver.dropRow { u with artificial := none } ⟨s.tick + 1, .slack⟩ := by
  have hout := addArtificial_outcome hs hr hin h0
  rw [h] at hout
  cases hout with
  | above hu hb => exact ⟨_, _, hu, hb, rfl⟩
  | stuck hu hb => exact ⟨_, _, hu, hb, rfl⟩

theorem withstood_of_eq_false (hs : s.Steady) (hr : s.Suits s.tick row)
    (hin : row.Within fun y => y.isExternal = false) (h0 : 0 ≤ row.constant)
    (hall : row.allDummies = false) (h : s.addArtificial row = (.ok false, t)) :
    Withstood s row t := by
  set art : Symbol := ⟨s.tick + 1, .slack⟩ with hart
  have hnew : s.tick < art.id := Nat.lt_succ_self _
  have hnotin : ¬ row.Uses art := hr.not_uses_of_new hnew
  have hstart := steady_searching hs hr hin h0
  obtain ⟨hn, hno⟩ : Narrowed s (fun _ => True) t ∧ (s.DummiesIdle → row.allDummies = false →
      ¬ ∃ σ, s.Solves σ ∧ Admissible σ ∧ row.eval σ = 0) := by
    obtain ⟨t', ⟨heq, -⟩ | ⟨heq, hn, hno⟩ | ⟨heq, -⟩⟩ := addArtificial_spec hs hr hin h0
    · simp [h] at heq
    · obtain rfl := (Prod.mk.inj (h.symm.trans heq)).2
      exact ⟨hn, hno⟩
    · simp [h] at heq
  obtain ⟨u, basic, hu, hb, rfl⟩ := searched_of_eq_false hs hr hin h0 h
  obtain ⟨g, hg, -, hconst⟩ := hu.artificial hs.toTidy
  -- the value of the symbol for the row is the value of the row, before and after it is dropped
  have hvert : (Solver.dropRow { u with artificial := none } art).vertex =
      Function.update u.vertex art 0 := vertex_dropRow { u with artificial := none } art
  have hrow : row.eval (Solver.dropRow { u with artificial := none } art).vertex = g.constant := by
    have hsol := (solves_searching hs.toTidy _).1
      ((hu.pivoted.solves _).1 hu.steady.solves_vertex)
    rw [hvert, Row.eval_update_of_not_uses _ hnotin, ← hsol.2, hconst]
  obtain ⟨g', hg', hle, hstill, hdummies⟩ := hstart.optimize_falls
    (show (s.searching row).goalRow? .artificial = some row from rfl) hu.run
  obtain rfl := Option.some.inj (hg.symm.trans hg')
  refine ⟨hn, ?_, by rwa [hrow], fun heq => ?_, fun y hy hf => ?_, fun hidle σ hσ ha => ?_⟩
  · rw [hrow, hconst]
    exact hu.steady.feasible.nonneg_vertex _ rfl
  · rw [hrow] at heq
    have hbefore : (s.searching row).vertex = Function.update s.vertex art row.constant :=
      vertex_putRow { s with tick := s.tick + 1 } art row
    rw [hvert, hstill heq, hbefore, Function.update_idem]
    refine Function.update_eq_self_iff.2 ?_
    exact (vertex_free (hs.free_of_new hnew)).symm
  · have hne : y ≠ art := by
      rintro rfl
      simp [hart, Symbol.isDummy] at hy
    rw [Free, rows_dropRow, if_neg hne]
    apply hdummies y hy
    change (putRow { s with tick := s.tick + 1 } art row).Free y
    rw [Free, rows_putRow, if_neg hne]
    exact hf
  · have hvertex : Admissible s.vertex :=
      ⟨hs.feasible.nonneg_vertex, fun y hy => hidle.vertex hy⟩
    have hpos := eval_pos_of_ne ⟨hs.solves_vertex, hvertex⟩ ⟨hσ, ha⟩
      (by rwa [eval_vertex fun y hy => (hr.within y hy).1]) (hno hidle hall)
    rw [hrow, hconst]
    exact hu.vertex_le hs.toTidy hnotin hσ ha hpos.le

/-! ## The row of a refused constraint -/

theorem accept_ne_unsatisfiable (s : Solver Rat) (c : Constraint Rat) (tag : Tag) :
    (s.accept c tag).1 ≠ .error .unsatisfiable := by
  intro h
  rcases Turn.eq_of_run_eq_error h with h | ⟨b, h⟩ <;> simp at h

/-- A constraint is refused when its row has no subject and is kept out. -/
theorem Sound.withstood (h : s.Sound T) (hno : (s.add c).1 = .error .unsatisfiable) :
    s.constraints.get? c.id = none ∧ ∃ row tag t k, Drafted s c row tag t k ∧
      0 ≤ row.constant ∧ subject? row tag = none ∧ Withstood t row (s.add c).2 := by
  obtain ⟨s', hs'⟩ : ∃ s', s.add c = (.error .unsatisfiable, s') := ⟨_, Prod.ext hno rfl⟩
  rw [hs']
  unfold Solver.add at hs'
  split at hs'
  · simp at hs'
  · rename_i hc
    refine ⟨(SortedMap.contains_eq_false_iff _).1 (Bool.not_eq_true _ ▸ hc), ?_⟩
    obtain ⟨row, tag, t, k, heq, hd, h0⟩ := createRow_spec h.toSteady h.toNamed c
    refine ⟨row, tag, t, k, hd, h0, ?_⟩
    simp only [heq] at hs'
    split at hs'
    · exact absurd (congrArg Prod.fst hs') (accept_ne_unsatisfiable _ _ _)
    · rename_i hx
      refine ⟨hx, ?_⟩
      have hrefuse : ∀ u, Solver.refuse u c tag = (.error .unsatisfiable, u) := fun u => by
        rw [Solver.refuse, discharge_of_required hd.fits (hd.required hx)]
      split at hs'
      · rename_i hall
        split at hs'
        · exact absurd (congrArg Prod.fst hs') (accept_ne_unsatisfiable _ _ _)
        · rw [hrefuse] at hs'
          obtain rfl := (Prod.mk.inj hs').2
          exact withstood_refl hd.steady (hd.search h.search) hd.suits hall h0
      · rename_i hall
        split at hs'
        · rename_i f u hrun
          obtain rfl := Except.error.inj (Prod.mk.inj hs').1
          obtain ⟨u', ⟨hrun', -⟩ | ⟨hrun', -⟩ | ⟨hrun', -⟩⟩ :=
            addArtificial_spec hd.steady hd.suits (subject?_eq_none hx).1 h0 <;>
          simp [hrun] at hrun'
        · rename_i u hrun
          rw [hrefuse] at hs'
          obtain rfl := (Prod.mk.inj hs').2
          exact withstood_of_eq_false hd.steady hd.suits (subject?_eq_none hx).1 h0
            (Bool.eq_false_iff.2 hall) hrun
        · exact absurd (congrArg Prod.fst hs') (accept_ne_unsatisfiable _ _ _)

/-- A row without a subject has the slack of its inequality with a plus sign. -/
theorem Drafted.equal_or_sign (hd : Drafted s c row tag t k) (hx : subject? row tag = none) :
    c.comparator = .equal ∨ k = c.sign := by
  by_cases hc : c.comparator = .equal
  · exact Or.inl hc
  · have hm := hd.fits.marker
    rw [if_neg hc] at hm
    have hpos := (subject?_eq_none hx).2 tag.marker tag.marker_mem (by
      simp [Symbol.isPivotable, hm])
    rw [hd.marker] at hpos
    right
    rcases hd.sign with rfl | rfl <;> rcases c.sign_cases with h | h <;> rw [h] at hpos ⊢ <;>
      linarith

theorem Drafted.violation_eq_ite (hd : Drafted s c row tag t k) (hx : subject? row tag = none)
    (e : Rat) : c.comparator.violation e =
      if c.comparator = .equal then |k * e| else max 0 (k * e) := by
  rcases hd.equal_or_sign hx with hc | hk
  · rw [if_pos hc, hc]
    unfold Comparator.violation
    rcases hd.sign with rfl | rfl <;> simp
  · unfold Constraint.sign at hk
    unfold Comparator.violation
    cases hc : c.comparator
    · rcases hd.sign with rfl | rfl <;> simp
    · simp [hk, hc]
    · simp [hk, hc]

/-- In a solution where the row is not below zero, it is at least the violation. -/
theorem Drafted.violation_le (hd : Drafted s c row tag t k) (hx : subject? row tag = none)
    (hσ : s.Solves σ) (hm : 0 ≤ σ tag.marker)
    (hz : tag.marker.isDummy = true → σ tag.marker = 0) (h0 : 0 ≤ row.eval σ) :
    c.comparator.violation (c.expression.eval (t.read σ)) ≤ row.eval σ := by
  have hr := hd.required hx
  rw [hd.eval σ hσ, Tag.gap, hd.fits.required hr, Option.elim_none, sub_zero] at h0 ⊢
  rw [hd.violation_eq_ite hx]
  split
  · rename_i hc
    have hdummy := (hd.fits.dummy_iff tag.marker_mem).2 ⟨hr, hc⟩
    rw [hz hdummy, mul_zero, add_zero] at h0 ⊢
    exact (abs_of_nonneg h0).le
  · rename_i hc
    obtain rfl := (hd.equal_or_sign hx).resolve_left hc
    have hss := c.sign_mul_sign
    rw [mul_add, ← mul_assoc, hss, one_mul] at h0 ⊢
    exact max_le h0 (by linarith)

/-- Where the marker is zero as well, it is the violation. -/
theorem Drafted.violation_eq (hd : Drafted s c row tag t k) (hx : subject? row tag = none)
    (hσ : s.Solves σ) (hm : σ tag.marker = 0) (h0 : 0 ≤ row.eval σ) :
    c.comparator.violation (c.expression.eval (t.read σ)) = row.eval σ := by
  rw [hd.eval σ hσ, Tag.gap, hd.fits.required (hd.required hx), Option.elim_none, hm, sub_zero,
    mul_zero, add_zero] at h0 ⊢
  rw [hd.violation_eq_ite hx, abs_of_nonneg h0, max_eq_right h0, ite_self]

/-! ## Values after a refusal -/

/-- Naming the variables of a constraint changes no value. -/
theorem Drafted.read_vertex (hd : Drafted s c row tag t k) (h : s.Sound T) :
    t.read t.vertex = s.value := by
  rw [vertex_of_rows hd.rows, value_eq_read]
  funext v
  cases hv : s.symbols.get? v with
  | some y => rw [read, read, hv, hd.kept hv]
  | none =>
    rw [read, read, hv, Option.elim_none]
    cases ht : t.symbols.get? v with
    | none => rfl
    | some y =>
      refine vertex_free (h.free_of_unowned (fun w hw => ?_) fun id tag' c' hi hm => ?_)
      · obtain rfl := hd.named.own ht (hd.kept hw)
        rw [hv] at hw
        simp at hw
      · have hye := (h.fits hi).not_external hm
        rw [hd.named.external ht] at hye
        simp at hye

theorem Drafted.free_marker (hd : Drafted s c row tag t k) (h : s.Tidy) : t.Free tag.marker := by
  rw [Free, hd.rows]
  exact h.free_of_new (hd.fresh _ tag.marker_mem).1

/-- Some admissible solution has the variables as an assignment that satisfies what is
required, and the new marker at zero. -/
theorem Drafted.exists_solution (hd : Drafted s c row tag t k) (h : s.Sound T)
    (hr : c.isRequired = true) {v : Variable → Rat} (hv : s.Meets T v) :
    ∃ σ, t.Solves σ ∧ Admissible σ ∧ σ tag.marker = 0 ∧
      c.expression.eval (t.read σ) = c.expression.eval v := by
  have hcons : t.constraints = s.constraints := by rw [hd.frame]
  have ht : t.Sound T := h.leave hd (narrowed_refl hd.steady (hd.search h.search)) hr
  have hm : t.Meets T v := by
    unfold Meets
    rw [hcons]
    exact hv
  refine ⟨t.lift T v, (ht.solves _).2 (ht.balanced_lift hm), ht.admissible_lift hm, ?_, ?_⟩
  · rcases ht.lift_restricted (T := T) (x := v) (hd.fits.not_external tag.marker_mem) with
      h0 | ⟨id, tag', c', hi, hmem, -⟩
    · exact h0
    · rw [hcons] at hi
      have hle := h.made hi hmem
      have hlt := (hd.fresh _ tag.marker_mem).1
      omega
  · apply Expression.eval_congr
    intro w hw
    obtain ⟨y, hy⟩ := hd.names hw
    rw [read, hy, Option.elim_some, ht.lift_symbol hy]

/-- What a refusal does to the values. They move no further from the constraint, and only if
they come nearer do they move at all; with the dummies idle they come as near as can be. -/
theorem Sound.refusal (h : s.Sound T) (hno : (s.add c).1 = .error .unsatisfiable) :
    ((s.add c).2.value = s.value ↔
      c.comparator.violation (c.expression.eval (s.add c).2.value) =
        c.comparator.violation (c.expression.eval s.value)) ∧
    (s.DummiesIdle → ∀ v, s.Meets T v →
      c.comparator.violation (c.expression.eval (s.add c).2.value) ≤
        c.comparator.violation (c.expression.eval v)) := by
  obtain ⟨-, row, tag, t, k, hd, h0, hx, hw⟩ := h.withstood hno
  set s' := (s.add c).2
  have hsol : ∀ σ, t.Solves σ → s.Solves σ := fun σ => (hd.solves σ).1
  have hread : ∀ σ, s'.read σ = t.read σ := fun σ => read_of_eq (by rw [hw.narrowed.frame])
  have hold := hd.read_vertex h
  have hnew : s'.value = t.read s'.vertex := by rw [value_eq_read, hread]
  have hstart : c.comparator.violation (c.expression.eval s.value) = row.constant := by
    have hv : row.eval t.vertex = row.constant :=
      eval_vertex fun y hy => (hd.suits.within y hy).1
    rw [← hold, hd.violation_eq hx (hsol _ hd.steady.solves_vertex)
      (vertex_free (hd.free_marker h.toTidy)) (by rwa [hv]), hv]
  have hend : c.comparator.violation (c.expression.eval s'.value) ≤ row.eval s'.vertex := by
    have hs' := ((hw.narrowed.solves _).1 hw.narrowed.steady.solves_vertex).1
    rw [hnew]
    refine hd.violation_le hx (hsol _ hs') ?_ (fun hdm => ?_) hw.nonneg
    · exact hw.narrowed.steady.feasible.nonneg_vertex _ (hd.fits.not_external tag.marker_mem)
    · exact vertex_free (hw.dummies _ hdm (hd.free_marker h.toTidy))
  refine ⟨⟨fun heq => by rw [heq], fun heq => ?_⟩, fun hidle v hv => ?_⟩
  · have hsame := hw.still (le_antisymm hw.low (by rw [← hstart, ← heq]; exact hend))
    rw [hnew, hsame, hold]
  · obtain ⟨σ, hσ, ha, hm, he⟩ := hd.exists_solution h (hd.required hx) hv
    have hle := hw.least (hd.idle hidle) σ hσ ha
    have heq := hd.violation_eq hx (hsol _ hσ) hm (hw.nonneg.trans hle)
    rw [← he, heq]
    exact hend.trans hle

/-! ## Trails -/

/-- A call that is turned down changes nothing that the ledger says. -/
theorem Recorded.denied (h : Recorded q s T) {call : Call} {f : Fault}
    (hf : (call.perform s).1 = .error f) (hl : f ≠ .pivotLimit) (hb : ∀ b, f ≠ .breakdown b) :
    Recorded q (call.perform s).2 T ∧ (s.DummiesIdle → (call.perform s).2.DummiesIdle) := by
  cases call with
  | add n e k w =>
    have hadd := h.toSound.add (.make (.declared n) e k w) (h.plain n)
      (Constraint.make_weight_nonneg _ _ _ _)
    simp only [Call.perform] at hf ⊢
    generalize s.add (.make (.declared n) e k w) = r at hadd hf ⊢
    cases hadd with
    | accepted => simp at hf
    | duplicate => exact ⟨h, id⟩
    | refused hr hnew hc hs hd hno hk =>
      refine ⟨⟨hs, h.toEdited.of_eq (fun m => by rw [hc]) hk.edits hk.editTick, fun m => ?_,
        fun v => ?_, fun x => ?_⟩, hd⟩
      · rw [hc]
        exact h.declared m
      · rw [hk.edits]
        exact h.pulled v
      · rw [← h.burden, Solver.burden, hc, ← Solver.burden]
    | exhausted => exact absurd (Except.error.inj hf).symm hl
  | remove n =>
    have hrem := h.toSound.remove (.declared n)
    simp only [Call.perform] at hf ⊢
    generalize s.remove (.declared n) = r at hrem hf ⊢
    cases hrem with
    | taken => simp at hf
    | unknown => exact ⟨h, id⟩
    | exhausted => exact absurd (Except.error.inj hf).symm hl
  | addEdit v w =>
    have hadd := h.toSound.addEdit h.toEdited v w
    simp only [Call.perform] at hf ⊢
    generalize s.addEdit v w = r at hadd hf ⊢
    cases hadd with
    | added => simp at hf
    | duplicate => exact ⟨h, id⟩
    | required => exact ⟨h, id⟩
    | exhausted => exact absurd (Except.error.inj hf).symm hl
  | removeEdit v =>
    have hrem := h.toSound.removeEdit h.toEdited v
    simp only [Call.perform] at hf ⊢
    generalize s.removeEdit v = r at hrem hf ⊢
    cases hrem with
    | removed => simp at hf
    | unknown => exact ⟨h, id⟩
    | exhausted => exact absurd (Except.error.inj hf).symm hl
  | suggest v value =>
    have hsug := h.toSound.suggest h.toEdited v value
    simp only [Call.perform] at hf ⊢
    generalize s.suggest v value = r at hsug hf ⊢
    cases hsug with
    | moved => simp at hf
    | unknown => exact ⟨h, id⟩
    | broken => exact absurd (Except.error.inj hf).symm (hb _)
    | exhausted => exact absurd (Except.error.inj hf).symm hl
  | reset => simp [Call.perform] at hf

theorem exists_recorded {may : Requests → Call → Prop} (h : Trail may q s) :
    ∃ T, Recorded q s T := by
  induction h with
  | start limit => exact ⟨_, (agrees_empty limit).toRecorded⟩
  | granted _ _ hok ih =>
    obtain ⟨T, ih⟩ := ih
    obtain ⟨T', h', -⟩ := ih.granted hok
    exact ⟨T', h'⟩
  | denied _ _ hf hl hb ih =>
    obtain ⟨T, ih⟩ := ih
    exact ⟨T, (ih.denied hf hl hb).1⟩

theorem dummiesIdle_of_trail (h : Trail Call.KeepsRequired q s) : s.DummiesIdle := by
  induction h with
  | start limit => exact dummiesIdle_empty limit
  | granted h ha hok ih =>
    obtain ⟨T, hs⟩ := exists_recorded h
    obtain ⟨T', -, -, hd⟩ := hs.granted hok
    exact hd ih ha
  | denied h _ hf hl hb ih =>
    obtain ⟨T, hs⟩ := exists_recorded h
    exact (hs.denied hf hl hb).2 ih

/-- A constraint that is refused is not in the solver. The values are what they were if they
violate it as much as before, and only then: with the dummies idle, if no values that satisfy
what is required violate it less. -/
theorem refusal_keeps_values_iff {may : Requests → Call → Prop} (h : Trail may q s) (n : Nat)
    (e : Expression Rat) (k : Comparator) (w : Rat)
    (hno : s.add (.make (.declared n) e k w) = (.error .unsatisfiable, s')) :
    s'.has (.declared n) = false ∧
      (s'.value = s.value ↔ k.violation (e.eval s'.value) = k.violation (e.eval s.value)) ∧
      (s.DummiesIdle → (s'.value = s.value ↔
        ∀ v, q.Meets v → k.violation (e.eval s.value) ≤ k.violation (e.eval v))) := by
  obtain ⟨T, hs⟩ := exists_recorded h
  obtain ⟨hkept, hleast⟩ := hs.toSound.refusal (congrArg Prod.fst hno)
  have hadd := hs.toSound.add (.make (.declared n) e k w) (hs.plain n)
    (Constraint.make_weight_nonneg _ _ _ _)
  rw [hno] at hkept hleast hadd
  cases hadd with
  | refused hr hnew hc hs' hd hnone hk =>
    refine ⟨?_, hkept, fun hidle => ⟨fun heq v hv => ?_, fun hbest => ?_⟩⟩
    · rw [has, hc]
      exact (SortedMap.contains_eq_false_iff _).2 hnew
    · rw [← heq]
      exact hleast hidle v (hs.meets_iff.2 hv)
    · -- what is required still holds, so the values now are among those that are no better
      have hmeets : s.Meets T s'.value := by
        have := hs'.meets (hd hidle)
        unfold Meets at this
        rwa [hc] at this
      apply hkept.2
      apply le_antisymm
      · have := hleast hidle s.value (hs.toSound.meets hidle)
        exact this
      · exact hbest _ (hs.meets_iff.1 hmeets)

/-- A variable held above fifty and wanted at ten stays at fifty when it may not go to ten. -/
theorem refusal_keeps_values_at_bound : ∃ q s s' n e k w,
    Trail Call.KeepsRequired q s ∧
      s.add (.make (.declared n) e k w) = (.error .unsatisfiable, s') ∧
      s'.has (.declared n) = false ∧ s'.value = s.value := by
  have h0 : Trail Call.KeepsRequired {} (.empty 10) := .start 10
  have h1 := h0.granted (show Call.KeepsRequired _ (.add 0 ⟨[(⟨0⟩, 1)], -50⟩ .atLeast
    Weight.required) from trivial) (by decide +kernel)
  have h2 := h1.granted (show Call.KeepsRequired _ (.add 1 ⟨[(⟨0⟩, 1)], -10⟩ .equal
    Weight.weak) from trivial) (by decide +kernel)
  have hno : (Solver.add (Call.perform (Call.perform (.empty 10)
      (.add 0 ⟨[(⟨0⟩, 1)], -50⟩ .atLeast Weight.required)).2
      (.add 1 ⟨[(⟨0⟩, 1)], -10⟩ .equal Weight.weak)).2
      (.make (.declared 2) ⟨[(⟨0⟩, 1)], -10⟩ .atMost Weight.required)).1 =
        .error .unsatisfiable := by decide +kernel
  have hkeeps := refusal_keeps_values_iff h2 2 ⟨[(⟨0⟩, 1)], -10⟩ .atMost Weight.required
    (Prod.ext hno rfl)
  refine ⟨_, _, _, 2, ⟨[(⟨0⟩, 1)], -10⟩, .atMost, Weight.required, h2, Prod.ext hno rfl,
    hkeeps.1, (hkeeps.2.2 (dummiesIdle_of_trail h2)).2 fun v hv => ?_⟩
  have hbound := hv 0 (.make (.declared 0) ⟨[(⟨0⟩, 1)], -50⟩ .atLeast Weight.required) rfl
    (by decide +kernel)
  have hvalue : Comparator.atMost.violation (Expression.eval (Solver.value
      (Call.perform (Call.perform (.empty 10) (.add 0 ⟨[(⟨0⟩, 1)], -50⟩ .atLeast
        Weight.required)).2 (.add 1 ⟨[(⟨0⟩, 1)], -10⟩ .equal Weight.weak)).2)
      ⟨[(⟨0⟩, 1)], -10⟩) = 40 := by decide +kernel
  rw [hvalue]
  simp only [Constraint.make, Comparator.Holds, Expression.eval, List.foldl_cons, List.foldl_nil]
    at hbound
  simp only [Comparator.violation, Expression.eval, List.foldl_cons, List.foldl_nil]
  apply le_max_of_le_right
  linarith

/-- A variable held above fifty and wanted at sixty is moved to fifty by a bound of ten that it
may not have. -/
theorem refusal_moves_values : ∃ q s s' c,
    Trail Call.KeepsRequired q s ∧ s.add c = (.error .unsatisfiable, s') ∧
      s.value ⟨0⟩ = 60 ∧ s'.value ⟨0⟩ = 50 := by
  have h0 : Trail Call.KeepsRequired {} (.empty 10) := .start 10
  have h1 := h0.granted (show Call.KeepsRequired _ (.add 0 ⟨[(⟨0⟩, 1)], -60⟩ .equal
    Weight.weak) from trivial) (by decide +kernel)
  have h2 := h1.granted (show Call.KeepsRequired _ (.add 1 ⟨[(⟨0⟩, 1)], -50⟩ .atLeast
    Weight.required) from trivial) (by decide +kernel)
  refine ⟨_, _, _, .make (.declared 2) ⟨[(⟨0⟩, 1)], -10⟩ .atMost Weight.required, h2,
    Prod.ext ?_ rfl, ?_, ?_⟩ <;> decide +kernel

end Solver

end RegionLayout
