-- Edit variables. To move the target of an edit is to shift one of its errors, so the tableau
-- keeps its symbols and only constants change. The dual loop makes it feasible again, and with
-- the dummies idle it always can.
import RegionLayout.Proofs.Solver.Removing

namespace RegionLayout

open Solver

namespace Solver

variable {s s' t : Solver Rat} {T : ConstraintId → Rat} {row r : Row Rat} {tag : Tag}
  {c : Constraint Rat} {x y : Symbol} {id : ConstraintId} {a : Rat} {σ : Symbol → Rat}

/-! ## Shifts -/

/-- Rows with other constants are as clean, and bound to the same symbols. -/
theorem Regular.of_cells (h : s.Regular) (ht : t.Tidy)
    (hr : ∀ y r', t.rows.get? y = some r' → ∃ r k, s.rows.get? y = some r ∧
      r' = { r with constant := k })
    (ho : t.objective = s.objective) (ha : t.artificial = s.artificial) : t.Regular where
  toTidy := ht
  clean := by
    refine ⟨fun y r' hy => ?_, ho ▸ h.clean.objective, fun g hg => h.clean.artificial g (ha ▸ hg)⟩
    obtain ⟨r, k, hr, rfl⟩ := hr y r' hy
    exact h.clean.rows y r hr
  bound y r' hy hye := by
    obtain ⟨r, k, hr, rfl⟩ := hr y r' hy
    exact h.bound y r hr hye

/-- The tableau has the solutions of another with one symbol shifted. -/
structure Shifted (s : Solver Rat) (x : Symbol) (a : Rat) (t : Solver Rat) : Prop where
  watched : t.Watched
  frame : t = { s with rows := t.rows, infeasible := t.infeasible }
  solves : ∀ σ, t.Solves σ ↔ s.Solves (σ + Pi.single x a)
  idle : s.DummiesIdle → t.DummiesIdle
  still : a = 0 → t.infeasible = []

theorem eval_add_single (r : Row Rat) (x : Symbol) (a : Rat) (σ : Symbol → Rat) :
    r.eval (σ + Pi.single x a) = r.eval σ + r.coefficient x * a := by
  rw [Row.eval_add, Row.slope_single]

theorem regular_shiftRow (h : s.Regular) (hx : s.rows.get? x = some row) (k : Rat) :
    (s.shiftRow x row k).Regular := by
  refine h.of_cells (h.toTidy.shiftRow hx k) (fun y r' hy => ?_) ?_ ?_
  · rw [rows_shiftRow] at hy
    split at hy
    · subst y
      exact ⟨row, row.constant + k, hx, (Option.some.inj hy).symm⟩
    · exact ⟨r', r'.constant, hy, rfl⟩
  all_goals rw [shiftRow_eq]

theorem solves_shiftRow (h : s.Tidy) (hx : s.rows.get? x = some row) (k : Rat) :
    (s.shiftRow x row k).Solves σ ↔ s.Solves (σ + Pi.single x (-k)) := by
  have hout : ∀ y r, s.rows.get? y = some r →
      r.eval (σ + Pi.single x (-k)) = r.eval σ := fun y r hy => by
    rw [eval_add_single, Row.coefficient_of_not_uses ((h.absent_of_basic hx).rows y r hy),
      zero_mul, add_zero]
  constructor
  · intro hσ y r hy
    rw [hout y r hy, Pi.add_apply]
    by_cases hyx : y = x
    · subst hyx
      obtain rfl := Option.some.inj (hy.symm.trans hx)
      have := hσ y _ (by rw [rows_shiftRow, if_pos rfl])
      rw [this, Row.eval_shift, Pi.single_eq_same]
      ring
    · rw [Pi.single_apply, if_neg hyx, add_zero]
      exact hσ y r (by rw [rows_shiftRow, if_neg hyx, hy])
  · intro hσ y r hy
    rw [rows_shiftRow] at hy
    split at hy
    · subst y
      obtain rfl := Option.some.inj hy
      have := hσ x row hx
      rw [hout x row hx, Pi.add_apply, Pi.single_eq_same] at this
      rw [Row.eval_shift]
      linarith
    · have := hσ y r hy
      rwa [hout y r hy, Pi.add_apply, Pi.single_apply, if_neg ‹_›, add_zero] at this

theorem shifted_shiftRow (hs : s.Steady) (hx : s.rows.get? x = some row)
    (hxe : x.isExternal = false) (hxd : x.isDummy = false) (k : Rat) :
    Shifted s x (-k) (s.shiftRow x row k) := by
  have hnoted : (s.shiftRow x row k).infeasible =
      if (row.shift k).constant < 0 then [x] else [] := by
    rw [shiftRow_eq, hs.noted]
  refine ⟨⟨regular_shiftRow hs.toRegular hx k, fun y r hy hye hneg => ?_, fun y hy => ?_⟩, ?_,
    fun σ => solves_shiftRow hs.toTidy hx k, fun hd y r hy hyd => ?_, fun h0 => ?_⟩
  · rw [rows_shiftRow] at hy
    rw [hnoted]
    split at hy
    · obtain rfl := Option.some.inj hy
      rw [if_pos hneg]
      exact List.mem_singleton.2 ‹_›
    · exact absurd (hs.feasible y r hy hye) (not_le.2 hneg)
  · rw [hnoted] at hy
    split at hy
    · obtain rfl := List.mem_singleton.1 hy
      exact hxe
    · simp at hy
  · rw [shiftRow_eq]
  · rw [rows_shiftRow] at hy
    split at hy
    · subst y
      rw [hxd] at hyd
      simp at hyd
    · exact hd y r hy hyd
  · obtain rfl : k = 0 := by linarith
    rw [hnoted, if_neg]
    rw [Row.shift, not_lt]
    have := hs.feasible x row hx hxe
    simpa using this

/-! ## A shift of all rows -/

theorem rows_shiftAll (s : Solver Rat) (x y : Symbol) (k : Rat) :
    (s.shiftAll x k).rows.get? y =
      (s.rows.get? y).map fun r => r.shift (k * r.coefficient x) := by
  have hsame : ∀ r : Row Rat, (if r.coefficient x == 0 then r else r.shift (k * r.coefficient x)) =
      r.shift (k * r.coefficient x) := by
    intro r
    split
    · rename_i h0
      rw [beq_iff_eq] at h0
      simp [Row.shift, h0]
    · rfl
  rw [shiftAll, SortedMap.get?_mapValues]
  cases s.rows.get? y with
  | none => rfl
  | some r => exact congrArg some (hsame r)

theorem mem_infeasible_shiftAll {k : Rat} : y ∈ (s.shiftAll x k).infeasible ↔ y ∈ s.infeasible ∨
    ∃ r, (s.shiftAll x k).rows.get? y = some r ∧ r.coefficient x ≠ 0 ∧ r.constant < 0 ∧
      y.isExternal = false := by
  have : (s.shiftAll x k).infeasible =
      (((s.shiftAll x k).rows.entries.filter fun e =>
        !(e.2.coefficient x == 0) && decide (e.2.constant < 0) && !e.1.isExternal).map
          (·.1)).reverse ++ s.infeasible := foldl_note _ _ _
  rw [this, List.mem_append, or_comm]
  simp only [List.mem_reverse, List.mem_map, List.mem_filter, Bool.and_eq_true,
    Bool.not_eq_true', decide_eq_true_eq, beq_eq_false_iff_ne, Prod.exists, exists_and_right,
    exists_eq_right, SortedMap.get?_eq_some_iff]
  simp only [and_assoc]

theorem exists_of_shiftAll {k : Rat} (h : (s.shiftAll x k).rows.get? y = some r) :
    ∃ r', s.rows.get? y = some r' ∧ r = r'.shift (k * r'.coefficient x) := by
  rw [rows_shiftAll] at h
  obtain ⟨r', hr', rfl⟩ := Option.map_eq_some_iff.1 h
  exact ⟨r', hr', rfl⟩

theorem regular_shiftAll (h : s.Regular) (x : Symbol) (k : Rat) :
    (s.shiftAll x k).Regular := by
  refine h.of_cells (h.toTidy.shiftAll x k) (fun y r hy => ?_) rfl rfl
  obtain ⟨r', hr', rfl⟩ := exists_of_shiftAll hy
  exact ⟨r', _, hr', rfl⟩

theorem solves_shiftAll (hx : s.Free x) (k : Rat) :
    (s.shiftAll x k).Solves σ ↔ s.Solves (σ + Pi.single x k) := by
  have hne : ∀ y r, s.rows.get? y = some r → y ≠ x := fun _ _ hy => (hx.ne_of_basic hy).symm
  constructor
  · intro h y r hy
    have := h y _ (by rw [rows_shiftAll, hy, Option.map_some])
    rw [eval_add_single, Pi.add_apply, Pi.single_apply, if_neg (hne y r hy), this,
      Row.eval_shift]
    ring
  · intro h y r hy
    obtain ⟨r', hr', rfl⟩ := exists_of_shiftAll hy
    have := h y r' hr'
    rw [eval_add_single, Pi.add_apply, Pi.single_apply, if_neg (hne y r' hr')] at this
    rw [Row.eval_shift]
    linarith

theorem shifted_shiftAll (hs : s.Steady) (hx : s.Free x) (hxd : x.isDummy = false) (k : Rat) :
    Shifted s x k (s.shiftAll x k) := by
  refine ⟨⟨regular_shiftAll hs.toRegular x k, fun y r hy hye hneg => ?_, fun y hy => ?_⟩, rfl,
    fun σ => solves_shiftAll hx k, fun hd y r hy hyd => ?_, fun h0 => ?_⟩
  · obtain ⟨r', hr', rfl⟩ := exists_of_shiftAll hy
    refine mem_infeasible_shiftAll.2 (Or.inr ⟨_, hy, fun h0 => ?_, hneg, hye⟩)
    have h0 : r'.coefficient x = 0 := h0
    rw [h0, mul_zero, Row.shift, add_zero] at hneg
    exact absurd (hs.feasible y r' hr' hye) (not_le.2 hneg)
  · rcases mem_infeasible_shiftAll.1 hy with hy | ⟨r, -, -, -, hye⟩
    · rw [hs.noted] at hy
      simp at hy
    · exact hye
  · obtain ⟨r', hr', rfl⟩ := exists_of_shiftAll hy
    obtain ⟨hz, hw⟩ := hd y r' hr' hyd
    have h0 : r'.coefficient x = 0 := Row.coefficient_of_not_uses fun hu => by
      rw [hw x hu] at hxd
      simp at hxd
    refine ⟨?_, hw⟩
    simp [Row.shift, hz, h0]
  · subst h0
    rw [List.eq_nil_iff_forall_not_mem]
    intro y hy
    rcases mem_infeasible_shiftAll.1 hy with hy | ⟨r, hr, -, hneg, hye⟩
    · rw [hs.noted] at hy
      simp at hy
    · obtain ⟨r', hr', rfl⟩ := exists_of_shiftAll hr
      rw [zero_mul, Row.shift, add_zero] at hneg
      exact absurd (hs.feasible y r' hr' hye) (not_le.2 hneg)

/-! ## Targets -/

/-- Constraints of the solver's own are those of the edit variables, and pull to their
targets. -/
structure Edited (s : Solver Rat) (T : ConstraintId → Rat) : Prop where
  plain : ∀ n, T (.declared n) = 0
  pulls : ∀ {v e}, s.edits.get? v = some e → T e.constraint.id = e.target
  entered : ∀ {v e}, s.edits.get? v = some e →
    s.constraints.get? e.constraint.id = some (e.tag, e.constraint)
  form : ∀ {v e}, s.edits.get? v = some e →
    ∃ n w, e.constraint = Constraint.make (.edit n) (.ofTerm v 1) .equal w
  soft : ∀ {v e}, s.edits.get? v = some e → e.constraint.isRequired = false
  edited : ∀ {n p}, s.constraints.get? (.edit n) = some p →
    ∃ v e, s.edits.get? v = some e ∧ e.constraint.id = .edit n
  numbered : ∀ {n p}, s.constraints.get? (.edit n) = some p → n ≤ s.editTick

/-- An edit variable has a constraint of its own. -/
theorem Edited.own (h : s.Edited T) {v w : Variable} {e e' : Edit Rat}
    (hv : s.edits.get? v = some e) (hw : s.edits.get? w = some e')
    (hid : e.constraint.id = e'.constraint.id) : v = w := by
  have hc := h.entered hv
  rw [hid, h.entered hw] at hc
  obtain ⟨-, hc⟩ := Prod.mk.inj (Option.some.inj hc)
  obtain ⟨n, k, hf⟩ := h.form hv
  obtain ⟨n', k', hf'⟩ := h.form hw
  rw [hf, hf'] at hc
  have := congrArg (fun c : Constraint Rat => c.expression.terms) hc
  simpa [Constraint.make, Expression.ofTerm] using this.symm

theorem Edited.comparator (h : s.Edited T) {v : Variable} {e : Edit Rat}
    (hv : s.edits.get? v = some e) : e.constraint.comparator = .equal := by
  obtain ⟨n, w, hf⟩ := h.form hv
  rw [hf]
  rfl

/-- Only the targets of the constraints that are kept matter. -/
theorem Sound.retarget {T' : ConstraintId → Rat} (h : s.Sound T)
    (hT : ∀ id p, s.constraints.get? id = some p → T' id = T id) : s.Sound T' := by
  refine ⟨h.toSteady, h.toBooked, h.search, fun σ => (h.solves σ).trans ?_, h.measures⟩
  unfold Balanced Balances
  refine forall_congr' fun id => forall_congr' fun tag => forall_congr' fun c => ?_
  exact imp_congr_right fun hc => by rw [hT id _ hc]

/-- To shift a symbol of a constraint is to move its target. -/
theorem Booked.balanced_shift (h : s.Booked) (hc : s.constraints.get? id = some (tag, c))
    (hy : y ∈ tag.symbols) {d : Rat} (hgap : ∀ σ, tag.gap c (σ + Pi.single y a) = tag.gap c σ - d)
    (σ : Symbol → Rat) :
    s.Balanced T (σ + Pi.single y a) ↔ s.Balanced (Function.update T id (T id + d)) σ := by
  have hsame : ∀ z, z ≠ y → (σ + Pi.single y a : Symbol → Rat) z = σ z := fun z hz => by
    rw [Pi.add_apply, Pi.single_apply, if_neg hz, add_zero]
  have hread : s.read (σ + Pi.single y a) = s.read σ := by
    refine read_congr fun v z hz => hsame z ?_
    rintro rfl
    have := h.external hz
    rw [(h.fits hc).not_external hy] at this
    simp at this
  unfold Balanced
  refine forall_congr' fun id' => forall_congr' fun tag' => forall_congr' fun c' => ?_
  refine imp_congr_right fun hi => ?_
  rw [Balances, Balances, hread]
  by_cases hid : id' = id
  · subst hid
    obtain ⟨rfl, rfl⟩ := Prod.mk.inj (Option.some.inj (hc.symm.trans hi))
    rw [hgap, Function.update_self]
    constructor <;> intro h0 <;> linarith
  · rw [Function.update_of_ne hid, Tag.gap_congr fun z hz => hsame z ?_]
    rintro rfl
    exact hid (h.owner hi hc hz hy)

/-- A shifted tableau is faithful to the moved target. -/
theorem Shifted.faithful {T' : ConstraintId → Rat} (h : Shifted s x a t) (hs : s.Sound T)
    (hb : ∀ σ, s.Balanced T (σ + Pi.single x a) ↔ s.Balanced T' σ) : t.Faithful T' := by
  have hc : t.constraints = s.constraints := by rw [h.frame]
  have hn : t.symbols = s.symbols := by rw [h.frame]
  have htick : t.tick = s.tick := by rw [h.frame]
  have ho : t.objective = s.objective := by rw [h.frame]
  refine ⟨hs.toBooked.of_eq hc hn htick.ge, by rw [h.frame]; exact hs.search, fun σ => ?_, ?_⟩
  · rw [h.solves, hs.solves, hb]
    simp only [Balanced, Balances, hc, read_of_eq hn]
  · obtain ⟨k, hk⟩ := hs.measures
    refine ⟨k + cost s.prices (Pi.single x a) - s.objective.coefficient x * a, fun σ hσ => ?_⟩
    have := hk _ ((h.solves σ).1 hσ)
    rw [cost_add, eval_add_single] at this
    have hprices : t.prices = s.prices := by rw [prices, prices, hc]
    rw [ho, hprices]
    linarith

/-- The target moved to a value. -/
def moved (T : ConstraintId → Rat) (id : ConstraintId) (value : Rat) : ConstraintId → Rat :=
  Function.update T id value

/-- What happens to constraints of callers does not touch the edits. -/
theorem Edited.of_eq (h : s.Edited T)
    (hc : ∀ n, s'.constraints.get? (.edit n) = s.constraints.get? (.edit n))
    (he : s'.edits = s.edits) (ht : s'.editTick = s.editTick) : s'.Edited T where
  plain := h.plain
  pulls hv := h.pulls (he ▸ hv)
  entered {v e} hv := by
    have hv : s.edits.get? v = some e := he ▸ hv
    obtain ⟨n, w, hf⟩ := h.form hv
    have hid : e.constraint.id = .edit n := by rw [hf]; rfl
    have := h.entered hv
    rw [hid] at this ⊢
    rw [hc, this]
  form hv := h.form (he ▸ hv)
  soft hv := h.soft (he ▸ hv)
  edited hn := by
    rw [he]
    exact h.edited (hc _ ▸ hn)
  numbered hn := ht ▸ h.numbered (hc _ ▸ hn)

theorem Edited.of_moved (h : s.Edited T) {v : Variable} {e : Edit Rat} {value : Rat}
    (hv : s.edits.get? v = some e) (hc : s'.constraints = s.constraints)
    (he : s'.edits = s.edits.insert v { e with target := value })
    (ht : s'.editTick = s.editTick) : s'.Edited (moved T e.constraint.id value) := by
  have split : ∀ {w : Variable} {e' : Edit Rat}, s'.edits.get? w = some e' →
      w = v ∧ e' = { e with target := value } ∨ w ≠ v ∧ s.edits.get? w = some e' := by
    intro w e' hw
    rw [he, SortedMap.get?_insert] at hw
    split at hw
    · exact Or.inl ⟨‹_›, (Option.some.inj hw).symm⟩
    · exact Or.inr ⟨‹_›, hw⟩
  have hentered := h.entered hv
  have hform := h.form hv
  have hsoft := h.soft hv
  obtain ⟨n, k, hf⟩ := hform
  refine ⟨fun m => ?_, fun {w e'} hw => ?_, fun {w e'} hw => ?_, fun {w e'} hw => ?_,
    fun {w e'} hw => ?_, fun {m p} hm => ?_, fun hm => ht ▸ h.numbered (hc ▸ hm)⟩
  · rw [moved, Function.update_of_ne, h.plain]
    rw [hf]
    exact fun hid => by simp [Constraint.make] at hid
  · rcases split hw with ⟨rfl, rfl⟩ | ⟨hne, hw⟩
    · exact Function.update_self ..
    · rw [moved, Function.update_of_ne fun hid => hne (h.own hw hv hid)]
      exact h.pulls hw
  · rw [hc]
    rcases split hw with ⟨rfl, rfl⟩ | ⟨-, hw⟩
    · exact hentered
    · exact h.entered hw
  · rcases split hw with ⟨rfl, rfl⟩ | ⟨-, hw⟩
    · exact ⟨n, k, hf⟩
    · exact h.form hw
  · rcases split hw with ⟨rfl, rfl⟩ | ⟨-, hw⟩
    · exact hsoft
    · exact h.soft hw
  · rw [hc] at hm
    obtain ⟨w, e', hw, hid⟩ := h.edited hm
    by_cases hwv : w = v
    · subst hwv
      obtain rfl := Option.some.inj (hw.symm.trans hv)
      refine ⟨w, { e' with target := value }, ?_, hid⟩
      rw [he, SortedMap.get?_insert, if_pos rfl]
    · exact ⟨w, e', by rw [he, SortedMap.get?_insert, if_neg hwv, hw], hid⟩

/-! ## What callers require -/

/-- What the required constraints of callers ask of the variables. -/
def Asks (s : Solver Rat) (u : Variable → Rat) : Prop :=
  ∀ n p, s.constraints.get? (.declared n) = some p → p.2.isRequired = true →
    p.2.comparator.Holds (p.2.expression.eval u)

/-- The constraints of edit variables are never required. -/
theorem Edited.meets_iff (h : s.Edited T) {u : Variable → Rat} : s.Meets T u ↔ s.Asks u := by
  constructor
  · intro hm n p hi hr
    have := hm (.declared n) p.1 p.2 hi hr
    rwa [h.plain, sub_zero] at this
  · intro ha id tag c hi hr
    cases id with
    | declared n =>
      rw [h.plain, sub_zero]
      exact ha n _ hi hr
    | edit n =>
      obtain ⟨v, e, he, hid⟩ := h.edited hi
      have hc := h.entered he
      rw [hid, hi] at hc
      obtain ⟨-, rfl⟩ := Prod.mk.inj (Option.some.inj hc)
      rw [h.soft he] at hr
      simp at hr

theorem asks_of_eq {u : Variable → Rat}
    (h : ∀ n, s'.constraints.get? (.declared n) = s.constraints.get? (.declared n)) :
    s'.Asks u ↔ s.Asks u := by
  simp only [Asks, h]

theorem asks_insert {u : Variable → Rat} {n : Nat}
    (hnew : s.constraints.get? (.declared n) = none)
    (hc : s'.constraints = s.constraints.insert (.declared n) (tag, c)) :
    s'.Asks u ↔ s.Asks u ∧ (c.isRequired = true → c.comparator.Holds (c.expression.eval u)) := by
  constructor
  · refine fun h => ⟨fun k p hi => h k p ?_, h n (tag, c) ?_⟩
    · rw [hc, SortedMap.get?_insert, if_neg, hi]
      rintro hid
      rw [hid, hnew] at hi
      simp at hi
    · rw [hc, SortedMap.get?_insert, if_pos rfl]
  · rintro ⟨h, hn⟩ k p hi
    rw [hc, SortedMap.get?_insert] at hi
    split at hi
    · obtain rfl := Option.some.inj hi
      exact hn
    · exact h k p hi

theorem asks_erase {u : Variable → Rat} {n : Nat}
    (hsoft : ∀ p, s.constraints.get? (.declared n) = some p → p.2.isRequired = false)
    (hc : s'.constraints = s.constraints.erase (.declared n)) : s'.Asks u ↔ s.Asks u := by
  constructor
  · intro h k p hi hr
    refine h k p ?_ hr
    rw [hc, SortedMap.get?_erase, if_neg, hi]
    rintro hid
    rw [hid] at hi
    rw [hsoft p hi] at hr
    simp at hr
  · intro h k p hi
    rw [hc, SortedMap.get?_erase] at hi
    split at hi
    · simp at hi
    · exact h k p hi

/-! ## Suggesting a value -/

/-- The dual loop after a shift. With the dummies idle it does not break, as the values before
the shift still satisfy all that is required. -/
theorem Shifted.dualOptimize {T' : ConstraintId → Rat} (h : Shifted s x a t) (hs : s.Sound T)
    (hb : ∀ σ, s.Balanced T (σ + Pi.single x a) ↔ s.Balanced T' σ)
    (hT : ∀ id tag c, s.constraints.get? id = some (tag, c) → c.isRequired = true →
      T' id = T id) :
    ∃ u, Pivoted t u ∧ (s.DummiesIdle → u.DummiesIdle) ∧
      (Optimal s.objective → Optimal u.objective) ∧
      (t.dualOptimize = (.ok (), u) ∧ u.Sound T' ∨
        t.dualOptimize = (.error (.breakdown .noDualPivot), u) ∧ ¬ s.DummiesIdle ∨
        t.dualOptimize = (.error .pivotLimit, u) ∧ (a = 0 → s.limit = 0)) := by
  have hf := h.faithful hs hb
  have hc : t.constraints = s.constraints := by rw [h.frame]
  have ho : t.objective = s.objective := by rw [h.frame]
  obtain ⟨u, hp, hd, hopt, hrun⟩ := h.watched.dualOptimize
  refine ⟨u, hp, fun hi => hd (h.idle hi), fun hi => hopt (ho ▸ hi), ?_⟩
  rcases hrun with ⟨hrun, hu⟩ | ⟨hrun, hno⟩ | hrun
  · exact Or.inl ⟨hrun, hu, hf.of_pivoted hp⟩
  · refine Or.inr (Or.inl ⟨hrun, fun hi => hno ?_⟩)
    have hm : t.Meets T' s.value := by
      intro id tag c hi' hr
      rw [hc] at hi'
      rw [hT id tag c hi' hr]
      exact hs.meets hi id tag c hi' hr
    exact ⟨_, (hf.solves _).2 (hf.toBooked.balanced_lift hm), hf.toBooked.admissible_lift hm⟩
  · refine Or.inr (Or.inr ⟨hrun, fun h0 => ?_⟩)
    have hnil := h.still h0
    have hlimit : t.limit = s.limit := by rw [h.frame]
    cases hn : t.limit with
    | zero => rw [← hlimit, hn]
    | succ n =>
      rw [Solver.dualOptimize, hn] at hrun
      simp [Turn.run, Solver.dualTurn, hnil] at hrun

/-- What a suggestion comes to. -/
inductive Suggested (s : Solver Rat) (T : ConstraintId → Rat) (v : Variable) (value : Rat) :
    Answer Rat Unit → Prop
  | unknown (he : s.edits.get? v = none) : Suggested s T v value (.error .unknownEdit, s)
  | moved {s' : Solver Rat} (e : Edit Rat) (he : s.edits.get? v = some e)
      (hs : s'.Sound (moved T e.constraint.id value)) (hc : s'.constraints = s.constraints)
      (hedits : s'.edits = s.edits.insert v { e with target := value })
      (ho : Optimal s.objective → Optimal s'.objective) (hd : s.DummiesIdle → s'.DummiesIdle)
      (hk : s'.editTick = s.editTick ∧ s'.limit = s.limit ∧ s'.tick = s.tick) :
      Suggested s T v value (.ok (), s')
  | broken (s' : Solver Rat) (hd : ¬ s.DummiesIdle) :
      Suggested s T v value (.error (.breakdown .noDualPivot), s')
  | exhausted (s' : Solver Rat)
      (hlim : ∀ e, s.edits.get? v = some e → e.target = value → s.limit = 0) :
      Suggested s T v value (.error .pivotLimit, s')

theorem Sound.suggested (h : s.Sound T) {v : Variable} {value : Rat} {e : Edit Rat}
    (he : s.edits.get? v = some e)
    (hsh : Shifted { s with edits := s.edits.insert v { e with target := value } } x a t)
    (hb : ∀ σ, s.Balanced T (σ + Pi.single x a) ↔
      s.Balanced (Solver.moved T e.constraint.id value) σ)
    (hr : ∀ tag c, s.constraints.get? e.constraint.id = some (tag, c) → c.isRequired = false)
    (h0 : e.target = value → a = 0) : Suggested s T v value t.dualOptimize := by
  have hs := h.with_edits (s.edits.insert v { e with target := value }) s.editTick
  have hT : ∀ id tag c, s.constraints.get? id = some (tag, c) → c.isRequired = true →
      Solver.moved T e.constraint.id value id = T id := by
    intro id tag c hi hreq
    refine Function.update_of_ne ?_ value T
    rintro rfl
    rw [hr tag c hi] at hreq
    simp at hreq
  obtain ⟨u, hp, hd, ho, ⟨hrun, hu⟩ | ⟨hrun, hno⟩ | ⟨hrun, hlim⟩⟩ := hsh.dualOptimize hs hb hT
  · rw [hrun]
    refine .moved e he hu ?_ ?_ ho hd ⟨?_, ?_, ?_⟩ <;> rw [hp.frame, hsh.frame]
  · rw [hrun]
    exact .broken u hno
  · rw [hrun]
    refine .exhausted u fun e' he' hv => hlim (h0 ?_)
    obtain rfl := Option.some.inj (he'.symm.trans he)
    exact hv

/-- The two symbols of an edit variable are errors. -/
theorem Sound.errors (h : s.Sound T) (hed : s.Edited T) {v : Variable} {e : Edit Rat}
    (he : s.edits.get? v = some e) :
    e.tag.marker.isExternal = false ∧ e.tag.marker.isDummy = false ∧
      ∃ o, e.tag.other = some o ∧ o.isExternal = false ∧ o.isDummy = false ∧ o ≠ e.tag.marker := by
  have hf := h.fits (hed.entered he)
  obtain ⟨o, ho, hok, hne⟩ := hf.soft (hed.soft he)
  have hmk := hf.marker
  rw [if_pos (hed.comparator he), hed.soft he] at hmk
  refine ⟨hf.not_external e.tag.marker_mem, ?_, o, ho, hf.not_external ?_, ?_, hne⟩
  · simp [Symbol.isDummy, hmk]
  · simp [Tag.symbols, ho]
  · simp [Symbol.isDummy, hok]

section Moves

variable {v : Variable} {e : Edit Rat}

theorem Edited.moved_eq (h : s.Edited T) (he : s.edits.get? v = some e) (value : Rat) :
    Solver.moved T e.constraint.id value =
      Function.update T e.constraint.id (T e.constraint.id + (value - e.target)) := by
  rw [Solver.moved, h.pulls he, add_sub_cancel]

/-- The marker of an edit variable moves with its target, and the other error against it. -/
theorem Sound.shift_marker (h : s.Sound T) (hed : s.Edited T) (he : s.edits.get? v = some e)
    (value : Rat) (σ : Symbol → Rat) :
    s.Balanced T (σ + Pi.single e.tag.marker (value - e.target)) ↔
      s.Balanced (Solver.moved T e.constraint.id value) σ := by
  obtain ⟨-, -, o, ho, -, -, hne⟩ := h.errors hed he
  have hsign : e.constraint.sign = -1 := by simp [Constraint.sign, hed.comparator he, hed.soft he]
  rw [hed.moved_eq he]
  refine h.toBooked.balanced_shift (hed.entered he) e.tag.marker_mem (fun τ => ?_) σ
  simp only [Tag.gap, ho, Option.elim_some, Pi.add_apply, Pi.single_apply, if_true, hne,
    if_false, hsign]
  ring

theorem Sound.shift_other (h : s.Sound T) (hed : s.Edited T) (he : s.edits.get? v = some e)
    {o : Symbol} (ho : e.tag.other = some o) (value : Rat) (σ : Symbol → Rat) :
    s.Balanced T (σ + Pi.single o (-(value - e.target))) ↔
      s.Balanced (Solver.moved T e.constraint.id value) σ := by
  obtain ⟨-, -, o', ho', -, -, hne⟩ := h.errors hed he
  obtain rfl := Option.some.inj (ho.symm.trans ho')
  have hsign : e.constraint.sign = -1 := by simp [Constraint.sign, hed.comparator he, hed.soft he]
  rw [hed.moved_eq he]
  refine h.toBooked.balanced_shift (hed.entered he) ?_ (fun τ => ?_) σ
  · simp [Tag.symbols, ho]
  · simp only [Tag.gap, ho, Option.elim_some, Pi.add_apply, Pi.single_apply, if_true,
      hne.symm, if_false, hsign]
    ring

end Moves

theorem Sound.suggest (h : s.Sound T) (hed : s.Edited T) (v : Variable) (value : Rat) :
    Suggested s T v value (s.suggest v value) := by
  unfold Solver.suggest
  split
  · exact .unknown ‹_›
  · rename_i e he
    obtain ⟨hmx, hmd, o, ho, hox, hod, -⟩ := h.errors hed he
    have hr : ∀ tag c, s.constraints.get? e.constraint.id = some (tag, c) →
        c.isRequired = false := fun tag c hi => by
      obtain ⟨-, rfl⟩ := Prod.mk.inj (Option.some.inj (hi.symm.trans (hed.entered he)))
      exact hed.soft he
    have hsteady : Steady { s with edits := s.edits.insert v { e with target := value } } :=
      h.toSteady.of_eq rfl rfl rfl rfl le_rfl
    have hmarker := h.shift_marker hed he value
    dsimp only
    split
    · rename_i row hrow
      have hsh := shifted_shiftRow hsteady hrow hmx hmd (-(value - e.target))
      rw [neg_neg] at hsh
      exact h.suggested he hsh hmarker hr fun hv => by rw [hv, sub_self]
    · rename_i hfree
      split
      · rename_i y row hy
        rw [ho, Option.bind_some] at hy
        obtain ⟨row', hrow, hp⟩ := Option.map_eq_some_iff.1 hy
        obtain ⟨rfl, rfl⟩ := Prod.mk.inj hp
        have hsh := shifted_shiftRow hsteady hrow hox hod (value - e.target)
        exact h.suggested he hsh (h.shift_other hed he ho value) hr fun hv => by
          rw [hv, sub_self, neg_zero]
      · have hsh := shifted_shiftAll hsteady hfree hmd (value - e.target)
        exact h.suggested he hsh hmarker hr fun hv => by rw [hv, sub_self]

/-! ## Starting and ending an edit -/

/-- The constraint that pulls a variable. -/
def pull (n : Nat) (v : Variable) (w : Rat) : Constraint Rat :=
  Constraint.make (.edit n) (.ofTerm v 1) .equal w

/-- What the start of an edit comes to. -/
inductive EditAdded (s : Solver Rat) (T : ConstraintId → Rat) (v : Variable) (w : Rat) :
    Answer Rat Unit → Prop
  | duplicate (he : s.edits.contains v = true) : EditAdded s T v w (.error .duplicateEdit, s)
  | required (hr : Weight.isRequired (Weight.clip w) = true) :
      EditAdded s T v w (.error .requiredEdit, s)
  | added {s' : Solver Rat} (tag : Tag) (he : s.edits.get? v = none)
      (hr : Weight.isRequired (Weight.clip w) = false)
      (hs : s'.Sound (moved T (.edit (s.editTick + 1)) 0))
      (hed : s'.Edited (moved T (.edit (s.editTick + 1)) 0))
      (hnew : s.constraints.get? (.edit (s.editTick + 1)) = none)
      (hc : s'.constraints =
        s.constraints.insert (.edit (s.editTick + 1)) (tag, pull (s.editTick + 1) v w))
      (hedits : s'.edits = s.edits.insert v ⟨tag, pull (s.editTick + 1) v w, 0⟩)
      (ho : Optimal s'.objective) (hd : s.DummiesIdle → s'.DummiesIdle)
      (hlimit : s'.limit = s.limit) (htick : s'.tick ≤ s.tick + 4) :
      EditAdded s T v w (.ok (), s')
  | exhausted (s' : Solver Rat) (hlim : s.limit < turnBound (s.tick + 4)) :
      EditAdded s T v w (.error .pivotLimit, s')

theorem Edited.of_added (h : s.Edited T) {v : Variable} {w : Rat} (hv : s.edits.get? v = none)
    (hsoft : (pull (s.editTick + 1) v w).isRequired = false)
    (hc : s'.constraints =
      s.constraints.insert (.edit (s.editTick + 1)) (tag, pull (s.editTick + 1) v w))
    (he : s'.edits = s.edits.insert v ⟨tag, pull (s.editTick + 1) v w, 0⟩)
    (ht : s'.editTick = s.editTick + 1) : s'.Edited (moved T (.edit (s.editTick + 1)) 0) := by
  have split : ∀ {u : Variable} {e : Edit Rat}, s'.edits.get? u = some e →
      u = v ∧ e = ⟨tag, pull (s.editTick + 1) v w, 0⟩ ∨ s.edits.get? u = some e := by
    intro u e hu
    rw [he, SortedMap.get?_insert] at hu
    split at hu
    · exact Or.inl ⟨‹_›, (Option.some.inj hu).symm⟩
    · exact Or.inr hu
  have hold : ∀ {u : Variable} {e : Edit Rat}, s.edits.get? u = some e →
      e.constraint.id ≠ .edit (s.editTick + 1) := by
    intro u e hu hid
    have := h.entered hu
    rw [hid] at this
    exact Nat.not_succ_le_self _ (h.numbered this)
  refine ⟨fun n => ?_, fun hu => ?_, fun hu => ?_, fun hu => ?_, fun hu => ?_,
    fun {n p} hn => ?_, fun {n p} hn => ?_⟩
  · rw [moved, Function.update_of_ne (by simp), h.plain]
  · rcases split hu with ⟨rfl, rfl⟩ | hu
    · exact Function.update_self ..
    · rw [moved, Function.update_of_ne (hold hu)]
      exact h.pulls hu
  · rw [hc, SortedMap.get?_insert]
    rcases split hu with ⟨rfl, rfl⟩ | hu
    · exact if_pos rfl
    · rw [if_neg (hold hu)]
      exact h.entered hu
  · rcases split hu with ⟨rfl, rfl⟩ | hu
    · exact ⟨_, _, rfl⟩
    · exact h.form hu
  · rcases split hu with ⟨rfl, rfl⟩ | hu
    · exact hsoft
    · exact h.soft hu
  · rw [hc, SortedMap.get?_insert] at hn
    rw [he]
    split at hn
    · refine ⟨v, ⟨tag, pull (s.editTick + 1) v w, 0⟩, ?_, Eq.symm ‹_›⟩
      rw [SortedMap.get?_insert, if_pos rfl]
    · obtain ⟨u, e, hu, hid⟩ := h.edited hn
      refine ⟨u, e, ?_, hid⟩
      rw [SortedMap.get?_insert, if_neg, hu]
      rintro rfl
      rw [hv] at hu
      simp at hu
  · rw [hc, SortedMap.get?_insert] at hn
    rw [ht]
    split at hn
    · rename_i hid
      obtain rfl := ConstraintId.edit.inj hid
      exact le_rfl
    · exact (h.numbered hn).trans (Nat.le_succ _)

/-- The number of the next edit constraint is not taken. -/
theorem Edited.next_free (h : s.Edited T) :
    s.constraints.get? (.edit (s.editTick + 1)) = none := by
  cases hp : s.constraints.get? (.edit (s.editTick + 1)) with
  | none => rfl
  | some p => exact absurd (h.numbered hp) (Nat.not_succ_le_self _)

/-- A solver that has numbered its next edit constraint is sound, with a pull to zero for it. -/
theorem Sound.numbered (h : s.Sound T) (hed : s.Edited T) :
    Sound { s with editTick := s.editTick + 1 } (moved T (.edit (s.editTick + 1)) 0) := by
  have hT : ∀ id p, s.constraints.get? id = some p →
      moved T (.edit (s.editTick + 1)) 0 id = T id := by
    intro id p hi
    refine Function.update_of_ne ?_ 0 T
    rintro rfl
    rw [hed.next_free] at hi
    simp at hi
  exact (h.retarget hT).with_edits s.edits (s.editTick + 1)

theorem Sound.addEdit (h : s.Sound T) (hed : s.Edited T) (v : Variable) (w : Rat) :
    EditAdded s T v w (s.addEdit v w) := by
  unfold Solver.addEdit
  split
  · exact .duplicate ‹_›
  · rename_i hv
    have hv := (SortedMap.contains_eq_false_iff _).1 (Bool.not_eq_true _ ▸ hv)
    dsimp only
    split
    · exact .required ‹_›
    · rename_i hr
      have hr := Bool.eq_false_iff.2 hr
      have hpull : Constraint.make (.edit (s.editTick + 1)) (Expression.ofTerm v 1) .equal
          (Weight.clip w) = pull (s.editTick + 1) v w := by
        rw [pull, Constraint.make, Constraint.make, Weight.clip_clip]
      have hsoft : (pull (s.editTick + 1) v w).isRequired = false := hr
      have hnew := hed.next_free
      have hadd := (h.numbered hed).add (pull (s.editTick + 1) v w) (Function.update_self ..)
        (Constraint.make_weight_nonneg _ _ _ _)
      rw [hpull]
      generalize Solver.add { s with editTick := s.editTick + 1 } (pull (s.editTick + 1) v w) = r
        at hadd
      cases hadd with
      | duplicate hc =>
        have hc : s.constraints.contains (.edit (s.editTick + 1)) = true := hc
        rw [(SortedMap.contains_eq_false_iff _).2 hnew] at hc
        simp at hc
      | @accepted s' tag hnew' hc hs' ho hd hk =>
        have hc : s'.constraints =
            s.constraints.insert (.edit (s.editTick + 1)) (tag, pull (s.editTick + 1) v w) := hc
        have hget : s'.constraints.get? (.edit (s.editTick + 1)) =
            some (tag, pull (s.editTick + 1) v w) := by
          rw [hc, SortedMap.get?_insert, if_pos rfl]
        simp only [hget, hk.edits]
        exact .added tag hv hr (hs'.with_edits _ s'.editTick)
          (hed.of_added hv hsoft hc rfl hk.editTick) hnew hc rfl ho hd hk.limit hk.tick
      | refused hr' _ _ _ _ _ _ =>
        rw [hsoft] at hr'
        simp at hr'
      | exhausted s' hlim => exact .exhausted s' hlim

/-- A symbol that is no dummy hangs on no idle dummy. -/
theorem DummiesIdle.not_uses (h : s.DummiesIdle) (hx : x.isDummy = false) :
    ∀ y r, s.rows.get? y = some r → y.isDummy = true → ¬ r.Uses x := by
  intro y r hy hyd hu
  rw [(h y r hy hyd).2 x hu] at hx
  simp at hx

/-- What the end of an edit comes to. -/
inductive EditRemoved (s : Solver Rat) (T : ConstraintId → Rat) (v : Variable) :
    Answer Rat Unit → Prop
  | unknown (he : s.edits.get? v = none) : EditRemoved s T v (.error .unknownEdit, s)
  | removed {s' : Solver Rat} (e : Edit Rat) (he : s.edits.get? v = some e) (hs : s'.Sound T)
      (hed : s'.Edited T) (hc : s'.constraints = s.constraints.erase e.constraint.id)
      (hedits : s'.edits = s.edits.erase v) (ho : Optimal s'.objective)
      (hd : s.DummiesIdle → s'.DummiesIdle) (hlimit : s'.limit = s.limit)
      (htick : s'.tick ≤ s.tick) : EditRemoved s T v (.ok (), s')
  | exhausted (s' : Solver Rat) (hlim : s.limit < turnBound s.tick) :
      EditRemoved s T v (.error .pivotLimit, s')

theorem Edited.of_removed (h : s.Edited T) {v : Variable} {e : Edit Rat}
    (hv : s.edits.get? v = some e) (hc : s'.constraints = s.constraints.erase e.constraint.id)
    (he : s'.edits = s.edits.erase v) (ht : s'.editTick = s.editTick) : s'.Edited T := by
  have sub : ∀ {w : Variable} {e' : Edit Rat}, s'.edits.get? w = some e' →
      w ≠ v ∧ s.edits.get? w = some e' := by
    intro w e' hw
    rw [he, SortedMap.get?_erase] at hw
    split at hw
    · simp at hw
    · exact ⟨‹_›, hw⟩
  have subc : ∀ {id : ConstraintId} {p : Tag × Constraint Rat}, s'.constraints.get? id = some p →
      id ≠ e.constraint.id ∧ s.constraints.get? id = some p := by
    intro id p hi
    rw [hc, SortedMap.get?_erase] at hi
    split at hi
    · simp at hi
    · exact ⟨‹_›, hi⟩
  refine ⟨h.plain, fun hw => h.pulls (sub hw).2, fun hw => ?_, fun hw => h.form (sub hw).2,
    fun hw => h.soft (sub hw).2, fun hn => ?_, fun hn => ht ▸ h.numbered (subc hn).2⟩
  · obtain ⟨hne, hw⟩ := sub hw
    rw [hc, SortedMap.get?_erase, if_neg fun hid => hne (h.own hw hv hid)]
    exact h.entered hw
  · obtain ⟨hne, hn⟩ := subc hn
    obtain ⟨w, e', hw, hid⟩ := h.edited hn
    refine ⟨w, e', ?_, hid⟩
    rw [he, SortedMap.get?_erase, if_neg, hw]
    rintro rfl
    obtain rfl := Option.some.inj (hw.symm.trans hv)
    exact hne hid.symm

theorem Sound.removeEdit (h : s.Sound T) (hed : s.Edited T) (v : Variable) :
    EditRemoved s T v (s.removeEdit v) := by
  unfold Solver.removeEdit
  split
  · exact .unknown ‹_›
  · rename_i e he
    have hs := h.with_edits (s.edits.erase v) s.editTick
    have hentered := hed.entered he
    have hrem := hs.remove e.constraint.id
    generalize Solver.remove { s with edits := s.edits.erase v } e.constraint.id = r at hrem
    cases hrem with
    | unknown hc =>
      have hc : s.constraints.get? e.constraint.id = none := hc
      rw [hentered] at hc
      simp at hc
    | @taken s' tag c hc hcons hs' ho hd hk =>
      have hc : s.constraints.get? e.constraint.id = some (tag, c) := hc
      obtain ⟨rfl, rfl⟩ := Prod.mk.inj (Option.some.inj (hc.symm.trans hentered))
      exact .removed e he hs' (hed.of_removed he hcons hk.edits hk.editTick) hcons hk.edits ho
        (fun hi => hd hi (DummiesIdle.not_uses hi (h.errors hed he).2.1)) hk.limit hk.tick
    | exhausted s' hlim => exact .exhausted s' hlim

/-! ## A solver without constraints -/

theorem allRows_empty {P : Row Rat → Prop} (h : P (.ofConstant 0)) (limit : Nat) :
    (Solver.empty limit).AllRows P :=
  ⟨fun _ _ hr => by simp [Solver.empty] at hr, h, fun _ hr => by simp [Solver.empty] at hr⟩

theorem sound_empty (T : ConstraintId → Rat) (limit : Nat) :
    (Solver.empty limit).Sound T := by
  have hr : ∀ y, (Solver.empty limit : Solver Rat).rows.get? y = none := fun _ => rfl
  have hn : ∀ v, (Solver.empty limit : Solver Rat).symbols.get? v = none := fun _ => rfl
  have hc : ∀ id, (Solver.empty limit : Solver Rat).constraints.get? id = none := fun _ => rfl
  have htidy : (Solver.empty limit : Solver Rat).Tidy :=
    ⟨allRows_empty (Row.within_ofConstant _ 0) limit,
      allRows_empty (Row.within_ofConstant _ 0) limit, fun y r h => by simp [hr] at h⟩
  have hsteady : (Solver.empty limit : Solver Rat).Steady :=
    ⟨⟨htidy, allRows_empty (Row.clean_ofConstant 0) limit, fun y r h => by simp [hr] at h⟩,
      fun y r h => by simp [hr] at h, rfl⟩
  have hbooked : (Solver.empty limit : Solver Rat).Booked :=
    ⟨⟨fun h => by simp [hn] at h, fun h => by simp [hn] at h, fun h => by simp [hn] at h⟩,
      fun h => by simp [hc] at h, fun h => by simp [hc] at h, fun h => by simp [hc] at h,
      fun h => by simp [hc] at h, fun h => by simp [hc] at h, fun h => by simp [hc] at h⟩
  exact ⟨hsteady, hbooked, rfl,
    fun σ => ⟨fun _ id tag c h => by simp [hc] at h, fun _ y r h => by simp [hr] at h⟩,
    0, fun σ _ => by simp [Solver.empty, cost, prices, Row.eval, Row.slope, Row.ofConstant]⟩

theorem edited_empty (limit : Nat) : (Solver.empty limit).Edited fun _ => 0 := by
  have hc : ∀ id, (Solver.empty limit : Solver Rat).constraints.get? id = none := fun _ => rfl
  have he : ∀ v, (Solver.empty limit : Solver Rat).edits.get? v = none := fun _ => rfl
  exact ⟨fun _ => rfl, fun h => by simp [he] at h, fun h => by simp [he] at h,
    fun h => by simp [he] at h, fun h => by simp [he] at h, fun h => by simp [hc] at h,
    fun h => by simp [hc] at h⟩

theorem dummiesIdle_empty (limit : Nat) : (Solver.empty limit : Solver Rat).DummiesIdle :=
  fun y r h => by simp [Solver.empty] at h

end Solver

end RegionLayout
