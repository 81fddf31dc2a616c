-- Adding a constraint. It is taken with its symbols and the tableau is sound and optimal with
-- it, or it is refused and the tableau is sound without it. A constraint that is refused is
-- required, and nothing satisfies it together with the required ones before it.
import RegionLayout.Proofs.Solver.Entering

namespace RegionLayout

open Solver

namespace Solver

variable {s s' s₁ s₂ : Solver Rat} {T : ConstraintId → Rat} {row : Row Rat} {tag : Tag}
  {c : Constraint Rat} {k : Rat}

/-- What a change of the constraints leaves alone, and how many symbols it may make. -/
structure Carried (n : Nat) (s s' : Solver Rat) : Prop where
  edits : s'.edits = s.edits
  editTick : s'.editTick = s.editTick
  limit : s'.limit = s.limit
  tick : s'.tick ≤ s.tick + n

/-! ## Optimising -/

theorem Sound.optimize (h : s.Sound T) : ∃ s', Pivoted s s' ∧ s'.Sound T ∧
    (s.DummiesIdle → s'.DummiesIdle) ∧
    (s.optimize .primary = (.ok (), s') ∧ Optimal s'.objective ∨
      s.optimize .primary = (.error .pivotLimit, s') ∧ s.limit < turnBound s.tick) := by
  obtain ⟨s', hs', hp, hd, ⟨hrun, ho⟩ | hrun⟩ := h.toSteady.optimize
    (show s.goalRow? .primary = some s.objective from rfl) h.priced h.measures
  · exact ⟨s', hp, h.of_pivoted hp hs', hd, Or.inl ⟨hrun, ho _ rfl⟩⟩
  · refine ⟨s', hp, h.of_pivoted hp hs', hd, Or.inr ⟨hrun, ?_⟩⟩
    by_contra hlim
    exact h.toSteady.optimize_ends (not_lt.1 hlim) .primary (by rw [hrun])

/-! ## A constraint in the books -/

theorem Booked.insert (h : s.Booked) (hd : Drafted s c row tag s₁ k) (hw : 0 ≤ c.weight)
    (hc : s'.constraints = s.constraints.insert c.id (tag, c)) (hs : s'.symbols = s₁.symbols)
    (ht : s₁.tick ≤ s'.tick) : s'.Booked := by
  have split : ∀ {id : ConstraintId} {tag' : Tag} {c' : Constraint Rat},
      s'.constraints.get? id = some (tag', c') →
        (id = c.id ∧ tag' = tag ∧ c' = c) ∨ s.constraints.get? id = some (tag', c') := by
    intro id tag' c' hi
    rw [hc, SortedMap.get?_insert] at hi
    split at hi
    · obtain ⟨rfl, rfl⟩ := Prod.mk.inj (Option.some.inj hi)
      exact Or.inl ⟨‹_›, rfl, rfl⟩
    · exact Or.inr hi
  refine ⟨⟨fun hv => ?_, fun hv => ?_, fun hv hv' => ?_⟩, fun hi => ?_, fun hi => ?_,
    fun hi => ?_, fun hi hn => ?_, fun hi hy => ?_, fun hi hi' hy hy' => ?_⟩
  · exact hd.named.external (hs ▸ hv)
  · exact (hd.named.before (hs ▸ hv)).trans ht
  · exact hd.named.own (hs ▸ hv) (hs ▸ hv')
  · rcases split hi with ⟨rfl, -, rfl⟩ | hi
    · rfl
    · exact h.ids hi
  · rcases split hi with ⟨-, rfl, rfl⟩ | hi
    · exact hd.fits
    · exact h.fits hi
  · rcases split hi with ⟨-, -, rfl⟩ | hi
    · exact hw
    · exact h.weight hi
  · rw [hs]
    rcases split hi with ⟨-, -, rfl⟩ | hi
    · exact hd.names hn
    · obtain ⟨y, hy⟩ := h.names hi hn
      exact ⟨y, hd.kept hy⟩
  · rcases split hi with ⟨-, rfl, -⟩ | hi
    · exact (hd.fresh _ hy).2.trans ht
    · exact ((h.made hi hy).trans hd.tick).trans ht
  · rcases split hi with ⟨rfl, rfl, rfl⟩ | hi <;> rcases split hi' with ⟨rfl, rfl, rfl⟩ | hi'
    · rfl
    · exact absurd (h.made hi' hy') (not_le.2 (hd.fresh _ hy).1)
    · exact absurd (h.made hi hy) (not_le.2 (hd.fresh _ hy').1)
    · exact h.owner hi hi' hy hy'

/-- A constraint reads the same where its variables kept their symbols. -/
theorem Booked.eval_of_kept (h : s.Booked) {id : ConstraintId}
    (hc : s.constraints.get? id = some (tag, c))
    (hk : ∀ {v y}, s.symbols.get? v = some y → s'.symbols.get? v = some y) (σ : Symbol → Rat) :
    c.expression.eval (s'.read σ) = c.expression.eval (s.read σ) :=
  Expression.eval_congr fun _ hv => read_of_kept hk (h.names hc hv) σ

theorem Booked.balanced_of_kept (h : s.Booked) (hc : s'.constraints = s.constraints)
    (hk : ∀ {v y}, s.symbols.get? v = some y → s'.symbols.get? v = some y) (σ : Symbol → Rat) :
    s'.Balanced T σ ↔ s.Balanced T σ := by
  unfold Balanced Balances
  rw [hc]
  refine forall_congr' fun id => forall_congr' fun tag => forall_congr' fun c => ?_
  refine imp_congr_right fun hi => ?_
  rw [h.eval_of_kept hi hk σ]

theorem Booked.balanced_insert (h : s.Booked) (hnew : s.constraints.get? c.id = none)
    (hc : s'.constraints = s.constraints.insert c.id (tag, c))
    (hk : ∀ {v y}, s.symbols.get? v = some y → s'.symbols.get? v = some y) (σ : Symbol → Rat) :
    s'.Balanced T σ ↔ s.Balanced T σ ∧ s'.Balances T σ c.id tag c := by
  constructor
  · intro hb
    refine ⟨fun id tag' c' hi => ?_, hb c.id tag c (by rw [hc, SortedMap.get?_insert, if_pos rfl])⟩
    have hne : id ≠ c.id := by
      rintro rfl
      rw [hnew] at hi
      simp at hi
    have := hb id tag' c' (by rw [hc, SortedMap.get?_insert, if_neg hne, hi])
    rwa [Balances, h.eval_of_kept hi hk σ] at this
  · rintro ⟨hb, hn⟩ id tag' c' hi
    rw [hc, SortedMap.get?_insert] at hi
    split at hi
    · obtain ⟨rfl, rfl⟩ := Prod.mk.inj (Option.some.inj hi)
      subst id
      exact hn
    · have := hb id tag' c' hi
      rwa [Balances, ← h.eval_of_kept hi hk σ] at this

theorem cost_prices_insert (hnew : s.constraints.get? c.id = none)
    (hc : s'.constraints = s.constraints.insert c.id (tag, c)) (σ : Symbol → Rat) :
    cost s'.prices σ = cost s.prices σ + c.weight * tag.strain σ := by
  have h := SortedMap.sum_alter
    (fun (_ : ConstraintId) (e : Tag × Constraint Rat) => e.2.weight * e.1.strain σ)
    s.constraints c.id fun _ => some (tag, c)
  rw [cost_prices, cost_prices, hc, SortedMap.insert, h, hnew]
  simp

/-! ## The tableau with the constraint and without it -/

/-- On the solutions of the tableau the row is zero where the constraint balances. -/
theorem Drafted.eval_eq_zero_iff (hd : Drafted s c row tag s₁ k) (hT : T c.id = 0)
    {σ : Symbol → Rat} (hσ : s.Solves σ) :
    row.eval σ = 0 ↔ s₁.Balances T σ c.id tag c := by
  have hk : k ≠ 0 := by rcases hd.sign with rfl | rfl <;> norm_num
  rw [hd.eval σ hσ, Balances, hT, mul_eq_zero, sub_zero]
  simp [hk]

theorem Drafted.solves (hd : Drafted s c row tag s₁ k) (σ : Symbol → Rat) :
    s₁.Solves σ ↔ s.Solves σ := by
  unfold Solves
  rw [hd.rows]

/-- With the row of a constraint the tableau is sound for one constraint more. -/
theorem Sound.enter (h : s.Sound T) (hd : Drafted s c row tag s₁ k)
    (hn : Narrowed s₁ (fun σ => row.eval σ = 0) s₂) (hnew : s.constraints.get? c.id = none)
    (hT : T c.id = 0) (hw : 0 ≤ c.weight) :
    Sound { s₂ with constraints := s₂.constraints.insert c.id (tag, c) } T := by
  have hcons : s₂.constraints = s.constraints := by rw [hn.frame, hd.frame]
  have hsym : s₂.symbols = s₁.symbols := by rw [hn.frame]
  have hkept : ∀ {v y}, s.symbols.get? v = some y → s₂.symbols.get? v = some y := fun hv => by
    rw [hsym]
    exact hd.kept hv
  set s' : Solver Rat := { s₂ with constraints := s₂.constraints.insert c.id (tag, c) } with hs'
  have hc' : s'.constraints = s.constraints.insert c.id (tag, c) := by rw [hs', ← hcons]
  have hread : ∀ σ, s'.read σ = s₁.read σ := fun σ => read_of_eq hsym
  refine ⟨hn.steady.of_eq rfl rfl rfl rfl le_rfl, h.toBooked.insert hd hw hc' hsym hn.tick,
    hn.search, fun σ => ?_, ?_⟩
  · change s₂.Solves σ ↔ _
    rw [hn.solves, hd.solves, h.toBooked.balanced_insert hnew hc' hkept, ← h.solves]
    refine and_congr_right fun hσ => ?_
    rw [hd.eval_eq_zero_iff hT hσ, Balances, Balances, hread]
  · obtain ⟨j, hj⟩ := h.measures
    refine ⟨j, fun σ hσ => ?_⟩
    have hσ₂ : s₂.Solves σ := hσ
    change s₂.objective.eval σ = _
    rw [cost_prices_insert hnew hc', hn.objective σ hσ₂, hd.cost,
      hj σ ((hd.solves σ).1 ((hn.solves σ).1 hσ₂).1)]
    ring

/-- Where the row of a required constraint stays out, the tableau is sound as before. -/
theorem Sound.leave (h : s.Sound T) (hd : Drafted s c row tag s₁ k)
    (hn : Narrowed s₁ (fun _ => True) s₂) (hr : c.isRequired = true) : s₂.Sound T := by
  have hcons : s₂.constraints = s.constraints := by rw [hn.frame, hd.frame]
  have hsym : s₂.symbols = s₁.symbols := by rw [hn.frame]
  have hkept : ∀ {v y}, s.symbols.get? v = some y → s₂.symbols.get? v = some y := fun hv => by
    rw [hsym]
    exact hd.kept hv
  have hbooked : Booked { s₁ with constraints := s.constraints } :=
    ⟨⟨hd.named.external, hd.named.before, hd.named.own⟩, h.ids, h.fits, h.weight,
      fun hi hv => (h.names hi hv).imp fun _ hy => hd.kept hy,
      fun hi hy => (h.made hi hy).trans hd.tick, h.owner⟩
  refine ⟨hn.steady, hbooked.of_eq hcons hsym hn.tick, hn.search, fun σ => ?_, ?_⟩
  · rw [hn.solves, hd.solves, h.toBooked.balanced_of_kept hcons hkept, ← h.solves, and_true]
  · obtain ⟨j, hj⟩ := h.measures
    refine ⟨j, fun σ hσ => ?_⟩
    rw [hn.objective σ hσ, hd.cost, Tag.strain_of_required hd.fits hr, mul_zero, add_zero,
      hj σ ((hd.solves σ).1 ((hn.solves σ).1 hσ).1), prices, prices, hcons]

theorem discharge_of_required (h : tag.Fits c) (hr : c.isRequired = true) (s : Solver Rat)
    (w : Rat) : s.discharge w tag = s := by
  have hm : (tag.marker.kind == SymbolKind.error) = false := by
    rw [h.marker, hr]
    split <;> rfl
  simp [discharge, h.required hr, hm]

/-! ## Adding -/

/-- What the addition of a constraint comes to. -/
inductive Added (s : Solver Rat) (T : ConstraintId → Rat) (c : Constraint Rat) :
    Answer Rat Unit → Prop
  | duplicate (hc : s.constraints.contains c.id = true) : Added s T c (.error .duplicateConstraint, s)
  | accepted {s' : Solver Rat} (tag : Tag) (hnew : s.constraints.get? c.id = none)
      (hc : s'.constraints = s.constraints.insert c.id (tag, c)) (hs : s'.Sound T)
      (ho : Optimal s'.objective) (hd : s.DummiesIdle → s'.DummiesIdle)
      (hk : Carried (c.expression.terms.length + 3) s s') : Added s T c (.ok (), s')
  | refused {s' : Solver Rat} (hr : c.isRequired = true) (hnew : s.constraints.get? c.id = none)
      (hc : s'.constraints = s.constraints) (hs : s'.Sound T)
      (hd : s.DummiesIdle → s'.DummiesIdle)
      (hno : s.DummiesIdle → ¬ ∃ x, s.Meets T x ∧ c.comparator.Holds (c.expression.eval x))
      (hk : Carried (c.expression.terms.length + 3) s s') : Added s T c (.error .unsatisfiable, s')
  | exhausted (s' : Solver Rat)
      (hlim : s.limit < turnBound (s.tick + (c.expression.terms.length + 3))) :
      Added s T c (.error .pivotLimit, s')

theorem turnBound_mono {m n : Nat} (h : m ≤ n) : turnBound m ≤ turnBound n :=
  Nat.pow_le_pow_right (by decide) (by omega)

theorem Drafted.carried (hd : Drafted s c row tag s₁ k) {P : (Symbol → Rat) → Prop}
    (hn : Narrowed s₁ P s₂) : Carried (c.expression.terms.length + 3) s s₂ := by
  refine ⟨by rw [hn.frame, hd.frame], by rw [hn.frame, hd.frame], by rw [hn.frame, hd.frame], ?_⟩
  have := hd.bound
  have := hn.bound
  omega

theorem Drafted.idle (hd : Drafted s c row tag s₁ k) (h : s.DummiesIdle) : s₁.DummiesIdle := by
  unfold DummiesIdle
  rw [hd.rows]
  exact h

/-- A constraint whose row is in the tableau is taken. -/
theorem Sound.added_accept (h : s.Sound T) (hd : Drafted s c row tag s₁ k)
    (hn : Narrowed s₁ (fun σ => row.eval σ = 0) s₂) (hnew : s.constraints.get? c.id = none)
    (hT : T c.id = 0) (hw : 0 ≤ c.weight) : Added s T c (s₂.accept c tag) := by
  obtain ⟨s', hp, hs', hidle, ⟨hrun, ho⟩ | ⟨hrun, hlim⟩⟩ :=
    (h.enter hd hn hnew hT hw).optimize
  · have hk := hd.carried hn
    have hcons : s₂.constraints = s.constraints := by rw [hn.frame, hd.frame]
    rw [Solver.accept, hrun]
    refine .accepted tag hnew ?_ hs' ho (fun hi => hidle (hn.idle (hd.idle hi))) ?_
    · rw [hp.frame, ← hcons]
    · exact ⟨by rw [hp.frame]; exact hk.edits, by rw [hp.frame]; exact hk.editTick,
        by rw [hp.frame]; exact hk.limit, by rw [hp.frame]; exact hk.tick⟩
  · rw [Solver.accept, hrun]
    have hk := hd.carried hn
    refine .exhausted s' (lt_of_lt_of_le ?_ (turnBound_mono hk.tick))
    rw [← hk.limit]
    exact hlim

/-- An assignment that satisfies the constraint as well makes its row zero. -/
theorem Sound.exists_admissible (h : s.Sound T) (hd : Drafted s c row tag s₁ k)
    (hnew : s.constraints.get? c.id = none) (hT : T c.id = 0) (hw : 0 ≤ c.weight)
    {x : Variable → Rat} (hx : s.Meets T x) (hc : c.comparator.Holds (c.expression.eval x)) :
    ∃ σ, s₁.Solves σ ∧ Admissible σ ∧ row.eval σ = 0 := by
  set s' : Solver Rat := { s₁ with constraints := s.constraints.insert c.id (tag, c) } with hs'
  have hb : s'.Booked := h.toBooked.insert hd hw rfl rfl le_rfl
  have hm : s'.Meets T x := by
    intro id tag' c' hi hr
    rw [hs', SortedMap.get?_insert] at hi
    split at hi
    · obtain ⟨rfl, rfl⟩ := Prod.mk.inj (Option.some.inj hi)
      subst id
      rwa [hT, sub_zero]
    · exact hx id tag' c' hi hr
  have hcons : s'.constraints = s.constraints.insert c.id (tag, c) := rfl
  obtain ⟨hbal, hnewbal⟩ :=
    (h.toBooked.balanced_insert hnew hcons hd.kept _).1 (hb.balanced_lift hm)
  have hσ := (h.solves _).2 hbal
  exact ⟨_, (hd.solves _).2 hσ, hb.admissible_lift hm, (hd.eval_eq_zero_iff hT hσ).2 hnewbal⟩

/-- A constraint that may be violated always has a subject: one of its errors. -/
theorem Drafted.required (hd : Drafted s c row tag s₁ k) (hn : subject? row tag = none) :
    c.isRequired = true := by
  by_contra hr
  rw [Bool.not_eq_true] at hr
  obtain ⟨y, hy, hk, -⟩ := hd.fits.soft hr
  obtain ⟨-, hpos⟩ := subject?_eq_none hn
  have hmp : tag.marker.isPivotable = true := by
    have := hd.fits.marker
    by_cases he : c.comparator = .equal <;> simp_all [Symbol.isPivotable]
  have hm := hpos _ tag.marker_mem hmp
  have ho := hpos y (by simp [Tag.symbols, hy]) (by simp [Symbol.isPivotable, hk])
  rw [hd.marker] at hm
  rw [hd.other hy] at ho
  rcases hd.sign with rfl | rfl <;> rcases c.sign_cases with h | h <;> rw [h] at hm ho <;>
    linarith

theorem Drafted.search (hd : Drafted s c row tag s₁ k) (h : s.artificial = none) :
    s₁.artificial = none := by
  rw [hd.frame]
  exact h

/-- A symbol of the constraint stands in no row but its own. -/
theorem Drafted.absent (hd : Drafted s c row tag s₁ k) (hs : s.Tidy) {x y : Symbol}
    (hx : x ∈ tag.symbols) {r : Row Rat} (hy : s₁.rows.get? y = some r) : ¬ r.Uses x :=
  (hs.absent (hd.fresh x hx).1).rows y r (hd.rows ▸ hy)

theorem Drafted.narrowed_subject (hd : Drafted s c row tag s₁ k) (hs : s.Tidy)
    (ha : s.artificial = none) (h0 : 0 ≤ row.constant) {x : Symbol}
    (hx : subject? row tag = some x) :
    Narrowed s₁ (fun σ => row.eval σ = 0) (s₁.install x (row.solveFor x)) := by
  obtain ⟨hu, hxe | ⟨hin, hm, hp, hneg⟩⟩ := subject?_eq_some hx
  · refine narrowed_install hd.steady (hd.search ha) hd.suits hu (fun y r hy hye hur => ?_)
      (fun h => ?_) (fun h => ?_) fun h => ?_
    · rw [hd.steady.bound y r hy hye x hur] at hxe
      simp at hxe
    · rw [h] at hxe
      simp at hxe
    · rw [h] at hxe
      simp at hxe
    · rw [Symbol.isExternal_of_isDummy h] at hxe
      simp at hxe
  · refine narrowed_install hd.steady (hd.search ha) hd.suits hu
      (fun y r hy _ => hd.absent hs hm hy) (fun _ => hin) (fun _ => ?_) fun h => ?_
    · exact div_nonneg_of_nonpos (by linarith) hneg.le
    · obtain ⟨_, kind⟩ := x
      cases kind <;> simp_all [Symbol.isDummy, Symbol.isPivotable]

theorem Drafted.narrowed_marker (hd : Drafted s c row tag s₁ k) (hs : s.Tidy)
    (ha : s.artificial = none) (hall : row.allDummies = true) (h0 : row.constant = 0) :
    Narrowed s₁ (fun σ => row.eval σ = 0) (s₁.install tag.marker (row.solveFor tag.marker)) := by
  have hw := Row.allDummies_eq_true_iff.1 hall
  have hu : row.Uses tag.marker := by
    apply Row.uses_of_coefficient_ne
    rw [hd.marker]
    rcases hd.sign with rfl | rfl <;> rcases c.sign_cases with h | h <;> rw [h] <;> norm_num
  refine narrowed_install hd.steady (hd.search ha) hd.suits hu
    (fun y r hy _ => hd.absent hs tag.marker_mem hy)
    (fun _ => hw.mono fun y hy => Symbol.isExternal_of_isDummy hy) (fun _ => ?_)
    fun _ => ⟨h0, hw⟩
  simp [h0]

theorem narrowed_refl (hs : s.Steady) (ha : s.artificial = none) :
    Narrowed s (fun _ => True) s :=
  ⟨hs, rfl, le_rfl, Nat.le_succ _, ha, by simp, fun _ _ => rfl, id⟩

/-- A constraint whose row stays out is refused. -/
theorem Sound.added_refuse (h : s.Sound T) (hd : Drafted s c row tag s₁ k)
    (hn : Narrowed s₁ (fun _ => True) s₂) (hr : c.isRequired = true)
    (hnew : s.constraints.get? c.id = none) (hT : T c.id = 0) (hw : 0 ≤ c.weight)
    (hno : s₁.DummiesIdle → ¬ ∃ σ, s₁.Solves σ ∧ Admissible σ ∧ row.eval σ = 0) :
    Added s T c (s₂.refuse c tag) := by
  rw [Solver.refuse, discharge_of_required hd.fits hr]
  refine .refused hr hnew ?_ (h.leave hd hn hr) (fun hi => hn.idle (hd.idle hi)) ?_ (hd.carried hn)
  · rw [hn.frame, hd.frame]
  · rintro hi ⟨x, hx, hc⟩
    exact hno (hd.idle hi) (h.exists_admissible hd hnew hT hw hx hc)

theorem Sound.add (h : s.Sound T) (c : Constraint Rat) (hT : T c.id = 0) (hw : 0 ≤ c.weight) :
    Added s T c (s.add c) := by
  unfold Solver.add
  split
  · exact .duplicate ‹_›
  · rename_i hc
    have hnew := (SortedMap.contains_eq_false_iff _).1 (Bool.not_eq_true _ ▸ hc)
    obtain ⟨row, tag, s₁, k, heq, hd, h0⟩ := createRow_spec h.toSteady h.toNamed c
    simp only [heq]
    split
    · rename_i x hx
      exact h.added_accept hd (hd.narrowed_subject h.toTidy h.search h0 hx) hnew hT hw
    · rename_i hx
      have hr := hd.required hx
      split
      · rename_i hall
        split
        · rename_i hz
          exact h.added_accept hd
            (hd.narrowed_marker h.toTidy h.search hall (Row.nearZero_iff.1 hz)) hnew hT hw
        · rename_i hz
          refine h.added_refuse hd (narrowed_refl hd.steady (hd.search h.search)) hr hnew hT hw ?_
          rintro - ⟨σ, -, ⟨-, hσ⟩, hrow⟩
          refine hz (Row.nearZero_iff.2 ?_)
          rw [← hrow, ← Row.eval_zero]
          exact Row.eval_congr fun y hy => (hσ y (Row.allDummies_eq_true_iff.1 hall y hy)).symm
      · rename_i hall
        obtain ⟨t, ⟨hrun, hn⟩ | ⟨hrun, hn, hno⟩ | ⟨hrun, hlim⟩⟩ :=
          addArtificial_spec hd.steady hd.suits (subject?_eq_none hx).1 h0
        · simp only [hrun]
          exact h.added_accept hd hn hnew hT hw
        · simp only [hrun]
          exact h.added_refuse hd hn hr hnew hT hw fun hi => hno hi (Bool.eq_false_iff.2 hall)
        · simp only [hrun]
          refine .exhausted t (lt_of_lt_of_le ?_ (turnBound_mono (m := s₁.tick + 1) ?_))
          · rw [hd.frame] at hlim
            exact hlim
          · have := hd.bound
            omega

end Solver

end RegionLayout
