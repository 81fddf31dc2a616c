-- The solver of a model under the calls that change it. It is kept sound, and what its required
-- constraints ask of the variables is known after each step. A call of the solver either does
-- its work, is turned down for a reason, or has used up its turns.
import RegionLayout.Proofs.Model.Changes
import RegionLayout.Proofs.Model.Layouts
import RegionLayout.Proofs.Solver.Editing

namespace RegionLayout

open Solver

namespace Model

variable {m m' : Model Rat} {P P' : (Variable → Rat) → Prop}

/-! ## The solver of a model -/

/-- The model gave the number out, and a constraint that has it is not required. -/
def Loose (m : Model Rat) (id : ConstraintId) : Prop :=
  ∃ n < m.nextConstraint, id = .declared n ∧
    ∀ p, m.solver.constraints.get? id = some p → p.2.isRequired = false

/-- The solver is sound, and `P` is what its constraints ask of the variables. Its constraints
and edit variables have numbers that were given out, and a constraint that only holds a variable
down is not required. -/
structure Kept (m : Model Rat) (P : (Variable → Rat) → Prop) : Prop where
  sound : ∃ T, m.solver.Sound T ∧ m.solver.Edited T
  idle : m.solver.DummiesIdle
  asks : ∀ x, m.solver.Asks x ↔ P x
  named : ∀ {n p v}, m.solver.constraints.get? (.declared n) = some p → p.2.expression.Names v →
    v.id < m.nextVariable
  numbered : ∀ {n p}, m.solver.constraints.get? (.declared n) = some p → n < m.nextConstraint
  pulled : ∀ {v e}, m.solver.edits.get? v = some e → v.id < m.nextVariable
  held : ∀ {v id a}, m.bindings.get? v = some (.atMost id a) → m.Loose id

/-- Only the solver of the model and its next constraint are others, and no more than `k`
symbols were made. -/
structure Worked (k : Nat) (m m' : Model Rat) : Prop where
  frame : m' = { m with solver := m'.solver, nextConstraint := m'.nextConstraint }
  limit : m'.solver.limit = m.solver.limit
  tick : m'.solver.tick ≤ m.solver.tick + k

theorem Worked.trans {j k : Nat} {m₁ m₂ m₃ : Model Rat} (h : Worked j m₁ m₂)
    (h' : Worked k m₂ m₃) : Worked (j + k) m₁ m₃ where
  frame := by rw [h'.frame, h.frame]
  limit := h'.limit.trans h.limit
  tick := by
    have := h.tick
    have := h'.tick
    omega

/-- The values of the solver are as its constraints ask. -/
theorem Kept.value (h : m.Kept P) : P m.solver.value := by
  obtain ⟨T, hs, he⟩ := h.sound
  exact (h.asks _).1 (he.meets_iff.1 (hs.meets h.idle))

theorem Kept.congr (h : m.Kept P) (hP : ∀ x, P x ↔ P' x) : m.Kept P' :=
  { h with asks := fun x => (h.asks x).trans (hP x) }

/-- More variables may have been given out, and the bindings may be fewer. -/
theorem Kept.of_eq (h : m.Kept P) (hs : m'.solver = m.solver)
    (hv : m.nextVariable ≤ m'.nextVariable) (hc : m.nextConstraint ≤ m'.nextConstraint)
    (hb : ∀ {v id a}, m'.bindings.get? v = some (.atMost id a) →
      m.bindings.get? v = some (.atMost id a)) : m'.Kept P where
  sound := hs ▸ h.sound
  idle := hs ▸ h.idle
  asks x := hs ▸ h.asks x
  named hi hn := (h.named (hs ▸ hi) hn).trans_le hv
  numbered hi := (h.numbered (hs ▸ hi)).trans_le hc
  pulled he := (h.pulled (hs ▸ he)).trans_le hv
  held hv := by
    obtain ⟨n, hn, hid, hsoft⟩ := h.held (hb hv)
    exact ⟨n, hn.trans_le hc, hid, hs ▸ hsoft⟩

theorem Kept.of_declared (h : m.Kept P) {s : Solver Rat} {T : ConstraintId → Rat}
    (hs : s.Sound T) (he : s.Edited T) (hd : s.DummiesIdle)
    (hc : ∀ n, s.constraints.get? (.declared n) = m.solver.constraints.get? (.declared n))
    (hv : ∀ {v e}, s.edits.get? v = some e → v.id < m.nextVariable) :
    Kept { m with solver := s } P where
  sound := ⟨T, hs, he⟩
  idle := hd
  asks x := (asks_of_eq hc).trans (h.asks x)
  named {n p v} hi hn := by
    have hi : s.constraints.get? (.declared n) = some p := hi
    rw [hc] at hi
    exact h.named hi hn
  numbered {n p} hi := by
    have hi : s.constraints.get? (.declared n) = some p := hi
    rw [hc] at hi
    exact h.numbered hi
  pulled hv' := hv hv'
  held hb := by
    obtain ⟨n, hn, rfl, hsoft⟩ := h.held hb
    refine ⟨n, hn, rfl, fun p hi => hsoft p ?_⟩
    have hi : s.constraints.get? (.declared n) = some p := hi
    rwa [hc] at hi

/-- Values of variables that were not given out yet are not asked for. -/
theorem Kept.local (h : m.Kept P) {x y : Variable → Rat}
    (hxy : ∀ v, v.id < m.nextVariable → x v = y v) (hx : P x) : P y := by
  rw [← h.asks] at hx ⊢
  intro n p hi hr
  rw [← Expression.eval_congr fun v hv => hxy v (h.named hi hv)]
  exact hx n p hi hr

/-! ## Entering a constraint -/

theorem Kept.entered (h : m.Kept P) {s : Solver Rat} {T : ConstraintId → Rat} {tag : Tag}
    {c : Constraint Rat} {k : Nat} (he : m.solver.Edited T)
    (hc : s.constraints =
      m.solver.constraints.insert (.declared m.nextConstraint) (tag, c))
    (hs : s.Sound T) (hd : s.DummiesIdle) (hk : Carried k m.solver s)
    (hnames : ∀ v, c.expression.Names v → v.id < m.nextVariable) :
    Kept { m with solver := s, nextConstraint := m.nextConstraint + 1 }
      fun x => P x ∧ (c.isRequired = true → c.comparator.Holds (c.expression.eval x)) := by
  have hnew : m.solver.constraints.get? (.declared m.nextConstraint) = none := by
    cases hi : m.solver.constraints.get? (.declared m.nextConstraint) with
    | none => rfl
    | some p => exact absurd (h.numbered hi) (lt_irrefl _)
  have split : ∀ {n p}, s.constraints.get? (.declared n) = some p →
      n = m.nextConstraint ∧ p = (tag, c) ∨
        m.solver.constraints.get? (.declared n) = some p := by
    intro n p hi
    rw [hc, SortedMap.get?_insert] at hi
    split at hi
    · exact Or.inl ⟨ConstraintId.declared.inj ‹_›, (Option.some.inj hi).symm⟩
    · exact Or.inr hi
  refine ⟨⟨T, hs, he.of_eq (fun n => ?_) hk.edits hk.editTick⟩, hd, fun x => ?_,
    fun hi hv => ?_, fun hi => ?_, fun hv => ?_, fun {v id a} hb => ?_⟩
  · rw [hc, SortedMap.get?_insert, if_neg (by simp)]
  · rw [asks_insert hnew hc, h.asks]
  · rcases split hi with ⟨-, rfl⟩ | hi
    · exact hnames _ hv
    · exact h.named hi hv
  · rcases split hi with ⟨rfl, -⟩ | hi
    · exact Nat.lt_succ_self _
    · exact (h.numbered hi).trans (Nat.lt_succ_self _)
  · dsimp only at hv
    rw [hk.edits] at hv
    exact h.pulled hv
  · obtain ⟨n, hn, rfl, hsoft⟩ := h.held hb
    refine ⟨n, hn.trans (Nat.lt_succ_self _), rfl, fun p hi => ?_⟩
    rcases split hi with ⟨rfl, -⟩ | hi
    · exact absurd hn (lt_irrefl _)
    · exact hsoft p hi

/-- A new constraint is entered, and the variables can be as it says; or it is turned down, as
it is required and the variables cannot be. -/
theorem Kept.enter (h : m.Kept P) (c : Constraint Rat) (wrap : Fault → LayoutError)
    (hwrap : wrap .pivotLimit = .solver .pivotLimit)
    (hid : c.id = .declared m.nextConstraint) (hw : 0 ≤ c.weight)
    (hnames : ∀ v, c.expression.Names v → v.id < m.nextVariable) :
    Comes (m.solver.limit < turnBound (m.solver.tick + (c.expression.terms.length + 3)))
      (fun e m' => e = wrap .unsatisfiable ∧ c.isRequired = true ∧
        (¬ ∃ x, P x ∧ c.comparator.Holds (c.expression.eval x)) ∧ m'.Kept P ∧
        Worked (c.expression.terms.length + 3) m m')
      (fun _ m' => (m'.Kept fun x =>
          P x ∧ (c.isRequired = true → c.comparator.Holds (c.expression.eval x))) ∧
        (∃ tag, m'.solver.constraints.get? c.id = some (tag, c)) ∧
        Worked (c.expression.terms.length + 3) m m')
      (onSolver wrap (·.add c) { m with nextConstraint := m.nextConstraint + 1 }) := by
  obtain ⟨T, hs, he⟩ := h.sound
  have hadd := hs.add c (by rw [hid]; exact he.plain _) hw
  rw [onSolver_apply]
  dsimp only
  generalize m.solver.add c = r at hadd
  cases hadd with
  | duplicate hc =>
    rw [SortedMap.contains_eq_true_iff, hid] at hc
    obtain ⟨p, hi⟩ := hc
    exact absurd (h.numbered hi) (lt_irrefl _)
  | accepted tag hnew hc hs' ho hd hk =>
    refine .ok ⟨h.entered he (hid ▸ hc) hs' (hd h.idle) hk hnames, ⟨tag, ?_⟩,
      rfl, hk.limit, hk.tick⟩
    dsimp only
    rw [hc, SortedMap.get?_insert, if_pos rfl]
  | refused hr hnew hc hs' hd hno hk =>
    refine .error ⟨rfl, hr, ?_, ?_, rfl, hk.limit, hk.tick⟩
    · rintro ⟨x, hx, hcx⟩
      exact hno h.idle ⟨x, he.meets_iff.2 ((h.asks x).2 hx), hcx⟩
    · have hkept := h.of_declared hs' (he.of_eq (fun n => by rw [hc]) hk.edits hk.editTick)
        (hd h.idle) (fun n => by rw [hc]) fun hu => h.pulled (hk.edits ▸ hu)
      exact hkept.of_eq rfl le_rfl (Nat.le_succ _) id
  | exhausted s' hlim =>
    rw [Except.mapError, hwrap]
    exact .spent hlim

/-! ## Taking a soft constraint back -/

theorem Kept.removed (h : m.Kept P) {s : Solver Rat} {T : ConstraintId → Rat} {n k : Nat}
    (he : m.solver.Edited T)
    (hsoft : ∀ p, m.solver.constraints.get? (.declared n) = some p → p.2.isRequired = false)
    (hc : s.constraints = m.solver.constraints.erase (.declared n))
    (hs : s.Sound T) (hd : s.DummiesIdle) (hk : Carried k m.solver s) :
    Kept { m with solver := s } P := by
  have sub : ∀ {id p}, s.constraints.get? id = some p →
      m.solver.constraints.get? id = some p := by
    intro id p hi
    rw [hc, SortedMap.get?_erase] at hi
    split at hi
    · simp at hi
    · exact hi
  refine ⟨⟨T, hs, he.of_eq (fun n => ?_) hk.edits hk.editTick⟩, hd, fun x => ?_,
    fun hi hv => h.named (sub hi) hv, fun hi => h.numbered (sub hi),
    fun hv => h.pulled (hk.edits ▸ hv), fun {v id a} hb => ?_⟩
  · rw [hc, SortedMap.get?_erase, if_neg (by simp)]
  · rw [asks_erase hsoft hc, h.asks]
  · obtain ⟨n, hn, rfl, hsoft⟩ := h.held hb
    exact ⟨n, hn, rfl, fun p hi => hsoft p (sub hi)⟩

/-- A constraint that only holds a variable down can be taken back at any time. -/
theorem Kept.remove (h : m.Kept P) {id : ConstraintId} (hid : m.Loose id) :
    Comes True (fun _ m' => m'.Kept P ∧ Worked 0 m m') (fun _ m' => m'.Kept P ∧ Worked 0 m m')
      (onSolver .solver (·.remove id) m) := by
  obtain ⟨T, hs, he⟩ := h.sound
  obtain ⟨n, -, rfl, hsoft⟩ := hid
  have hrem := hs.remove (.declared n)
  rw [onSolver_apply]
  generalize m.solver.remove (.declared n) = r at hrem
  cases hrem with
  | unknown hc => exact .error ⟨h, rfl, rfl, le_rfl⟩
  | taken tag c hi hc hs' ho hd hk =>
    have hidle := hd h.idle (h.idle.not_uses (by
      rw [Bool.eq_false_iff, Ne, (hs.fits hi).dummy_iff tag.marker_mem]
      simp [hsoft (tag, c) hi]))
    exact .ok ⟨h.removed he hsoft hc hs' hidle hk, rfl, hk.limit, hk.tick⟩
  | exhausted s' hlim => exact .spent trivial

/-! ## Edit variables -/

theorem Kept.addEdit (h : m.Kept P) {v : Variable} (hv : v.id < m.nextVariable) :
    Comes (m.solver.limit < turnBound (m.solver.tick + 4))
      (fun _ m' => m'.Kept P ∧ Worked 4 m m' ∧ m.solver.edits.contains v = true)
      (fun _ m' => m'.Kept P ∧ Worked 4 m m' ∧
        ∃ e, m'.solver.edits.get? v = some e ∧ e.target = 0)
      (onSolver .solver (·.addEdit v Weight.strong) m) := by
  obtain ⟨T, hs, he⟩ := h.sound
  have hadd := hs.addEdit he v Weight.strong
  rw [onSolver_apply]
  generalize m.solver.addEdit v Weight.strong = r at hadd
  cases hadd with
  | duplicate hc => exact .error ⟨h, ⟨rfl, rfl, Nat.le_add_right _ _⟩, hc⟩
  | required hr => cases (Strength.isRequired_clip_iff .strong).1 hr
  | added tag he' hr hs' hed hnew hc hedits ho hd hlimit htick =>
    refine .ok ⟨h.of_declared hs' hed (hd h.idle) (fun n => ?_) fun {u e} hu => ?_,
      ⟨rfl, hlimit, htick⟩, ⟨tag, pull (m.solver.editTick + 1) v Weight.strong, 0⟩, ?_, rfl⟩
    · rw [hc, SortedMap.get?_insert, if_neg (by simp)]
    · rw [hedits, SortedMap.get?_insert] at hu
      split at hu
      · subst u
        exact hv
      · exact h.pulled hu
    · dsimp only
      rw [hedits, SortedMap.get?_insert, if_pos rfl]
  | exhausted s' hlim => exact .spent hlim

theorem Kept.removeEdit (h : m.Kept P) (v : Variable) :
    Comes True (fun _ m' => m'.Kept P ∧ Worked 0 m m') (fun _ m' => m'.Kept P ∧ Worked 0 m m')
      (onSolver .solver (·.removeEdit v) m) := by
  obtain ⟨T, hs, he⟩ := h.sound
  have hrem := hs.removeEdit he v
  rw [onSolver_apply]
  generalize m.solver.removeEdit v = r at hrem
  cases hrem with
  | unknown he' => exact .error ⟨h, rfl, rfl, le_rfl⟩
  | removed e hv hs' hed hc hedits ho hd hlimit htick =>
    refine .ok ⟨h.of_declared hs' hed (hd h.idle) (fun n => ?_) fun {u e'} hu => ?_,
      rfl, hlimit, htick⟩
    · obtain ⟨k, w, hf⟩ := he.form hv
      rw [hc, SortedMap.get?_erase, if_neg (by rw [hf]; simp [Constraint.make])]
    · rw [hedits, SortedMap.get?_erase] at hu
      split at hu
      · simp at hu
      · exact h.pulled hu
  | exhausted s' hlim => exact .spent trivial

/-- A suggestion of the target that an edit variable has already takes one turn. -/
theorem Kept.suggest (h : m.Kept P) (v : Variable) (value : Rat) :
    Comes (∀ e, m.solver.edits.get? v = some e → e.target = value → m.solver.limit = 0)
      (fun _ m' => m'.Kept P ∧ Worked 0 m m' ∧ m.solver.edits.get? v = none)
      (fun _ m' => m'.Kept P ∧ Worked 0 m m')
      (onSolver .solver (·.suggest v value) m) := by
  obtain ⟨T, hs, he⟩ := h.sound
  have hsug := hs.suggest he v value
  rw [onSolver_apply]
  generalize m.solver.suggest v value = r at hsug
  cases hsug with
  | unknown he' => exact .error ⟨h, ⟨rfl, rfl, le_rfl⟩, he'⟩
  | moved e hv hs' hc hedits ho hd hk =>
    refine .ok ⟨h.of_declared hs' (he.of_moved hv hc hedits hk.1) (hd h.idle) (fun n => by rw [hc])
      fun {u e'} hu => ?_, rfl, hk.2.1, hk.2.2.le⟩
    rw [hedits, SortedMap.get?_insert] at hu
    split at hu
    · subst u
      exact h.pulled hv
    · exact h.pulled hu
  | broken s' hd => exact absurd h.idle hd
  | exhausted s' hlim => exact .spent hlim

end Model

end RegionLayout
