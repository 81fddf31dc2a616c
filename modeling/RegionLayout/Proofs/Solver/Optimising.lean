-- The optimisations that the addition and the removal of a constraint go through. Each starts
-- from a steady tableau with a cost for its goal. Its turns exchange the first symbols that will
-- do, so no basis comes twice and it ends.
import RegionLayout.Proofs.Solver.Refusing

namespace RegionLayout

open Solver

namespace Solver

variable {s s' t t' u : Solver Rat} {T : ConstraintId → Rat} {q : Requests} {goal : Goal}
  {c : Constraint Rat} {row g : Row Rat} {tag : Tag} {id : ConstraintId} {x y : Symbol}
  {prices : List (Symbol × Rat)} {f : Nat → Solver Rat} {i j n : Nat}

/-! ## The turns of one optimisation -/

/-- From `s` the loop takes `n` turns, none of them the last, and stands at `t`. -/
def Reaches (goal : Goal) (s : Solver Rat) (n : Nat) (t : Solver Rat) : Prop :=
  Turn.run (primalTurn goal) n s = (.error .pivotLimit, t)

/-- The turn takes the first symbol that lowers the goal, dummies apart, into the basis, and for
it the first of the restricted symbols that leave it the least room. -/
structure FirstExchange (goal : Goal) (s s' : Solver Rat) (g row : Row Rat)
    (entering leaving : Symbol) : Prop where
  goalRow : s.goalRow? goal = some g
  basic : s.rows.get? leaving = some row
  pivots : s' = s.pivot leaving row entering
  lowers : entering.isDummy = false ∧ g.coefficient entering < 0
  first : ∀ y, y.isDummy = false → g.coefficient y < 0 → entering.id ≤ y.id
  bounds : leaving.isExternal = false ∧ row.coefficient entering < 0
  least : ∀ x r, s.rows.get? x = some r → x.isExternal = false → r.coefficient entering < 0 →
    room entering row < room entering r ∨
      room entering row = room entering r ∧ leaving.id ≤ x.id

/-- The optimisation ends, and no basis comes twice in it. -/
structure Settles (goal : Goal) (s : Solver Rat) : Prop where
  ends : ∃ n ≤ turnBound s.tick, (Turn.run (primalTurn goal) n s).1 = .ok ()
  fresh : ∀ i j t u, i < j → Reaches goal s i t → Reaches goal s j u →
    t.rows.keys ≠ u.rows.keys
  turns : ∀ n t t', Reaches goal s n t → primalTurn goal t = .next t' →
    ∃ g row entering leaving, FirstExchange goal t t' g row entering leaving

theorem Symbol.id_le_of_compare (h : compare x y = .lt) : x.id ≤ y.id := by
  have hlt := Symbol.compare_eq_lt_iff.1 h
  have hx := x.kind.rank_lt
  have hy := y.kind.rank_lt
  unfold Symbol.place at hlt
  omega

theorem firstExchange_of_next (h : primalTurn goal t = .next t') :
    ∃ g row entering leaving, FirstExchange goal t t' g row entering leaving := by
  obtain ⟨g, entering, leaving, row, hg, he, hl, hrow, hpivot⟩ := primalTurn_eq_next h
  obtain ⟨hdummy, hneg, hfirst⟩ := entering?_eq_some he
  obtain ⟨row', hrow', hext, hdown, hleast⟩ := leaving?_eq_some hl
  obtain rfl := Option.some.inj (hrow'.symm.trans hrow)
  refine ⟨g, row', entering, leaving, hg, hrow, hpivot, ⟨hdummy, hneg⟩, ?_, ⟨hext, hdown⟩, ?_⟩
  · intro y hy hc
    rcases hfirst y hy hc with heq | hlt
    · exact le_of_eq (by rw [heq])
    · exact Symbol.id_le_of_compare hlt
  · intro x r hx hxe hc
    rcases hleast x r hx hxe hc with hlt | ⟨heq, hxl | hlt⟩
    · exact Or.inl hlt
    · exact Or.inr ⟨heq, le_of_eq (by rw [hxl])⟩
    · exact Or.inr ⟨heq, Symbol.id_le_of_compare hlt⟩

theorem basis_eq_of_keys (h : s.rows.keys = t.rows.keys) : s.basis = t.basis := by
  unfold basis
  rw [h]

theorem Walk.reaches (w : Walk goal f n) (hi : i ≤ n) : Reaches goal (f 0) i (f i) := by
  have hfrom : ∀ k m, k + m ≤ n →
      Turn.run (primalTurn goal) m (f k) = (.error .pivotLimit, f (k + m)) := by
    intro k m
    induction m generalizing k with
    | zero =>
      intro _
      rfl
    | succ m ih =>
      intro hk
      rw [Turn.run, w.turn k (by omega)]
      have hnext := ih (k + 1) (by omega)
      rw [Nat.add_assoc, Nat.add_comm 1 m] at hnext
      exact hnext
  have hrun := hfrom 0 i (by omega)
  rw [Nat.zero_add] at hrun
  exact hrun

/-- An optimisation of a cost ends. -/
theorem Steady.settles (h : s.Steady) (hg : s.goalRow? goal = some g) (hp : Priced prices)
    (hm : s.Measures prices g) : Settles goal s where
  ends := by
    refine ⟨turnBound s.tick, le_rfl, ?_⟩
    obtain ⟨s', -, -, -, ⟨hrun, -⟩ | hrun⟩ := h.run hg hp hm (turnBound s.tick)
    · rw [hrun]
    · exact absurd (congrArg Prod.fst hrun) (h.run_ends le_rfl goal)
  fresh := by
    intro i j t u hij hi hj hkeys
    obtain ⟨f, rfl, w⟩ := exists_walk h hj
    have hti := (Prod.mk.inj (hi.symm.trans (w.reaches hij.le))).2
    have huj := (Prod.mk.inj (hj.symm.trans (w.reaches le_rfl))).2
    apply w.basis_ne hij le_rfl
    rw [← hti, ← huj]
    exact basis_eq_of_keys hkeys
  turns _ _ _ _ ht := firstExchange_of_next ht

theorem Sound.settles (h : s.Sound T) : Settles .primary s :=
  h.toSteady.settles rfl h.priced h.measures

/-! ## The optimisations of an addition -/

/-- The constraint is in the books. -/
def entered (s : Solver Rat) (c : Constraint Rat) (tag : Tag) : Solver Rat :=
  { s with constraints := s.constraints.insert c.id (tag, c) }

/-- The addition of `c` to `s` optimises for the goal from this tableau: once its row is in,
and, where the row has no subject, before that to find out whether it may come in. -/
inductive AddOptimises (s : Solver Rat) (c : Constraint Rat) : Goal → Solver Rat → Prop
  | subject {row : Row Rat} {tag : Tag} {t : Solver Rat} {x : Symbol}
      (hnew : s.constraints.contains c.id = false) (hrow : s.createRow c = (row, tag, t))
      (hx : subject? row tag = some x) :
      AddOptimises s c .primary ((t.install x (row.solveFor x)).entered c tag)
  | redundant {row : Row Rat} {tag : Tag} {t : Solver Rat}
      (hnew : s.constraints.contains c.id = false) (hrow : s.createRow c = (row, tag, t))
      (hx : subject? row tag = none) (hall : row.allDummies = true)
      (hz : Scalar.nearZero row.constant = true) :
      AddOptimises s c .primary ((t.install tag.marker (row.solveFor tag.marker)).entered c tag)
  | search {row : Row Rat} {tag : Tag} {t : Solver Rat}
      (hnew : s.constraints.contains c.id = false) (hrow : s.createRow c = (row, tag, t))
      (hx : subject? row tag = none) (hall : row.allDummies = false) :
      AddOptimises s c .artificial (t.searching row)
  | found {row : Row Rat} {tag : Tag} {t u : Solver Rat}
      (hnew : s.constraints.contains c.id = false) (hrow : s.createRow c = (row, tag, t))
      (hx : subject? row tag = none) (hall : row.allDummies = false)
      (hfound : t.addArtificial row = (.ok true, u)) :
      AddOptimises s c .primary (u.entered c tag)

theorem addArtificial_exhausted_iff :
    (t.addArtificial row).1 = .error .pivotLimit ↔
      ((t.searching row).optimize .artificial).1 = .error .pivotLimit := by
  unfold addArtificial searching
  simp only [freshSymbol]
  rcases Solver.optimize _ .artificial with ⟨_ | ⟨⟩, v⟩
  · simp
  · dsimp only
    split
    · simp
    · split
      · simp
      · split <;> simp

/-- An addition runs out of turns when one of its optimisations does. -/
theorem add_exhausted_iff : (s.add c).1 = .error .pivotLimit ↔
    ∃ goal t, AddOptimises s c goal t ∧ (t.optimize goal).1 = .error .pivotLimit := by
  constructor
  · intro h
    unfold Solver.add at h
    split at h
    · simp at h
    · rename_i hnew
      have hnew := Bool.eq_false_iff.2 hnew
      rcases hrow : s.createRow c with ⟨row, tag, t⟩
      simp only [hrow] at h
      split at h
      · rename_i x hx
        exact ⟨.primary, _, .subject hnew hrow hx, h⟩
      · rename_i hx
        split at h
        · rename_i hall
          split at h
          · rename_i hz
            exact ⟨.primary, _, .redundant hnew hrow hx hall hz, h⟩
          · simp [refuse] at h
        · rename_i hall
          have hall := Bool.eq_false_iff.2 hall
          split at h
          · rename_i e u hsearch
            refine ⟨.artificial, _, .search hnew hrow hx hall, addArtificial_exhausted_iff.1 ?_⟩
            rw [hsearch, Except.error.inj h]
          · simp [refuse] at h
          · rename_i u hfound
            exact ⟨.primary, _, .found hnew hrow hx hall hfound, h⟩
  · rintro ⟨goal, t, ha, hlim⟩
    unfold Solver.add
    cases ha with
    | subject hnew hrow hx =>
      rw [hnew, hrow]
      simp only [hx, Bool.false_eq_true, if_false]
      exact hlim
    | redundant hnew hrow hx hall hz =>
      rw [hnew, hrow]
      simp only [hx, hall, hz, Bool.false_eq_true, if_false, if_true]
      exact hlim
    | @search row tag t hnew hrow hx hall =>
      have hs := addArtificial_exhausted_iff.2 hlim
      rw [hnew, hrow]
      simp only [hx, hall, Bool.false_eq_true, if_false]
      rw [← Prod.eta (t.addArtificial row), hs]
    | found hnew hrow hx hall hfound =>
      rw [hnew, hrow]
      simp only [hx, hall, hfound, Bool.false_eq_true, if_false]
      exact hlim

theorem Sound.drafted (h : s.Sound T) (hrow : s.createRow c = (row, tag, t)) :
    ∃ k, Drafted s c row tag t k ∧ 0 ≤ row.constant := by
  obtain ⟨row', tag', t', k, hrow', hd, h0⟩ := createRow_spec h.toSteady h.toNamed c
  rw [hrow] at hrow'
  obtain ⟨rfl, hrest⟩ := Prod.mk.inj hrow'
  obtain ⟨rfl, rfl⟩ := Prod.mk.inj hrest
  exact ⟨k, hd, h0⟩

/-- Every optimisation of an addition ends. -/
theorem Sound.settles_add (h : s.Sound T) (hT : T c.id = 0) (hw : 0 ≤ c.weight)
    (ha : AddOptimises s c goal t) : Settles goal t := by
  have enters : ∀ {row tag t k u}, s.constraints.contains c.id = false →
      Drafted s c row tag t k → Narrowed t (fun σ => row.eval σ = 0) u →
      Settles .primary (u.entered c tag) := by
    intro row tag t k u hnew hd hn
    exact (h.enter hd hn ((SortedMap.contains_eq_false_iff _).1 hnew) hT hw).settles
  cases ha with
  | subject hnew hrow hx =>
    obtain ⟨k, hd, h0⟩ := h.drafted hrow
    exact enters hnew hd (hd.narrowed_subject h.toTidy h.search h0 hx)
  | redundant hnew hrow hx hall hz =>
    obtain ⟨k, hd, h0⟩ := h.drafted hrow
    exact enters hnew hd (hd.narrowed_marker h.toTidy h.search hall (Row.nearZero_iff.1 hz))
  | search hnew hrow hx hall =>
    obtain ⟨k, hd, h0⟩ := h.drafted hrow
    have hstart := steady_searching hd.steady hd.suits (subject?_eq_none hx).1 h0
    exact hstart.settles rfl (priced_searchPrices _) (measures_searching hd.steady.toTidy)
  | found hnew hrow hx hall hfound =>
    obtain ⟨k, hd, h0⟩ := h.drafted hrow
    obtain ⟨v, ⟨hrun, hn⟩ | ⟨hrun, -⟩ | ⟨hrun, -⟩⟩ :=
      addArtificial_spec hd.steady hd.suits (subject?_eq_none hx).1 h0
    · obtain rfl := (Prod.mk.inj (hrun.symm.trans hfound)).2
      exact enters hnew hd hn
    · simp [hrun] at hfound
    · simp [hrun] at hfound

/-! ## The optimisations of a removal -/

/-- The constraint is out of the books, and what its errors cost out of the objective. -/
def released (s : Solver Rat) (id : ConstraintId) (c : Constraint Rat) (tag : Tag) :
    Solver Rat :=
  discharge { s with constraints := s.constraints.erase id } c.weight tag

/-- The removal of a constraint optimises from this tableau: without the row of its marker, or
without the row that leaves for the marker. -/
inductive RemoveOptimises (s : Solver Rat) (id : ConstraintId) : Goal → Solver Rat → Prop
  | basic {tag : Tag} {c : Constraint Rat} {row : Row Rat}
      (hc : s.constraints.get? id = some (tag, c))
      (hm : (s.released id c tag).rows.get? tag.marker = some row) :
      RemoveOptimises s id .primary ((s.released id c tag).dropRow tag.marker)
  | free {tag : Tag} {c : Constraint Rat} {row : Row Rat} {leaving : Symbol}
      (hc : s.constraints.get? id = some (tag, c))
      (hm : (s.released id c tag).rows.get? tag.marker = none)
      (hl : (s.released id c tag).markerLeaving? tag.marker = some leaving)
      (hrow : (s.released id c tag).rows.get? leaving = some row) :
      RemoveOptimises s id .primary (((s.released id c tag).dropRow leaving).substitute tag.marker
        (row.exchange leaving tag.marker))

theorem remove_exhausted_iff : (s.remove id).1 = .error .pivotLimit ↔
    ∃ goal t, RemoveOptimises s id goal t ∧ (t.optimize goal).1 = .error .pivotLimit := by
  constructor
  · intro h
    unfold Solver.remove at h
    split at h
    · simp at h
    · rename_i tag c hc
      dsimp only at h
      split at h
      · rename_i row hm
        exact ⟨.primary, _, .basic hc hm, h⟩
      · rename_i hm
        split at h
        · simp at h
        · rename_i leaving row hl
          obtain ⟨x, hx, hxr⟩ := Option.bind_eq_some_iff.1 hl
          obtain ⟨r, hr, hp⟩ := Option.map_eq_some_iff.1 hxr
          obtain ⟨rfl, rfl⟩ := Prod.mk.inj hp
          exact ⟨.primary, _, .free hc hm hx hr, h⟩
  · rintro ⟨goal, t, hr, hlim⟩
    unfold Solver.remove
    cases hr with
    | basic hc hm =>
      rw [hc]
      unfold released at hm hlim
      simp only [hm]
      exact hlim
    | free hc hm hl hrow =>
      rw [hc]
      unfold released at hm hl hrow hlim
      simp only [hm, hl, hrow, Option.bind_some, Option.map_some]
      exact hlim

/-- Every optimisation of a removal ends. -/
theorem Sound.settles_remove (h : s.Sound T) (hr : RemoveOptimises s id goal t) :
    Settles goal t := by
  cases hr with
  | basic hc hm =>
    obtain ⟨hw, hst, hart⟩ := h.discharged hc rfl
    exact (h.free hc hw (freed_dropRow hst hart hm)).settles
  | free hc hm hl hrow =>
    obtain ⟨hw, hst, hart⟩ := h.discharged hc rfl
    obtain ⟨row', hrow', hleaves⟩ := markerLeaving?_eq_some hl
    obtain rfl := Option.some.inj (hrow'.symm.trans hrow)
    exact (h.free hc hw (freed_substitute hst hart hm hrow' hleaves)).settles

/-! ## The optimisations of a call -/

/-- The call optimises for the goal from this tableau. An edit is a constraint that is added and
taken out. -/
inductive Optimises (s : Solver Rat) : Call → Goal → Solver Rat → Prop
  | add {n : Nat} {e : Expression Rat} {k : Comparator} {w : Rat} {goal : Goal} {t : Solver Rat}
      (h : AddOptimises s (.make (.declared n) e k w) goal t) : Optimises s (.add n e k w) goal t
  | remove {n : Nat} {goal : Goal} {t : Solver Rat}
      (h : RemoveOptimises s (.declared n) goal t) : Optimises s (.remove n) goal t
  | addEdit {v : Variable} {w : Rat} {goal : Goal} {t : Solver Rat}
      (hv : s.edits.contains v = false) (hw : Weight.isRequired (Weight.clip w) = false)
      (h : AddOptimises { s with editTick := s.editTick + 1 }
        (.make (.edit (s.editTick + 1)) (.ofTerm v 1) .equal (Weight.clip w)) goal t) :
      Optimises s (.addEdit v w) goal t
  | removeEdit {v : Variable} {e : Edit Rat} {goal : Goal} {t : Solver Rat}
      (he : s.edits.get? v = some e)
      (h : RemoveOptimises { s with edits := s.edits.erase v } e.constraint.id goal t) :
      Optimises s (.removeEdit v) goal t

theorem addEdit_exhausted_iff {v : Variable} {w : Rat} :
    (s.addEdit v w).1 = .error .pivotLimit ↔
      s.edits.contains v = false ∧ Weight.isRequired (Weight.clip w) = false ∧
        (Solver.add { s with editTick := s.editTick + 1 }
          (.make (.edit (s.editTick + 1)) (.ofTerm v 1) .equal (Weight.clip w))).1 =
            .error .pivotLimit := by
  unfold Solver.addEdit
  by_cases hv : s.edits.contains v = true
  · simp [hv]
  · by_cases hw : Weight.isRequired (Weight.clip w) = true
    · simp [hw, hv]
    · simp only [hv, hw, Bool.false_eq_true, if_false, true_and]
      rcases Solver.add _ _ with ⟨e | u, t⟩
      · simp
      · dsimp only
        split <;> simp

/-- A call other than a suggestion runs out of turns when one of its optimisations does. -/
theorem exhausted_iff {call : Call} (hs : ∀ v value, call ≠ .suggest v value) :
    (call.perform s).1 = .error .pivotLimit ↔
      ∃ goal t, Optimises s call goal t ∧ (t.optimize goal).1 = .error .pivotLimit := by
  cases call with
  | add n e k w =>
    refine add_exhausted_iff.trans ?_
    constructor
    · rintro ⟨goal, t, h, hlim⟩
      exact ⟨goal, t, .add h, hlim⟩
    · rintro ⟨goal, t, h, hlim⟩
      cases h with | add ha => exact ⟨goal, t, ha, hlim⟩
  | remove n =>
    refine remove_exhausted_iff.trans ?_
    constructor
    · rintro ⟨goal, t, h, hlim⟩
      exact ⟨goal, t, .remove h, hlim⟩
    · rintro ⟨goal, t, h, hlim⟩
      cases h with | remove ha => exact ⟨goal, t, ha, hlim⟩
  | addEdit v w =>
    refine addEdit_exhausted_iff.trans ?_
    rw [add_exhausted_iff]
    constructor
    · rintro ⟨hv, hw, goal, t, h, hlim⟩
      exact ⟨goal, t, .addEdit hv hw h, hlim⟩
    · rintro ⟨goal, t, h, hlim⟩
      cases h with | addEdit hv hw ha => exact ⟨hv, hw, goal, t, ha, hlim⟩
  | removeEdit v =>
    simp only [Call.perform]
    unfold Solver.removeEdit
    constructor
    · intro h
      split at h
      · simp at h
      · rename_i e he
        obtain ⟨goal, t, hr, hlim⟩ := remove_exhausted_iff.1 h
        exact ⟨goal, t, .removeEdit he hr, hlim⟩
    · rintro ⟨goal, t, h, hlim⟩
      cases h with
      | removeEdit he hr =>
        rw [he]
        exact remove_exhausted_iff.2 ⟨goal, t, hr, hlim⟩
  | suggest v value => exact absurd rfl (hs v value)
  | reset =>
    constructor
    · intro h
      simp [Call.perform] at h
    · rintro ⟨goal, t, h, -⟩
      cases h

end Solver

end RegionLayout
