-- Batches of statements. A relation becomes a constraint that says the same of the variables,
-- and the solver turns it down just when it clashes with what was accepted before. So a batch
-- ends at its first clash.
import RegionLayout.Proofs.Model.Regions

namespace RegionLayout

open Solver

namespace Model

variable {m m' m₀ : Model Rat} {L B k : Nat} {ref : AttributeRef} {r : Relation Rat}
  {rs accepted relations : List (Relation Rat)} {x : Variable → Rat}

/-! ## From a relation to a constraint -/

/-- The variable of an attribute that has one. -/
def seat (m : Model Rat) (ref : AttributeRef) : Variable := (m.varOf? ref).getD ⟨0⟩

theorem varOf?_seat (h : m.Has ref) : m.varOf? ref = some (m.seat ref) := by
  obtain ⟨v, hv⟩ := h
  rw [seat, hv, Option.getD_some]

theorem lookup_seat (h : m.Has ref) : m.lookup ref.region ref.attr = .ok (m.seat ref) := by
  have hv := varOf?_seat h
  obtain ⟨r, hr, hget⟩ := Option.bind_eq_some_iff.1 hv
  change (m.region ref.region >>= fun r => variableOf r ref.attr) = _
  rw [Model.region, hr]
  exact variableOf_some hget

/-- What the relation says, over the variables. -/
def lowered (m : Model Rat) (r : Relation Rat) : Expression Rat :=
  ⟨(m.seat r.target, 1) :: r.rhs.terms.entries.map fun t => (m.seat t.1, -t.2), -r.rhs.constant⟩

theorem constraintOf_apply (h : ∀ ref ∈ r.refs, m.Has ref) : constraintOf r m =
    (.ok (.make (.declared m.nextConstraint) (m.lowered r) r.comparator r.strength.weight),
      { m with nextConstraint := m.nextConstraint + 1 }) := by
  have hterms : (r.rhs.terms.entries.mapM fun t => do
      return (← ask (·.lookup t.1.region t.1.attr), -t.2) : Change Rat (List (Variable × Rat))) m =
        (.ok (r.rhs.terms.entries.map fun t => (m.seat t.1, -t.2)), m) := by
    refine mapM_apply fun t ht => ?_
    rw [ask_bind (lookup_seat (h t.1 (Relation.mem_refs_of_term ht)))]
    rfl
  rw [constraintOf, ask_bind (lookup_seat (h r.target Relation.target_mem_refs)), bind_apply,
    hterms]
  rfl

theorem eval_lowered (h : ∀ ref ∈ r.refs, m.Has ref) :
    (m.lowered r).eval x = m.reading x r.target - r.rhs.eval (m.reading x) := by
  have htarget := varOf?_seat (h r.target Relation.target_mem_refs)
  have hterms : (r.rhs.terms.entries.map fun t => -t.2 * x (m.seat t.1)).sum =
      -(r.rhs.terms.entries.map fun t => t.2 * m.reading x t.1).sum := by
    rw [List.sum_neg, List.map_map]
    congr 1
    apply List.map_congr_left
    intro t ht
    rw [Function.comp_apply, reading_some (varOf?_seat (h t.1 (Relation.mem_refs_of_term ht)))]
    ring
  rw [Expression.eval_eq, lowered, LinearExpr.eval, reading_some htarget, List.map_cons,
    List.sum_cons, List.map_map]
  change -r.rhs.constant + (1 * x (m.seat r.target) +
    (r.rhs.terms.entries.map fun t => -t.2 * x (m.seat t.1)).sum) = _
  rw [hterms]
  ring

theorem names_lowered (h : ∀ ref ∈ r.refs, m.Has ref) {v : Variable}
    (hv : (m.lowered r).Names v) : ∃ ref, m.varOf? ref = some v := by
  obtain ⟨q, hv, -⟩ := hv
  rcases List.mem_cons.1 hv with hv | hv
  · obtain ⟨rfl, -⟩ := Prod.mk.inj hv
    exact ⟨_, varOf?_seat (h r.target Relation.target_mem_refs)⟩
  · obtain ⟨t, ht, hv⟩ := List.mem_map.1 hv
    obtain ⟨rfl, -⟩ := Prod.mk.inj hv
    exact ⟨_, varOf?_seat (h t.1 (Relation.mem_refs_of_term ht))⟩

end Model

/-! ## Clashes -/

/-- The relation is required, and no proper layout is as it says and as the accepted ones do. -/
def Clashes (accepted : List (Relation Rat)) (r : Relation Rat) : Prop :=
  r.strength = .required ∧
    ¬ ∃ ρ, Proper (fun _ => True) ρ ∧ Satisfies ρ accepted ∧ r.Holds ρ

/-- The relation at place `k` clashes with the accepted ones and those before it. -/
def ClashesAt (accepted rs : List (Relation Rat)) (k : Nat) : Prop :=
  ∃ r, rs[k]? = some r ∧ Clashes (accepted ++ rs.take k) r

section Places

variable {accepted rs : List (Relation Rat)} {r : Relation Rat}

theorem clashesAt_zero : ClashesAt accepted (r :: rs) 0 ↔ Clashes accepted r := by
  simp [ClashesAt]

theorem clashesAt_succ (k : Nat) :
    ClashesAt accepted (r :: rs) (k + 1) ↔ ClashesAt (accepted ++ [r]) rs k := by
  simp [ClashesAt, List.append_assoc]

theorem clashesAt_nil (k : Nat) : ¬ ClashesAt accepted [] k := by
  simp [ClashesAt]

end Places

namespace Model

variable {m m' m₀ : Model Rat} {L B k : Nat} {ref : AttributeRef} {r : Relation Rat}
  {rs : List (Relation Rat)} {x : Variable → Rat} {texts : List String}

/-! ## One relation after the other -/

/-- A relation is accepted unless it clashes with what the model has. -/
theorem Settled.addRelation (h : m.Settled) (hr : ∀ ref ∈ r.refs, m.Has ref)
    (ha : m.Affords L B (r.rhs.terms.size + 4 + k)) :
    Comes (L < turnBound B)
      (fun e m' => e = .conflict r.source .unsatisfiable ∧ Clashes m.relations r ∧ m'.Settled ∧
        m'.relations = m.relations)
      (fun _ m' => ¬ Clashes m.relations r ∧ m'.Settled ∧ m'.relations = m.relations ++ [r] ∧
        m'.varOf? = m.varOf? ∧ m'.Affords L B k)
      (addRelation r m) := by
  have hlen : (m.lowered r).terms.length + 3 = r.rhs.terms.size + 4 := by
    simp [lowered, SortedMap.size]
  have hreq := Constraint.isRequired_make_iff (.declared m.nextConstraint) (m.lowered r) r.comparator
    r.strength
  have hholds : ∀ x, r.comparator.Holds ((m.lowered r).eval x) ↔ r.Holds (m.reading x) :=
    fun x => by rw [eval_lowered hr, Relation.Holds]
  rw [Model.addRelation, bind_apply, constraintOf_apply hr]
  dsimp only
  refine Comes.bind ((h.kept.enter _ (statementError r.source) rfl rfl
    (Constraint.make_weight_nonneg _ _ _ _) fun v hv => ?_).mono (fun hlim => ?_)
      (fun e m' he => ?_) fun _ m' hq => hq) fun _ m₁ h₁ => ?_
  · obtain ⟨ref, href⟩ := names_lowered hr hv
    exact h.before href
  · refine ha.spent ?_
    rw [← hlen]
    exact hlim
  · obtain ⟨rfl, hq, hno, hk, hw⟩ := he
    refine ⟨rfl, ⟨hreq.1 hq, fun hex => hno ?_⟩, hw.settled h.toMapped hk, hw.grown.relations⟩
    obtain ⟨x, hx, hxr⟩ := (h.exists_obeys_iff hr).2 hex
    exact ⟨x, hx, (hholds x).2 hxr⟩
  · obtain ⟨hk, -, hw⟩ := h₁
    have hrel := hw.grown.relations
    have hnot : ¬ Clashes m.relations r := by
      rintro ⟨hq, hno⟩
      have hx := hk.value
      exact hno ((h.exists_obeys_iff hr).1 ⟨_, hx.1, (hholds _).1 (hx.2 (hreq.2 hq))⟩)
    refine .ok ⟨hnot, ⟨(hw.mapped h.toMapped).accept ?_, ?_⟩, congrArg (· ++ [r]) hrel,
      hw.varOf?, ?_⟩
    · exact fun ref href => hw.grown.has (hr ref href)
    · refine Kept.of_eq (hk.congr fun x => ?_) rfl le_rfl le_rfl id
      change _ ↔ Proper m₁.Has (m₁.reading x) ∧ Satisfies (m₁.reading x) (m₁.relations ++ [r])
      rw [hrel, hw.has, hw.reading, satisfies_append, satisfies_singleton, Obeys, and_assoc]
      exact and_congr_right fun _ => and_congr_right fun _ => imp_congr hreq (hholds x)
    · have hw : Worked (r.rhs.terms.size + 4) m m₁ := hlen ▸ hw
      exact (ha.after hw).of_eq rfl

/-- How many symbols the relations may take at most. -/
def ink (rs : List (Relation Rat)) : Nat := (rs.map fun r => r.rhs.terms.size + 4).sum

/-- Relations are accepted up to the first clash. -/
theorem Settled.addRelations (h : m.Settled) (hr : ∀ r ∈ rs, ∀ ref ∈ r.refs, m.Has ref)
    (ha : m.Affords L B (ink rs)) :
    Comes (L < turnBound B)
      (fun e m' => m'.Settled ∧ ∃ k r, rs[k]? = some r ∧ e = .conflict r.source .unsatisfiable ∧
        ClashesAt m.relations rs k ∧ (∀ j < k, ¬ ClashesAt m.relations rs j) ∧
        m'.relations = m.relations ++ rs.take k)
      (fun _ m' => m'.Settled ∧ m'.relations = m.relations ++ rs ∧
        ∀ k, ¬ ClashesAt m.relations rs k)
      (rs.forM Model.addRelation m) := by
  induction rs generalizing m with
  | nil => exact .ok ⟨h, by simp, clashesAt_nil⟩
  | cons r rs ih =>
    refine Comes.bind ((h.addRelation (hr r List.mem_cons_self) ha).mono id
      (fun e m' he => ?_) fun _ _ hq => hq) fun _ m₁ h₁ => ?_
    · obtain ⟨rfl, hc, hs, hrel⟩ := he
      exact ⟨hs, 0, r, rfl, rfl, clashesAt_zero.2 hc, by simp, by simpa using hrel⟩
    · obtain ⟨hno, hs, hrel, hvar, ha₁⟩ := h₁
      have hhas : ∀ r' ∈ rs, ∀ ref ∈ r'.refs, m₁.Has ref := fun r' hr' ref href => by
        rw [Has, hvar]
        exact hr r' (List.mem_cons_of_mem _ hr') ref href
      refine (ih hs hhas ha₁).mono id (fun e m' he => ?_) fun _ m' hq => ?_
      · obtain ⟨hs', k, r', hk, he, hc, hfirst, hrel'⟩ := he
        rw [hrel] at hc hfirst hrel'
        refine ⟨hs', k + 1, r', hk, he, (clashesAt_succ k).2 hc, fun j hj => ?_, ?_⟩
        · cases j with
          | zero => exact fun h0 => hno (clashesAt_zero.1 h0)
          | succ j => exact fun h1 => hfirst j (by omega) ((clashesAt_succ j).1 h1)
        · rw [hrel', List.append_assoc]
          rfl
      · obtain ⟨hs', hrel', hfree⟩ := hq
        rw [hrel] at hrel' hfree
        refine ⟨hs', by rw [hrel', List.append_assoc]; rfl, fun j => ?_⟩
        cases j with
        | zero => exact fun h0 => hno (clashesAt_zero.1 h0)
        | succ j => exact fun h1 => hfree j ((clashesAt_succ j).1 h1)

/-! ## One batch -/

theorem Settled.solve (h : m.Settled) : m.solve.Settled where
  toMapped := ⟨h.names, h.primary, h.before, h.own, h.resolved⟩
  kept := h.kept.of_eq rfl le_rfl le_rfl id

theorem Settled.addConstraints (h : m.Settled)
    (hparse : texts.mapM (Relation.parse · m.density) = .ok rs)
    (ha : m.Affords L B (supply (Demand.ofRelations rs).toList + ink rs)) :
    Comes (L < turnBound B)
      (fun e m' => m'.Settled ∧ ∃ k r, rs[k]? = some r ∧ e = .conflict r.source .unsatisfiable ∧
        ClashesAt m.relations rs k ∧ (∀ j < k, ¬ ClashesAt m.relations rs j) ∧
        m'.relations = m.relations ++ rs.take k)
      (fun _ m' => m'.Settled ∧ m'.relations = m.relations ++ rs ∧
        ∀ k, ¬ ClashesAt m.relations rs k)
      (addConstraints (some texts) m) := by
  rw [addConstraints_of_read hparse]
  refine Comes.bind ((h.materialize _ ha).sure id) fun _ m₁ h₁ => ?_
  obtain ⟨hs, hg, hhas, ha₁⟩ := h₁
  have hr : ∀ r ∈ rs, ∀ ref ∈ r.refs, m₁.Has ref := fun r hr ref href => by
    obtain ⟨attributes, hd, ha⟩ := Demand.mem_ofRelations.2 ⟨r, hr, href⟩
    exact hhas _ hd _ ha
  have hadd := hs.addRelations hr ha₁
  rw [hg.relations] at hadd
  exact hadd.bind fun _ m₂ h₂ => .ok ⟨h₂.1.solve, h₂.2.1, h₂.2.2⟩

end Model

end RegionLayout
