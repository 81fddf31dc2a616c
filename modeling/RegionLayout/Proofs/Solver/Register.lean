-- What a solver was given and still has: its constraints and its edits. The tableau is turned over
-- again and again, and this is not; only the call that is for it adds an entry or takes one away.
import RegionLayout.Proofs.Solver.Removing

namespace RegionLayout

open Solver

namespace Solver

/-! ## What nothing on the way changes -/

theorem foldl_keeps {σ α γ : Type} {f : σ → α → σ} (view : σ → γ)
    (h : ∀ s a, view (f s a) = view s) (l : List α) (s : σ) : view (l.foldl f s) = view s := by
  induction l generalizing s with
  | nil => rfl
  | cons a l ih => exact (ih _).trans (h s a)

/-- The state a turn leaves behind. -/
def Turn.state {σ : Type} : Turn σ → σ
  | .done s | .next s | .broken _ s => s

/-- What every turn keeps, the last one too, a run keeps. -/
theorem Turn.run_preserves {σ : Type} {step : σ → Turn σ} {P : σ → Prop}
    (h : ∀ s, P s → P (step s).state) (n : Nat) {s : σ} (hs : P s) : P (Turn.run step n s).2 := by
  induction n generalizing s with
  | zero => exact hs
  | succ n ih =>
    have hturn := h s hs
    rw [Turn.run]
    generalize step s = turn at hturn
    cases turn with
    | done t => exact hturn
    | broken b t => exact hturn
    | next t => exact ih hturn

theorem Turn.run_keeps {σ γ : Type} {step : σ → Turn σ} {view : σ → γ}
    (h : ∀ s, view (step s).state = view s) (n : Nat) (s : σ) :
    view (Turn.run step n s).2 = view s :=
  Turn.run_preserves (P := fun t => view t = view s) (fun t ht => (h t).trans ht) n rfl

variable {R : Type} [Scalar R] {s s' : Solver R} {c : Constraint R} {id : ConstraintId}
  {v : Variable} {weight value : R} {f : Fault} {answer : Except Fault Unit}

/-- The constraints and the edits. -/
def register (s : Solver R) :
    SortedMap ConstraintId (Tag × Constraint R) × SortedMap Variable (Edit R) :=
  (s.constraints, s.edits)

/-! ## The tableau alone -/

section Views

variable {γ : Type} {view : Solver R → γ}

/-- The view shows nothing of the tableau. -/
def Beyond (view : Solver R → γ) : Prop :=
  ∀ (s : Solver R) rows symbols infeasible objective artificial tick,
    view { s with rows, symbols, infeasible, objective, artificial, tick } = view s

omit [Scalar R] in
theorem beyond_register : Beyond (register : Solver R → _) := fun _ _ _ _ _ _ _ => rfl

omit [Scalar R] in
theorem Beyond.symbolOf (h : Beyond view) (s : Solver R) (v : Variable) :
    view (s.symbolOf v).2 = view s := by
  unfold Solver.symbolOf
  split
  · rfl
  · exact h s _ _ _ _ _ _

theorem Beyond.insertTerm (h : Beyond view) (acc : Row R × Solver R) (t : Variable × R) :
    view (insertTerm acc t).2 = view acc.2 := by
  unfold Solver.insertTerm
  dsimp only
  split
  · rfl
  · split <;> exact h.symbolOf _ _

theorem Beyond.insertMarkers (h : Beyond view) (c : Constraint R) (row : Row R) (s : Solver R) :
    view (insertMarkers c row s).2.2 = view s := by
  unfold Solver.insertMarkers
  cases c.comparator <;> dsimp only <;> split <;> exact h s _ _ _ _ _ _

theorem Beyond.createRow (h : Beyond view) (s : Solver R) (c : Constraint R) :
    view (s.createRow c).2.2 = view s := by
  refine (h.insertMarkers _ _ _).trans ?_
  exact foldl_keeps (fun acc : Row R × Solver R => view acc.2) h.insertTerm _ _

theorem Beyond.discharge (h : Beyond view) (s : Solver R) (weight : R) (tag : Tag) :
    view (s.discharge weight tag) = view s := by
  rw [discharge_eq]
  refine foldl_keeps view (fun s x => ?_) _ _
  unfold waive
  split <;> exact h s _ _ _ _ _ _

theorem Beyond.optimize (h : Beyond view) (s : Solver R) (goal : Goal) :
    view (s.optimize goal).2 = view s := by
  refine Turn.run_keeps (fun s => ?_) _ _
  unfold primalTurn
  repeat' split
  all_goals exact h s _ _ _ _ _ _

theorem Beyond.dualOptimize (h : Beyond view) (s : Solver R) :
    view s.dualOptimize.2 = view s := by
  refine Turn.run_keeps (fun s => ?_) _ _
  unfold dualTurn
  dsimp only
  repeat' split
  all_goals exact h s _ _ _ _ _ _

theorem Beyond.addArtificial (h : Beyond view) (s : Solver R) (row : Row R) :
    view (s.addArtificial row).2 = view s := by
  have hsearch := h.optimize { ({ s with tick := s.tick + 1 } : Solver R).putRow
    ⟨s.tick + 1, .slack⟩ row with artificial := some row } .artificial
  have hstart := hsearch.trans (h s _ _ _ _ _ _)
  unfold Solver.addArtificial freshSymbol
  dsimp only
  split
  · rename_i hrun
    rw [hrun] at hstart
    exact hstart
  · rename_i t hrun
    rw [hrun] at hstart
    repeat' split
    all_goals exact (h t _ _ _ _ _ _).trans hstart

end Views

/-! ## Constraints -/

/-- A fault that is not about what was asked. -/
def Fault.Internal (f : Fault) : Prop := f = .pivotLimit ∨ ∃ b, f = .breakdown b

/-- A constraint is entered, or refused and not entered, or the solver fails. -/
inductive Registered (s : Solver R) (c : Constraint R) : Answer R Unit → Prop
  | entered {s' : Solver R} (tag : Tag) (hnew : s.constraints.get? c.id = none)
      (hr : s'.register = (s.constraints.insert c.id (tag, c), s.edits)) :
      Registered s c (.ok (), s')
  | refused {f : Fault} {s' : Solver R} (hf : f = .unsatisfiable ∨ f = .duplicateConstraint)
      (hr : s'.register = s.register) : Registered s c (.error f, s')
  | failed {f : Fault} {s' : Solver R} (hf : f.Internal) : Registered s c (.error f, s')

theorem registered_accept {t : Solver R} (hnew : s.constraints.get? c.id = none)
    (ht : t.register = s.register) (tag : Tag) : Registered s c (t.accept c tag) := by
  obtain ⟨hc, he⟩ := Prod.mk.inj ht
  have hkept := beyond_register.optimize { t with constraints := t.constraints.insert c.id (tag, c) }
    .primary
  unfold accept
  generalize hrun : optimize { t with constraints := t.constraints.insert c.id (tag, c) }
    .primary = p at hkept
  obtain ⟨answer, s'⟩ := p
  cases answer with
  | ok =>
    refine .entered tag hnew (hkept.trans ?_)
    rw [register, hc, he]
  | error f => exact .failed (Turn.eq_of_run_eq_error (congrArg Prod.fst hrun))

theorem registered_refuse {t : Solver R} (ht : t.register = s.register) (tag : Tag) :
    Registered s c (t.refuse c tag) :=
  .refused (.inl rfl) ((beyond_register.discharge _ _ _).trans ht)

theorem addArtificial_error {t : Solver R} {row : Row R}
    (h : t.addArtificial row = (.error f, s')) : f.Internal := by
  unfold addArtificial at h
  dsimp only at h
  split at h
  · rename_i hrun
    obtain rfl := Except.error.inj (Prod.mk.inj h).1
    exact Turn.eq_of_run_eq_error (congrArg Prod.fst hrun)
  · repeat' split at h
    all_goals cases h

theorem registered_add (s : Solver R) (c : Constraint R) : Registered s c (s.add c) := by
  unfold add
  split
  · exact .refused (.inr rfl) rfl
  · rename_i hc
    have hnew := (SortedMap.contains_eq_false_iff _).1 (Bool.eq_false_iff.2 hc)
    have hdraft := beyond_register.createRow s c
    generalize s.createRow c = draft at hdraft
    obtain ⟨row, tag, t⟩ := draft
    dsimp only at hdraft ⊢
    -- each way for a row to enter ends in `accept`, or else in `refuse`
    split
    · exact registered_accept (t := t.install _ _) hnew hdraft tag
    · split
      · split
        · exact registered_accept (t := t.install _ _) hnew hdraft tag
        · exact registered_refuse hdraft _
      · have hsearch := (beyond_register.addArtificial t row).trans hdraft
        split
        · exact .failed (addArtificial_error ‹_›)
        · rename_i hrun
          rw [hrun] at hsearch
          exact registered_refuse hsearch _
        · rename_i hrun
          rw [hrun] at hsearch
          exact registered_accept hnew hsearch _

theorem register_of_remove (h : s.remove id = (.ok (), s')) :
    (∃ p, s.constraints.get? id = some p) ∧ s'.register = (s.constraints.erase id, s.edits) := by
  unfold remove at h
  split at h
  · cases h
  · rename_i tag c hget
    refine ⟨⟨_, hget⟩, ?_⟩
    have hdrop := beyond_register.discharge { s with constraints := s.constraints.erase id } c.weight tag
    dsimp only at h
    generalize discharge { s with constraints := s.constraints.erase id } c.weight tag = t at h hdrop
    split at h
    · have hkept := beyond_register.optimize (t.dropRow tag.marker) .primary
      rw [h] at hkept
      exact hkept.trans hdrop
    · split at h
      · cases h
      · rename_i leaving row _
        have hkept := beyond_register.optimize
          ((t.dropRow leaving).substitute tag.marker (row.exchange leaving tag.marker)) .primary
        rw [h] at hkept
        exact hkept.trans hdrop

/-! ## Edits -/

/-- The constraint that pulls a variable. -/
def pulling (id : ConstraintId) (v : Variable) (weight : R) : Constraint R :=
  .make id (.ofTerm v 1) .equal (Weight.clip weight)

theorem register_of_addEdit (h : s.addEdit v weight = (.ok (), s')) :
    s.edits.get? v = none ∧ ∃ id tag, s.constraints.get? id = none ∧ s'.register =
      (s.constraints.insert id (tag, pulling id v weight),
        s.edits.insert v ⟨tag, pulling id v weight, 0⟩) := by
  unfold addEdit at h
  split at h
  · cases h
  · rename_i hv
    have hv := (SortedMap.contains_eq_false_iff _).1 (Bool.eq_false_iff.2 hv)
    dsimp only at h
    split at h
    · cases h
    · have hadd := registered_add { s with editTick := s.editTick + 1 }
        (pulling (.edit (s.editTick + 1)) v weight)
      split at h
      · cases h
      · rename_i hrun
        rw [show add { s with editTick := s.editTick + 1 }
          (pulling (.edit (s.editTick + 1)) v weight) = _ from hrun] at hadd
        cases hadd with
        | entered tag hnew hr =>
          obtain ⟨hc, he⟩ := Prod.mk.inj hr
          refine ⟨hv, .edit (s.editTick + 1), tag, hnew, ?_⟩
          have hid : (pulling (.edit (s.editTick + 1)) v weight).id = .edit (s.editTick + 1) := rfl
          -- the edit is noted with the tag that the constraint was entered under
          rw [hc, hid, SortedMap.get?_insert, if_pos rfl] at h
          obtain rfl := (Prod.mk.inj h).2
          rw [register, he]
          rfl

theorem register_of_removeEdit (h : s.removeEdit v = (.ok (), s')) :
    ∃ e, s.edits.get? v = some e ∧
      s'.register = (s.constraints.erase e.constraint.id, s.edits.erase v) := by
  unfold removeEdit at h
  split at h
  · cases h
  · exact ⟨_, ‹_›, (register_of_remove h).2⟩

theorem register_of_suggest (h : s.suggest v value = (.ok (), s')) :
    ∃ e, s.edits.get? v = some e ∧
      s'.register = (s.constraints, s.edits.insert v { e with target := value }) := by
  unfold suggest at h
  split at h
  · cases h
  · rename_i e he
    refine ⟨e, he, ?_⟩
    have hkept (t : Solver R)
        (ht : t.register = (s.constraints, s.edits.insert v { e with target := value }))
        (hrun : t.dualOptimize = (.ok (), s')) :
        s'.register = (s.constraints, s.edits.insert v { e with target := value }) := by
      have hd := beyond_register.dualOptimize t
      rw [hrun] at hd
      exact hd.trans ht
    have hshift (t : Solver R) (x : Symbol) (row : Row R) (amount : R) :
        (t.shiftRow x row amount).register = t.register := by
      unfold shiftRow
      dsimp only
      split <;> rfl
    dsimp only at h
    repeat' split at h
    · exact hkept _ (hshift _ _ _ _) h
    · exact hkept _ (hshift _ _ _ _) h
    · exact hkept _ rfl h

/-! ## The limit of turns -/

section Limit

omit [Scalar R] in
theorem beyond_limit : Beyond (limit : Solver R → Nat) := fun _ _ _ _ _ _ _ => rfl

theorem limit_accept (s : Solver R) (c : Constraint R) (tag : Tag) :
    (s.accept c tag).2.limit = s.limit := beyond_limit.optimize _ _

/-- A constraint that is accepted has taken a turn. -/
theorem limit_pos_of_accept {tag : Tag} (h : (s.accept c tag).1 = .ok ()) : 0 < s.limit := by
  by_contra hzero
  have hlimit : s.limit = 0 := by omega
  unfold accept optimize at h
  rw [show ({ s with constraints := s.constraints.insert c.id (tag, c) } : Solver R).limit = 0
    from hlimit] at h
  simp [Turn.run] at h

theorem limit_add (s : Solver R) (c : Constraint R) : (s.add c).2.limit = s.limit := by
  have hdraft := beyond_limit.createRow s c
  unfold add
  split
  · rfl
  · generalize s.createRow c = draft at hdraft
    obtain ⟨row, tag, t⟩ := draft
    dsimp only at hdraft ⊢
    have hsearch := beyond_limit.addArtificial t row
    split
    · exact (limit_accept _ _ _).trans hdraft
    · split
      · split
        · exact (limit_accept _ _ _).trans hdraft
        · exact (beyond_limit.discharge _ _ _).trans hdraft
      · split <;> rename_i hrun <;> rw [hrun] at hsearch
        · exact hsearch.trans hdraft
        · exact (beyond_limit.discharge _ _ _).trans (hsearch.trans hdraft)
        · exact (limit_accept _ _ _).trans (hsearch.trans hdraft)

theorem limit_pos_of_add (h : (s.add c).1 = .ok ()) : 0 < s.limit := by
  have hdraft := beyond_limit.createRow s c
  unfold add at h
  split at h
  · simp at h
  · generalize s.createRow c = draft at hdraft h
    obtain ⟨row, tag, t⟩ := draft
    dsimp only at hdraft h
    have hsearch := beyond_limit.addArtificial t row
    rw [← hdraft]
    split at h
    · have hpos := limit_pos_of_accept h
      exact hpos
    · split at h
      · split at h
        · have hpos := limit_pos_of_accept h
          exact hpos
        · simp [refuse] at h
      · split at h <;> rename_i hrun <;> rw [hrun] at hsearch
        · simp at h
        · simp [refuse] at h
        · rw [← hsearch]
          exact limit_pos_of_accept h

theorem limit_remove (s : Solver R) (id : ConstraintId) : (s.remove id).2.limit = s.limit := by
  unfold remove
  split
  · rfl
  · rename_i tag c _
    have hdrop := beyond_limit.discharge { s with constraints := s.constraints.erase id } c.weight tag
    dsimp only
    generalize discharge { s with constraints := s.constraints.erase id } c.weight tag = t at hdrop
    split
    · exact (beyond_limit.optimize _ _).trans hdrop
    · split
      · exact hdrop
      · exact (beyond_limit.optimize _ _).trans hdrop

theorem limit_addEdit (s : Solver R) (v : Variable) (weight : R) :
    (s.addEdit v weight).2.limit = s.limit := by
  have hadd := limit_add { s with editTick := s.editTick + 1 }
    (.make (.edit (s.editTick + 1)) (.ofTerm v 1) .equal (Weight.clip weight))
  unfold addEdit
  split
  · rfl
  · dsimp only
    split
    · rfl
    · split <;> rename_i hrun <;> rw [hrun] at hadd
      · exact hadd
      · split <;> exact hadd

theorem limit_removeEdit (s : Solver R) (v : Variable) :
    (s.removeEdit v).2.limit = s.limit := by
  unfold removeEdit
  split
  · rfl
  · exact limit_remove _ _

theorem limit_suggest (s : Solver R) (v : Variable) (value : R) :
    (s.suggest v value).2.limit = s.limit := by
  have hshift (t : Solver R) (x : Symbol) (row : Row R) (amount : R) :
      (t.shiftRow x row amount).limit = t.limit := by
    unfold shiftRow
    dsimp only
    split <;> rfl
  unfold suggest
  split
  · rfl
  · dsimp only
    split
    · exact (beyond_limit.dualOptimize _).trans (hshift _ _ _ _)
    · split
      · exact (beyond_limit.dualOptimize _).trans (hshift _ _ _ _)
      · exact beyond_limit.dualOptimize _

end Limit

end Solver

end RegionLayout
