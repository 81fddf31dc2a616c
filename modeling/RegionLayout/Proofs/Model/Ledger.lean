-- What a model has asked of its solver. Some of the constraints only hold a variable down for a
-- binding; they are told apart from the rest, and every edit variable pulls strongly.
import RegionLayout.Proofs.Model.Reachable
import RegionLayout.Proofs.Solver.Runs

namespace RegionLayout

open Solver

/-! ## What a constraint and a binding cost -/

/-- What the values violate a soft constraint by, at its weight. -/
def Constraint.fee (c : Constraint Rat) (x : Variable → Rat) : Rat :=
  if c.isRequired then 0 else c.weight * c.comparator.violation (c.expression.eval x)

theorem Constraint.fee_required {c : Constraint Rat} (h : c.isRequired = true)
    (x : Variable → Rat) : c.fee x = 0 := if_pos h

/-- The value that an edit variable of the solver pulls to. -/
def Solver.target? (s : Solver Rat) (v : Variable) : Option Rat := (s.edits.get? v).map (·.target)

theorem Weight.clip_strong : Weight.clip (Weight.strong : Rat) = Weight.strong :=
  Strength.clip_weight .strong

namespace Binding

/-- How far a value is above what the binding holds it down to. -/
def excess (y : Rat) : Binding Rat → Rat
  | .exact => 0
  | .atMost _ value => Comparator.atMost.violation (y - value)

/-- The constraint that holds a variable down. -/
def hold (n : Nat) (v : Variable) (value : Rat) : Constraint Rat :=
  .relate (.declared n) (.ofVariable v) .atMost (.ofConstant value) Weight.strong

theorem fee_hold (n : Nat) (v : Variable) (value : Rat) (x : Variable → Rat) :
    (hold n v value).fee x = Weight.strong * Comparator.atMost.violation (x v - value) := by
  have hsoft : (hold n v value).isRequired = false := Constraint.isRequired_make_strong _ _ _
  rw [Constraint.fee, hsoft, ← Model.eval_bound v value]
  change Weight.clip (Weight.strong : Rat) * _ = _
  rw [Weight.clip_strong]
  rfl

theorem hold_injective {n : Nat} {u v : Variable} {b value : Rat}
    (h : hold n u b = hold n v value) : u = v := by
  have hterms := congrArg (fun c : Constraint Rat => c.expression.terms) h
  change ((Expression.ofVariable u).sub (.ofConstant b)).terms =
    ((Expression.ofVariable v).sub (.ofConstant value)).terms at hterms
  rw [Model.terms_bound, Model.terms_bound] at hterms
  exact (Prod.mk.inj (List.cons.inj hterms).1).1

end Binding

namespace Model

variable {B B' : SortedMap Variable (Binding Rat)} {W W' : (Variable → Rat) → Rat}
  {G G' : Variable → Option Rat} {next next' n : Nat} {q : Requests} {s s' : Solver Rat}
  {v : Variable} {value : Rat} {b : Binding Rat}

/-- How far the values are above what the bindings hold them down to. -/
def excess (B : SortedMap Variable (Binding Rat)) (x : Variable → Rat) : Rat :=
  (B.entries.map fun e => e.2.excess (x e.1)).sum

theorem excess_alter (f : Option (Binding Rat) → Option (Binding Rat)) (x : Variable → Rat) :
    excess (B.alter v f) x = excess B x + ((f (B.get? v)).elim 0 (·.excess (x v)) -
      (B.get? v).elim 0 (·.excess (x v))) :=
  SortedMap.sum_alter (fun u (b : Binding Rat) => b.excess (x u)) B v f

/-- No binding holds the variable down. -/
def Unheld (B : SortedMap Variable (Binding Rat)) (v : Variable) : Prop :=
  ∀ id value, B.get? v ≠ some (.atMost id value)

theorem Unheld.excess_eq_zero (h : Unheld B v) (y : Rat) :
    (B.get? v).elim 0 (·.excess y) = 0 := by
  cases hb : B.get? v with
  | none => rfl
  | some b =>
    cases b with
    | exact => rfl
    | atMost id value => exact absurd hb (h id value)

theorem unheld_of_none (h : B.get? v = none) : Unheld B v := fun _ _ hb => by
  rw [h] at hb
  simp at hb

theorem unheld_of_exact (h : B.get? v = some .exact) : Unheld B v := fun _ _ hb => by
  rw [h] at hb
  simp at hb

theorem unheld_erase : Unheld (B.erase v) v := unheld_of_none (by simp [SortedMap.get?_erase])

/-! ## The ledger -/

/-- The ledger `q` has what a model with the bindings `B` has asked for. Without the constraints
that hold variables down its constraints cost `W`, they are numbered below `next`, and `G` gives
the value that each edit variable pulls to. -/
structure Ledger (W : (Variable → Rat) → Rat) (B : SortedMap Variable (Binding Rat))
    (G : Variable → Option Rat) (next : Nat) (q : Requests) : Prop where
  cost : ∀ x, (q.constraints.entries.map fun e => e.2.fee x).sum =
    W x + Weight.strong * excess B x
  numbered : ∀ {n c}, q.constraints.get? n = some c → n < next
  held : ∀ {v id value}, B.get? v = some (.atMost id value) →
    ∃ n, id = .declared n ∧ q.constraints.get? n = some (Binding.hold n v value)
  pulls : ∀ v, q.pulls.get? v = (G v).map fun target => (Weight.strong, target)

theorem Ledger.fresh (h : Ledger W B G next q) : q.constraints.get? next = none := by
  cases hi : q.constraints.get? next with
  | none => rfl
  | some c => exact absurd (h.numbered hi) (lt_irrefl _)

theorem Ledger.cost_insert (h : Ledger W B G next q) (c : Constraint Rat) (x : Variable → Rat) :
    ((q.constraints.insert next c).entries.map fun e => e.2.fee x).sum =
      W x + Weight.strong * excess B x + c.fee x := by
  have hsum := SortedMap.sum_alter (fun _ c => Constraint.fee c x) q.constraints next
    fun _ => some c
  rw [h.fresh, Option.elim_none, Option.elim_some, sub_zero, h.cost] at hsum
  exact hsum

theorem Ledger.numbered_insert (h : Ledger W B G next q) {c c' : Constraint Rat}
    (hi : (q.constraints.insert next c).get? n = some c') : n < next + 1 := by
  rw [SortedMap.get?_insert] at hi
  split at hi
  · omega
  · exact (h.numbered hi).trans (Nat.lt_succ_self _)

theorem Ledger.held_insert (h : Ledger W B G next q) {c : Constraint Rat} {id : ConstraintId}
    (hb : B.get? v = some (.atMost id value)) : ∃ n, id = .declared n ∧
      (q.constraints.insert next c).get? n = some (Binding.hold n v value) := by
  obtain ⟨n, hid, hi⟩ := h.held hb
  refine ⟨n, hid, ?_⟩
  rw [SortedMap.get?_insert, if_neg (h.numbered hi).ne, hi]

/-- A constraint that has nothing to do with the bindings. -/
theorem Ledger.add (h : Ledger W B G next q) (e : Expression Rat) (k : Comparator) (w : Rat) :
    Ledger (fun x => W x + (Constraint.make (.declared next) e k w).fee x) B G (next + 1)
      (q.after (.add next e k w)) where
  cost x := by
    refine (h.cost_insert _ x).trans ?_
    ring
  numbered hi := h.numbered_insert hi
  held hb := h.held_insert hb
  pulls := h.pulls

/-- A required constraint costs nothing. -/
theorem Ledger.require (h : Ledger W B G next q) (e : Expression Rat) (k : Comparator) :
    Ledger W B G (next + 1) (q.after (.add next e k Weight.required)) := by
  have hr := Constraint.isRequired_make_required (.declared next) e k
  have ha := h.add e k Weight.required
  simpa only [Constraint.fee_required hr, add_zero] using ha

theorem Ledger.hold (h : Ledger W B G next q) (hv : Unheld B v) (value : Rat) :
    Ledger W (B.insert v (.atMost (.declared next) value)) G (next + 1)
      (q.after (.add next ((Expression.ofVariable v).sub (.ofConstant value)) .atMost
        Weight.strong)) where
  cost x := by
    have hx : excess (B.insert v (.atMost (.declared next) value)) x =
        excess B x + Comparator.atMost.violation (x v - value) := by
      refine (excess_alter _ x).trans ?_
      rw [hv.excess_eq_zero, sub_zero]
      rfl
    refine (h.cost_insert (Binding.hold next v value) x).trans ?_
    rw [hx, Binding.fee_hold]
    ring
  numbered hi := h.numbered_insert hi
  held {u id a} hb := by
    rw [SortedMap.get?_insert] at hb
    split at hb
    · subst u
      obtain ⟨rfl, rfl⟩ := Binding.atMost.inj (Option.some.inj hb)
      refine ⟨next, rfl, ?_⟩
      rw [Requests.after, SortedMap.get?_insert, if_pos rfl]
      rfl
    · exact h.held_insert hb
  pulls := h.pulls

/-- The constraint that holds a variable down goes with its binding. -/
theorem Ledger.drop (h : Ledger W B G next q) {n : Nat}
    (hb : B.get? v = some (.atMost (.declared n) value)) :
    Ledger W (B.erase v) G next (q.after (.remove n)) := by
  obtain ⟨n', hid, hi⟩ := h.held hb
  obtain rfl := ConstraintId.declared.inj hid
  refine ⟨fun x => ?_, fun {k c} hi' => ?_, fun {u id a} hb' => ?_, h.pulls⟩
  · have hsum := SortedMap.sum_alter (fun _ c => Constraint.fee c x) q.constraints n fun _ => none
    rw [hi, Option.elim_none, Option.elim_some, zero_sub, h.cost, Binding.fee_hold] at hsum
    have hx : excess (B.erase v) x = excess B x - Comparator.atMost.violation (x v - value) := by
      refine (excess_alter _ x).trans ?_
      rw [hb, Option.elim_none, zero_sub, ← sub_eq_add_neg]
      rfl
    refine hsum.trans ?_
    rw [hx]
    ring
  · rw [Requests.after, SortedMap.get?_erase] at hi'
    split at hi'
    · simp at hi'
    · exact h.numbered hi'
  · rw [SortedMap.get?_erase] at hb'
    split at hb'
    · simp at hb'
    · rename_i hne
      obtain ⟨m, rfl, hm⟩ := h.held hb'
      refine ⟨m, rfl, ?_⟩
      rw [Requests.after, SortedMap.get?_erase, if_neg, hm]
      rintro rfl
      exact hne (Binding.hold_injective (Option.some.inj (hm.symm.trans hi)))

/-- A binding that holds nothing down comes or goes. -/
theorem Ledger.rebind (h : Ledger W B G next q) (hv : Unheld B v)
    (f : Option (Binding Rat) → Option (Binding Rat)) (hf : Unheld (B.alter v f) v) :
    Ledger W (B.alter v f) G next q where
  cost x := by
    have hget : (B.alter v f).get? v = f (B.get? v) := by rw [SortedMap.get?_alter, if_pos rfl]
    rw [excess_alter, ← hget, hf.excess_eq_zero, hv.excess_eq_zero, sub_zero, add_zero, h.cost]
  numbered := h.numbered
  held {u id a} hb := by
    by_cases hu : u = v
    · subst u
      exact absurd hb (hf id a)
    · rw [SortedMap.get?_alter, if_neg hu] at hb
      exact h.held hb
  pulls := h.pulls

theorem Ledger.bindExact (h : Ledger W B G next q) (hv : Unheld B v) :
    Ledger W (B.insert v .exact) G next q :=
  h.rebind hv _ (unheld_of_exact (by rw [SortedMap.get?_alter, if_pos rfl]))

theorem Ledger.unbind (h : Ledger W B G next q) (hv : Unheld B v) :
    Ledger W (B.erase v) G next q := h.rebind hv _ unheld_erase

theorem Ledger.addEdit (h : Ledger W B G next q) (v : Variable) :
    Ledger W B (Function.update G v (some 0)) next (q.after (.addEdit v Weight.strong)) where
  cost := h.cost
  numbered := h.numbered
  held := h.held
  pulls u := by
    rw [Requests.after, SortedMap.get?_insert, Weight.clip_strong]
    by_cases hu : u = v
    · rw [if_pos hu, hu, Function.update_self, Option.map_some]
    · rw [if_neg hu, Function.update_of_ne hu, h.pulls]

theorem Ledger.removeEdit (h : Ledger W B G next q) (v : Variable) :
    Ledger W B (Function.update G v none) next (q.after (.removeEdit v)) where
  cost := h.cost
  numbered := h.numbered
  held := h.held
  pulls u := by
    rw [Requests.after, SortedMap.get?_erase]
    by_cases hu : u = v
    · rw [if_pos hu, hu, Function.update_self, Option.map_none]
    · rw [if_neg hu, Function.update_of_ne hu, h.pulls]

theorem Ledger.suggest (h : Ledger W B G next q) {target : Rat} (hv : G v = some target)
    (value : Rat) :
    Ledger W B (Function.update G v (some value)) next (q.after (.suggest v value)) where
  cost := h.cost
  numbered := h.numbered
  held := h.held
  pulls u := by
    rw [Requests.after, SortedMap.get?_alter]
    by_cases hu : u = v
    · rw [if_pos hu, hu, h.pulls, hv, Function.update_self, Option.map_some, Option.map_some,
        Option.map_some]
    · rw [if_neg hu, Function.update_of_ne hu, h.pulls]

theorem ledger_empty : Ledger (fun _ => 0) ∅ (fun _ => none) 0 {} where
  cost x := by simp [excess]
  numbered hi := by simp at hi
  held hb := by simp at hb
  pulls v := rfl

/-! ## The solver beside the ledger -/

/-- The solver is in step with such a ledger, and is optimal. -/
def Accounts (W : (Variable → Rat) → Rat) (B : SortedMap Variable (Binding Rat))
    (G : Variable → Option Rat) (next : Nat) (s : Solver Rat) : Prop :=
  ∃ q T, Agrees q s T ∧ Ledger W B G next q

theorem Accounts.step (h : Accounts W B G next s) (call : Call)
    (hok : call.perform s = (.ok (), s'))
    (hl : ∀ q, Ledger W B G next q → Ledger W' B' G' next' (q.after call)) :
    Accounts W' B' G' next' s' := by
  obtain ⟨q, T, ha, hq⟩ := h
  have hdone : (call.perform s).1 = .ok () := by rw [hok]
  obtain ⟨T', ha', -⟩ := ha.step hdone
  rw [hok] at ha'
  exact ⟨_, T', ha', hl q hq⟩

theorem Accounts.imp (h : Accounts W B G next s)
    (hl : ∀ q, Ledger W B G next q → Ledger W' B' G' next' q) : Accounts W' B' G' next' s := by
  obtain ⟨q, T, ha, hq⟩ := h
  exact ⟨q, T, ha, hl q hq⟩

theorem Accounts.target (h : Accounts W B G next s) : G = s.target? := by
  obtain ⟨q, T, ha, hq⟩ := h
  funext v
  have hp := (hq.pulls v).symm.trans (ha.pulled v)
  unfold Solver.target?
  cases hG : G v with
  | none =>
    rw [hG, Option.map_none] at hp
    rw [Option.map_eq_none_iff.1 hp.symm, Option.map_none]
  | some target =>
    rw [hG, Option.map_some] at hp
    obtain ⟨e, he, heq⟩ := Option.map_eq_some_iff.1 hp.symm
    rw [he, Option.map_some, (Prod.mk.inj heq).2]

theorem Accounts.suggest (h : Accounts W B G next s)
    (hok : s.suggest v value = (.ok (), s')) :
    Accounts W B (Function.update G v (some value)) next s' := by
  cases he : s.edits.get? v with
  | none => simp [Solver.suggest, he] at hok
  | some e =>
    have htarget : G v = some e.target := by rw [h.target, Solver.target?, he, Option.map_some]
    exact h.step (.suggest v value) hok fun q hq => hq.suggest htarget value

end Model

end RegionLayout
