-- What a tableau stands for. After any calls, refusals and removals among them, an assignment of
-- the symbols satisfies the rows just when it satisfies the equation of each constraint that the
-- solver has, and there the objective is what the errors of these constraints cost.
import RegionLayout.Proofs.Solver.Refusing

namespace RegionLayout

open Solver

namespace Solver

variable {s : Solver Rat} {T : ConstraintId → Rat} {q : Requests} {σ : Symbol → Rat}

/-! ## Equations -/

/-- The variable, less what it is pulled to, with the errors of the pull put in, is zero. -/
theorem Edited.balances_iff (h : s.Edited T) {v : Variable} {e : Edit Rat}
    (he : s.edits.get? v = some e) : s.Balances T σ e.constraint.id e.tag e.constraint ↔
      s.read σ v - e.target + e.tag.gap e.constraint σ = 0 := by
  obtain ⟨n, w, hf⟩ := h.form he
  have hexpression : e.constraint.expression = .ofTerm v 1 := by rw [hf]; rfl
  rw [Balances, h.pulls he, hexpression, Expression.eval_ofTerm, one_mul]

/-- The constraints of callers balance as they are, and all others are those of the edit variables,
which balance at the values that they are pulled to. -/
theorem Edited.balanced_iff (h : s.Edited T) : s.Balanced T σ ↔
    (∀ n tag c, s.constraints.get? (.declared n) = some (tag, c) →
      c.expression.eval (s.read σ) + tag.gap c σ = 0) ∧
    ∀ v e, s.edits.get? v = some e → s.read σ v - e.target + e.tag.gap e.constraint σ = 0 := by
  constructor
  · intro hb
    refine ⟨fun n tag c hc => ?_, fun v e he => ?_⟩
    · have := hb _ tag c hc
      rwa [Balances, h.plain, sub_zero] at this
    · exact (h.balances_iff he).1 (hb _ e.tag e.constraint (h.entered he))
  · rintro ⟨hdeclared, hpulled⟩ id tag c hc
    cases id with
    | declared n =>
      rw [Balances, h.plain, sub_zero]
      exact hdeclared n tag c hc
    | edit n =>
      obtain ⟨v, e, he, hid⟩ := h.edited hc
      have hentered := h.entered he
      rw [hid, hc] at hentered
      obtain ⟨rfl, rfl⟩ := Prod.mk.inj (Option.some.inj hentered)
      rw [← hid]
      exact (h.balances_iff he).2 (hpulled v e he)

/-- What the errors cost is on the constraints that may be violated. -/
theorem Booked.cost_prices_soft (h : s.Booked) (σ : Symbol → Rat) : cost s.prices σ =
    (s.constraints.entries.map fun e =>
      if e.2.2.isRequired then 0 else e.2.2.weight * e.2.1.strain σ).sum := by
  rw [cost_prices]
  congr 1
  apply List.map_congr_left
  rintro ⟨id, tag, c⟩ he
  have hfits := h.fits ((SortedMap.get?_eq_some_iff _).2 he)
  cases hr : c.isRequired with
  | true => simp [Tag.strain_of_required hfits hr]
  | false => simp

/-! ## Any calls -/

/-- Whatever calls were made, refused ones and removals of required constraints among them, as long
as none broke down. The solver has the constraints that were asked for, each with symbols of its own,
and for each edit variable a constraint with the last value suggested. An assignment of the symbols
satisfies the rows just when it satisfies the equations of all these, and then the objective is what
the errors of those that are not required cost, up to a constant. -/
theorem rows_stand_for_constraints (h : Trail Call.Any q s) :
    (∀ n, q.constraints.get? n = (s.constraints.get? (.declared n)).map (·.2)) ∧
    (∀ v, q.pulls.get? v = (s.edits.get? v).map fun e => (e.constraint.weight, e.target)) ∧
    (∀ n tag c, s.constraints.get? (.edit n) = some (tag, c) ↔ ∃ v e, s.edits.get? v = some e ∧
      e.constraint.id = .edit n ∧ e.tag = tag ∧ e.constraint = c) ∧
    s.Booked ∧
    (∀ σ, s.Solves σ ↔
      (∀ n tag c, s.constraints.get? (.declared n) = some (tag, c) →
        c.expression.eval (s.read σ) + tag.gap c σ = 0) ∧
      ∀ v e, s.edits.get? v = some e →
        s.read σ v - e.target + e.tag.gap e.constraint σ = 0) ∧
    ∃ k, ∀ σ, s.Solves σ → s.objective.eval σ = k + (s.constraints.entries.map fun e =>
      if e.2.2.isRequired then 0 else e.2.2.weight * e.2.1.strain σ).sum := by
  obtain ⟨T, hs⟩ := exists_recorded h
  refine ⟨hs.declared, hs.pulled, fun n tag c => ⟨fun hc => ?_, ?_⟩,
    hs.toBooked, fun σ => (hs.solves σ).trans hs.toEdited.balanced_iff, ?_⟩
  · obtain ⟨v, e, he, hid⟩ := hs.edited hc
    have hentered := hs.entered he
    rw [hid, hc] at hentered
    obtain ⟨rfl, rfl⟩ := Prod.mk.inj (Option.some.inj hentered)
    exact ⟨v, e, he, hid, rfl, rfl⟩
  · rintro ⟨v, e, he, hid, rfl, rfl⟩
    rw [← hid]
    exact hs.entered he
  · obtain ⟨k, hk⟩ := hs.measures
    exact ⟨k, fun σ hσ => by rw [hk σ hσ, hs.cost_prices_soft]⟩

/-- One of two equal equations is taken back, after a third that contradicts them was refused and
another variable was pulled to thirty. -/
theorem rows_stand_for_constraints_after_removal : ∃ q s, Trail Call.Any q s ∧
    s.has (.declared 0) = false ∧ s.has (.declared 1) = true ∧ s.value ⟨0⟩ = 5 ∧
    ∃ e, s.edits.get? ⟨1⟩ = some e ∧
      ∀ σ, s.Solves σ → s.read σ ⟨1⟩ - 30 + e.tag.gap e.constraint σ = 0 := by
  have h0 : Trail Call.Any {} (.empty 10) := .start 10
  have h1 := h0.granted (show Call.Any _ (.add 0 ⟨[(⟨0⟩, 1)], -5⟩ .equal Weight.required) from
    trivial) (by decide +kernel)
  have h2 := h1.granted (show Call.Any _ (.add 1 ⟨[(⟨0⟩, 1)], -5⟩ .equal Weight.required) from
    trivial) (by decide +kernel)
  have h3 := h2.denied (show Call.Any _ (.add 2 ⟨[(⟨0⟩, 1)], -7⟩ .equal Weight.required) from
    trivial) (f := .unsatisfiable) (by decide +kernel) (by decide) (by simp)
  have h4 := h3.granted (show Call.Any _ (.addEdit ⟨1⟩ Weight.strong) from trivial)
    (by decide +kernel)
  have h5 := h4.granted (show Call.Any _ (.suggest ⟨1⟩ 30) from trivial) (by decide +kernel)
  have h6 := h5.granted (show Call.Any _ (.remove 0) from trivial) (by decide +kernel)
  obtain ⟨-, hpulls, -, -, hsolves, -⟩ := rows_stand_for_constraints h6
  have hpull := (hpulls ⟨1⟩).symm.trans (show _ = some (Weight.strong, 30) by decide +kernel)
  obtain ⟨e, he, hpair⟩ := Option.map_eq_some_iff.1 hpull
  have htarget : e.target = 30 := congrArg Prod.snd hpair
  refine ⟨_, _, h6, by decide +kernel, by decide +kernel, by decide +kernel, e, he, fun σ hσ => ?_⟩
  have := ((hsolves σ).1 hσ).2 ⟨1⟩ e he
  rwa [htarget] at this

end Solver

end RegionLayout
