-- When a suggestion is settled. The dual loop that it starts ends unless it comes back to a
-- basis, and it can come back only by pivots that gain nothing. It does so for an edit variable
-- that seven inequalities hold.
import RegionLayout.Proofs.Solver.Runs
import RegionLayout.Proofs.Tableau.Circling

namespace RegionLayout

open Solver

namespace Solver

variable {s t : Solver Rat} {T : ConstraintId → Rat} {q : Requests} {x : Symbol} {row : Row Rat}
  {v : Variable} {e : Edit Rat} {value : Rat} {i j k n : Nat}

/-! ## The limit -/

/-- The turn with what it leads to changed. -/
def Turn.map {α : Type} (g : α → α) : Turn α → Turn α
  | .done a => .done (g a)
  | .next a => .next (g a)
  | .broken b a => .broken b (g a)

/-- A change that no turn sees may be made after the loop. -/
theorem Turn.run_map {α : Type} {step : α → Turn α} {g : α → α}
    (h : ∀ a, step (g a) = (step a).map g) (n : Nat) (a : α) :
    Turn.run step n (g a) = ((Turn.run step n a).1, g (Turn.run step n a).2) := by
  induction n generalizing a with
  | zero => rfl
  | succ n ih =>
    have ha := h a
    cases ht : step a with
    | done a' =>
      rw [ht] at ha
      simp [Turn.run, ht, ha, Turn.map]
    | broken b a' =>
      rw [ht] at ha
      simp [Turn.run, ht, ha, Turn.map]
    | next a' =>
      rw [ht] at ha
      simp only [Turn.run, ht, ha, Turn.map]
      exact ih a'

theorem dualTurn_withLimit (s : Solver Rat) (m : Nat) :
    dualTurn { s with limit := m } = (dualTurn s).map fun u => { u with limit := m } := by
  unfold dualTurn
  dsimp only
  split
  · rfl
  · rename_i leaving rest _
    cases hr : s.rows.get? leaving with
    | none => rfl
    | some row =>
      dsimp only
      split
      · have hsame : dualEntering? { s with infeasible := rest, limit := m } row =
            dualEntering? { s with infeasible := rest } row := rfl
        rw [hsame]
        cases dualEntering? { s with infeasible := rest } row with
        | none => rfl
        | some entering => rfl
      · rfl

theorem dualOptimize_withLimit (t : Solver Rat) (n : Nat) :
    { t with limit := n }.dualOptimize = ((t.turned n).1, { (t.turned n).2 with limit := n }) :=
  Turn.run_map (fun u => dualTurn_withLimit u n) n t

theorem shiftRow_withLimit (s : Solver Rat) (x : Symbol) (row : Row Rat) (a : Rat) (n : Nat) :
    { s with limit := n }.shiftRow x row a = { s.shiftRow x row a with limit := n } := by
  unfold shiftRow
  dsimp only
  split <;> rfl

/-! ## Where the loop starts -/

theorem poised_shiftRow (hs : s.Steady) (hx : s.rows.get? x = some row)
    (hxe : x.isExternal = false) (hxd : x.isDummy = false) (ho : Optimal s.objective) (a : Rat) :
    (s.shiftRow x row a).Poised := by
  refine ⟨(shifted_shiftRow hs hx hxe hxd a).watched, ?_, by rw [shiftRow_eq]; exact ho⟩
  have hnoted : (s.shiftRow x row a).infeasible =
      if (row.shift a).constant < 0 then [x] else [] := by
    rw [shiftRow_eq, hs.noted]
  have hold : ∀ y r, (s.shiftRow x row a).rows.get? y = some r → y.isExternal = false →
      r.constant < 0 → y = x := by
    intro y r hy hye hneg
    by_contra hyx
    rw [rows_shiftRow, if_neg hyx] at hy
    exact absurd (hs.feasible y r hy hye) (not_le.2 hneg)
  have hrow : (s.shiftRow x row a).rows.get? x = some (row.shift a) := by
    rw [rows_shiftRow, if_pos rfl]
  by_cases hneg : (row.shift a).constant < 0
  · left
    rw [if_pos hneg] at hnoted
    refine ⟨x, row.shift a, [], hnoted, hrow, hxe, hneg, fun y r hy hye hyneg => ?_⟩
    rw [hold y r hy hye hyneg]
  · right
    intro y r hy hye
    by_contra hyneg
    obtain rfl := hold y r hy hye (not_le.1 hyneg)
    rw [hrow] at hy
    rw [← Option.some.inj hy] at hyneg
    exact hneg (not_le.1 hyneg)

theorem poised_shiftAll (hs : s.Steady) (hx : s.Free x) (hxd : x.isDummy = false)
    (ho : Optimal s.objective) (a : Rat) : (s.shiftAll x a).Poised := by
  refine ⟨(shifted_shiftAll hs hx hxd a).watched, ?_, ho⟩
  refine acting_or_feasible (m := (s.shiftAll x a).rows) (foldl_note (fun e =>
    !(e.2.coefficient x == 0) && decide (e.2.constant < 0) && !e.1.isExternal) _ _)
    fun y r => and_congr_right fun hy => ?_
  simp only [Bool.and_eq_true, Bool.not_eq_true', decide_eq_true_eq, beq_eq_false_iff_ne]
  constructor
  · rintro ⟨⟨-, hneg⟩, hye⟩
    exact ⟨hye, hneg⟩
  · rintro ⟨hye, hneg⟩
    refine ⟨⟨fun h0 => ?_, hneg⟩, hye⟩
    -- a row that does not have the symbol has not moved
    obtain ⟨r', hr', rfl⟩ := exists_of_shiftAll hy
    have h0 : r'.coefficient x = 0 := h0
    rw [Row.shift, h0, mul_zero, add_zero] at hneg
    exact absurd (hs.feasible y r' hr' hye) (not_le.2 hneg)

/-- A suggestion with so many turns allowed. -/
def suggestWithin (s : Solver Rat) (v : Variable) (value : Rat) (n : Nat) : Answer Rat Unit :=
  { s with limit := n }.suggest v value

/-- A suggestion is a dual loop from the tableau with one error shifted. -/
theorem Sound.suggestWithin_eq (h : s.Sound T) (hed : s.Edited T) (ho : Optimal s.objective)
    (he : s.edits.get? v = some e) (value : Rat) : ∃ t : Solver Rat, t.Poised ∧
      ∀ n, s.suggestWithin v value n = ((t.turned n).1, { (t.turned n).2 with limit := n }) := by
  obtain ⟨hmx, hmd, o, ho', hox, hod, -⟩ := h.errors hed he
  have hsteady : Steady { s with edits := s.edits.insert v { e with target := value } } :=
    h.toSteady.of_eq rfl rfl rfl rfl le_rfl
  set s₁ : Solver Rat := { s with edits := s.edits.insert v { e with target := value } }
  cases hm : s.rows.get? e.tag.marker with
  | some row =>
    refine ⟨_, poised_shiftRow hsteady hm hmx hmd ho (-(value - e.target)), fun n => ?_⟩
    rw [← dualOptimize_withLimit, ← shiftRow_withLimit]
    simp only [suggestWithin, Solver.suggest, he, hm, s₁]
  | none =>
    cases hr : s.rows.get? o with
    | some row =>
      refine ⟨_, poised_shiftRow hsteady hr hox hod ho (value - e.target), fun n => ?_⟩
      rw [← dualOptimize_withLimit, ← shiftRow_withLimit]
      simp only [suggestWithin, Solver.suggest, he, hm, ho', hr, Option.bind_some,
        Option.map_some, s₁]
    | none =>
      refine ⟨_, poised_shiftAll hsteady hm hmd ho (value - e.target), fun n => ?_⟩
      rw [← dualOptimize_withLimit]
      simp only [suggestWithin, Solver.suggest, he, hm, ho', hr, Option.bind_some,
        Option.map_none, s₁]
      rfl

/-! ## When a suggestion ends -/

/-- A suggestion for a variable that is not pulled is turned down at once. -/
theorem suggestWithin_unknown (he : s.edits.get? v = none) (value : Rat) (n : Nat) :
    s.suggestWithin v value n = (.error .unknownEdit, { s with limit := n }) := by
  unfold suggestWithin Solver.suggest
  simp only [he]

theorem not_circles_of_unknown (he : s.edits.get? v = none) :
    ¬ Circles (fun n => (s.suggestWithin v value n).2) i j k := by
  rintro ⟨-, -, -, hne⟩
  simp only [suggestWithin_unknown he] at hne
  exact hne rfl

theorem Agrees.never_ends (h : Agrees q s T)
    (hc : Circles (fun n => (s.suggestWithin v value n).2) i j k) (n : Nat) :
    (s.suggestWithin v value n).1 = .error .pivotLimit := by
  cases he : s.edits.get? v with
  | none => exact absurd hc (not_circles_of_unknown he)
  | some e =>
    obtain ⟨t, ht, heq⟩ := h.toSound.suggestWithin_eq h.toEdited h.optimal he value
    simp only [heq] at hc ⊢
    exact ht.going_of_circles hc n

/-- Some number of turns is enough for a suggestion if the loop does not leave a basis and come
back to it, and only then. Where it does come back, no pivot on the way has raised the
objective. -/
theorem suggestion_ends_iff {may : Requests → Call → Prop} (h : Run may q s) (v : Variable)
    (value : Rat) :
    ((∃ n, (s.suggestWithin v value n).1 ≠ .error .pivotLimit) ↔
      ¬ ∃ i j k, Circles (fun n => (s.suggestWithin v value n).2) i j k) ∧
    ∀ i j k, Circles (fun n => (s.suggestWithin v value n).2) i j k →
      (s.suggestWithin v value j).2.objective.constant =
        (s.suggestWithin v value i).2.objective.constant := by
  obtain ⟨T, hs⟩ := exists_agrees h
  cases he : s.edits.get? v with
  | none =>
    refine ⟨⟨fun _ => ?_, fun _ => ⟨0, ?_⟩⟩, fun i j k hc => ?_⟩
    · rintro ⟨i, j, k, hc⟩
      exact not_circles_of_unknown he hc
    · rw [suggestWithin_unknown he]
      simp
    · exact absurd hc (not_circles_of_unknown he)
  | some e =>
    obtain ⟨t, ht, heq⟩ := hs.toSound.suggestWithin_eq hs.toEdited hs.optimal he value
    simp only [heq]
    refine ⟨⟨?_, fun hno => ?_⟩, fun i j k hc => ht.objective_eq hc⟩
    · rintro ⟨n, hn⟩ ⟨i, j, k, hc⟩
      exact hn (ht.going_of_circles hc n)
    · by_contra hgo
      push Not at hgo
      exact hno (ht.circles_of_going hgo)

/-- A variable that is pulled to thirty is let down below its bound of ten, without a circle. -/
theorem suggestion_ends_at_bound : ∃ q s, Run Call.KeepsRequired q s ∧
    s.hasEdit ⟨0⟩ = true ∧
      ¬ ∃ i j k, Circles (fun n => (s.suggestWithin ⟨0⟩ 5 n).2) i j k := by
  have h0 : Run Call.KeepsRequired {} (.empty 10) := .start 10
  have h1 := h0.step (show Call.KeepsRequired _ (.add 0 ⟨[(⟨0⟩, 1)], -10⟩ .atLeast
    Weight.required) from trivial) (by decide +kernel)
  have h2 := h1.step (show Call.KeepsRequired _ (.addEdit ⟨0⟩ Weight.strong) from trivial)
    (by decide +kernel)
  have h3 := h2.step (show Call.KeepsRequired _ (.suggest ⟨0⟩ 30) from trivial)
    (by decide +kernel)
  exact ⟨_, _, h3, by decide +kernel, (suggestion_ends_iff h3 ⟨0⟩ 5).1.1
    ⟨9, by decide +kernel⟩⟩

/-- Of the variables `e`, `y` and `x`, the first is pulled from zero to one, and `y` is held
above three multiples of `x` and `e` on either side of the axis and above zero. After eight
pivots the basis is the one that the loop began with. -/
theorem suggestion_never_ends : ∃ q s, Run Call.KeepsRequired q s ∧ s.hasEdit ⟨0⟩ = true ∧
    ∀ n, (s.suggestWithin ⟨0⟩ 1 n).1 = .error .pivotLimit := by
  have h0 : Run Call.KeepsRequired {} (.empty 10) := .start 10
  have h1 := h0.step (show Call.KeepsRequired _ (.addEdit ⟨0⟩ Weight.strong) from trivial)
    (by decide +kernel)
  have h2 := h1.step (show Call.KeepsRequired _ (.add 0 ⟨[(⟨1⟩, 1), (⟨2⟩, -1), (⟨0⟩, -3)], 0⟩
    .atLeast Weight.required) from trivial) (by decide +kernel)
  have h3 := h2.step (show Call.KeepsRequired _ (.add 1 ⟨[(⟨1⟩, 1), (⟨2⟩, -7 / 8),
    (⟨0⟩, -5 / 4)], 0⟩ .atLeast Weight.required) from trivial) (by decide +kernel)
  have h4 := h3.step (show Call.KeepsRequired _ (.add 2 ⟨[(⟨1⟩, 1), (⟨2⟩, 1), (⟨0⟩, -3)], 0⟩
    .atLeast Weight.required) from trivial) (by decide +kernel)
  have h5 := h4.step (show Call.KeepsRequired _ (.add 3 ⟨[(⟨1⟩, 1), (⟨2⟩, 7 / 8),
    (⟨0⟩, -5 / 4)], 0⟩ .atLeast Weight.required) from trivial) (by decide +kernel)
  have h6 := h5.step (show Call.KeepsRequired _ (.add 4 ⟨[(⟨1⟩, 1), (⟨2⟩, -1), (⟨0⟩, -1)], 0⟩
    .atLeast Weight.required) from trivial) (by decide +kernel)
  have h7 := h6.step (show Call.KeepsRequired _ (.add 5 ⟨[(⟨1⟩, 1), (⟨2⟩, 1), (⟨0⟩, -1)], 0⟩
    .atLeast Weight.required) from trivial) (by decide +kernel)
  have h8 := h7.step (show Call.KeepsRequired _ (.add 6 ⟨[(⟨1⟩, 1)], 0⟩
    .atLeast Weight.required) from trivial) (by decide +kernel)
  obtain ⟨T, hs⟩ := exists_agrees h8
  refine ⟨_, _, h8, by decide +kernel, fun n => ?_⟩
  refine hs.never_ends (i := 0) (j := 1) (k := 8) ⟨by decide, by decide, ?_, ?_⟩ n <;>
    decide +kernel

end Solver

end RegionLayout
