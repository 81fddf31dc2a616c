-- When a model takes a size that the host has measured. It does so for as long as the variable of
-- the size is pulled. The edit is there from when the attribute is made, but calls that tie the
-- attribute share it: one that ends a tie to a value takes the edit away, and nothing puts it back
-- but another such tie.
import RegionLayout.Proofs.Model.Granted
import RegionLayout.Proofs.Model.Holdings
import RegionLayout.Proofs.Solver.Suggesting

namespace RegionLayout

open Solver

/-! ## Suggestions that end -/

namespace Solver

variable {q : Requests} {s : Solver Rat} {T : ConstraintId → Rat} {v : Variable} {value : Rat}

/-- A variable that is pulled can be moved in some number of turns unless the loop goes round. -/
theorem Agrees.ends_of_not_circles (h : Agrees q s T) (hv : s.hasEdit v = true)
    (hno : ¬ ∃ i j k, Circles (fun n => (s.suggestWithin v value n).2) i j k) :
    ∃ n, (s.suggestWithin v value n).1 ≠ .error .pivotLimit := by
  obtain ⟨e, he⟩ := (SortedMap.contains_eq_true_iff _).1 hv
  obtain ⟨t, ht, heq⟩ := h.toSound.suggestWithin_eq h.toEdited h.optimal he value
  simp only [heq] at hno ⊢
  by_contra hgo
  push Not at hgo
  exact hno (ht.circles_of_going hgo)

end Solver

namespace Model

variable {R : Type} [Scalar R] {name : String} {axis : Axis} {v : Variable}

theorem setIntrinsic_of_slot {m : Model R} (hv : m.slot? ⟨name, axis.intrinsic⟩ = some v)
    (measured : Int) : setIntrinsic name axis measured m =
      if Scalar.round (m.valueOf v) = measured then (.ok false, m)
      else (((m.solver.suggest v (Scalar.ofInt measured)).1.mapError .solver).map fun _ => true,
        { m with solver := (m.solver.suggest v (Scalar.ofInt measured)).2 }) := by
  obtain ⟨r, hr, hg⟩ := region_of_slot hv
  rw [setIntrinsic, ask_bind (a := v), get_bind]
  · split
    · rfl
    · rw [bind_apply, onSolver_apply]
      cases (m.solver.suggest v (Scalar.ofInt measured)).1 <;> rfl
  · have hreg : m.region name = .ok r := region_eq_ok_iff.2 hr
    simp only [hreg, Bind.bind, Except.bind]
    dsimp only at hg
    rw [hg]
    rfl

theorem suggest_unknown {s : Solver R} (hv : s.hasEdit v = false) (value : R) :
    s.suggest v value = (.error .unknownEdit, s) := by
  have hnone := (SortedMap.contains_eq_false_iff _).1 hv
  unfold Solver.suggest
  simp only [hnone]

/-- A size that is news fails when its variable is not pulled. -/
theorem setIntrinsic_of_no_edit {m : Model R} (hv : m.slot? ⟨name, axis.intrinsic⟩ = some v)
    {measured : Int} (hnews : Scalar.round (m.valueOf v) ≠ measured)
    (hno : m.solver.hasEdit v = false) :
    setIntrinsic name axis measured m = (.error (.solver .unknownEdit), m) := by
  rw [setIntrinsic_of_slot hv, if_neg hnews, suggest_unknown hno]
  rfl

/-! ## Courses without a failure -/

variable {m : Model Rat} {log : List (Command Rat)}

/-- A call that succeeded. -/
def Obliging (_ : Command Rat) (answer : Except LayoutError Unit) : Prop := answer = .ok ()

def Command.request : Command Rat → Request
  | .add texts => .addConstraints texts
  | .bind ref (some (.exactly value)) => .setTo ref.region ref.attr value
  | .bind ref (some (.atMost value)) => .setAtMost ref.region ref.attr value
  | .bind ref none => .release ref.region ref.attr
  | .measure name axis measured => .setIntrinsic name axis measured
  | .solve => .solve

theorem Command.perform_request (c : Command Rat) : c.request.perform = c.perform := by
  unfold Command.request Command.perform
  split <;> rfl

theorem Course.granted (h : Course Obliging log m) : Granted m := by
  induction h with
  | new h => exact .new h
  | build h => exact .build h
  | @done _ m m' _ c _ hok ih =>
    have hcall := ih.call c.request (by rw [c.perform_request, hok])
    rwa [c.perform_request, hok] at hcall
  | failed _ c hm _ _ => cases hm

theorem Course.hasEdit_iff (h : Course Obliging log m) {ref : AttributeRef}
    (hv : m.slot? ref = some v) : m.solver.hasEdit v = true ↔ Drawn (tellings log) ref := by
  obtain ⟨held, hg⟩ := h.grounded fun _ _ hm => by cases hm
  rw [hg.hasEdit_iff]
  exact h.charted.due_iff hv

/-! ## Measured sizes -/

/-- A size that is pulled is taken, given turns enough, unless the dual loop goes round. -/
theorem Course.takes_iff (h : Course Obliging log m) {v : Variable} (hv : m.solver.hasEdit v = true)
    (value : Rat) : (∃ n, ((m.withLimit n).solver.suggest v value).1 = .ok ()) ↔
      ¬ ∃ i j k, Circles (fun n => (m.solver.suggestWithin v value n).2) i j k := by
  have hw := h.granted.weighed
  obtain ⟨q, T, ha, -⟩ := hw.weighs.accounts
  constructor
  · rintro ⟨n, hn⟩ ⟨i, j, k, hc⟩
    cases hn.symm.trans (ha.never_ends hc n)
  · intro hno
    obtain ⟨n, hn⟩ := ha.ends_of_not_circles hv hno
    refine ⟨n, ?_⟩
    -- a suggestion fails over a missing edit, or with too few turns
    have hsug := (hw.toSettled.withLimit n).kept.suggest v value
    obtain ⟨e, he⟩ := (SortedMap.contains_eq_true_iff _).1 hv
    rw [onSolver_apply] at hsug
    cases hans : ((m.withLimit n).solver.suggest v value).1 with
    | ok => rfl
    | error fault =>
      rw [hans] at hsug
      cases hsug with
      | error hE => cases (he.symm.trans hE.2.2 : some e = none)
      | spent _ => exact absurd hans hn

/-- Given turns enough a measured size is taken just when it is no news, or its attribute is drawn
to some value and the dual loop does not go round over it. Where an attribute was released or held
down after it was told a value, every size that is news fails, and changes nothing. -/
theorem measured_size_is_taken_iff (h : Course Obliging log m)
    (hv : m.slot? ⟨name, axis.intrinsic⟩ = some v) (measured : Int) :
    ((∃ n news, (setIntrinsic name axis measured (m.withLimit n)).1 = .ok news) ↔
      Scalar.round (m.valueOf v) = measured ∨ Drawn (tellings log) ⟨name, axis.intrinsic⟩ ∧
        ¬ ∃ i j k, Circles (fun n => (m.solver.suggestWithin v measured n).2) i j k) ∧
      (¬ Drawn (tellings log) ⟨name, axis.intrinsic⟩ → Scalar.round (m.valueOf v) ≠ measured →
        ∀ n, setIntrinsic name axis measured (m.withLimit n) =
          (.error (.solver .unknownEdit), m.withLimit n)) := by
  have happly (n : Nat) : setIntrinsic name axis measured (m.withLimit n) =
      if Scalar.round (m.valueOf v) = measured then (.ok false, m.withLimit n)
      else ((((m.withLimit n).solver.suggest v measured).1.mapError .solver).map fun _ => true,
        { m.withLimit n with solver := ((m.withLimit n).solver.suggest v measured).2 }) :=
    setIntrinsic_of_slot (m := m.withLimit n) hv measured
  have hlost (hno : ¬ Drawn (tellings log) ⟨name, axis.intrinsic⟩) :
      m.solver.hasEdit v = false := by
    rwa [← h.hasEdit_iff hv, Bool.not_eq_true] at hno
  refine ⟨?_, fun hno hnews n => setIntrinsic_of_no_edit (m := m.withLimit n) hv hnews (hlost hno)⟩
  simp only [happly]
  by_cases hnews : Scalar.round (m.valueOf v) = measured
  · simp [hnews]
  simp only [hnews, if_false, false_or]
  constructor
  · rintro ⟨n, news, hok⟩
    have hsug : ((m.withLimit n).solver.suggest v measured).1 = .ok () := by
      cases hans : ((m.withLimit n).solver.suggest v measured).1 with
      | ok => rfl
      | error fault =>
        rw [hans] at hok
        cases hok
    have hdrawn : Drawn (tellings log) ⟨name, axis.intrinsic⟩ := by
      by_contra hno
      rw [suggest_unknown (s := (m.withLimit n).solver) (hlost hno)] at hsug
      cases hsug
    exact ⟨hdrawn, (h.takes_iff ((h.hasEdit_iff hv).2 hdrawn) measured).1 ⟨n, hsug⟩⟩
  · rintro ⟨hdrawn, hno⟩
    obtain ⟨n, hn⟩ := (h.takes_iff ((h.hasEdit_iff hv).2 hdrawn) measured).2 hno
    exact ⟨n, true, by rw [hn]; rfl⟩

/-- The width that was measured has been told a value before, and is still told it. -/
theorem measured_size_is_taken_while_told : ∃ log, ∃ m : Model Rat, Course Obliging log m ∧
    (∃ n news, (setIntrinsic "a" .horizontal 30 (m.withLimit n)).1 = .ok news) ∧
      Drawn (tellings log) ⟨"a", .intrinsicWidth⟩ ∧
        ¬ ∃ i j k, Circles (fun n => (m.solver.suggestWithin ⟨8⟩ 30 n).2) i j k := by
  have h₁ := (course_opening Obliging).done (.add (some ["a.width == a.intrinsicWidth"])) rfl
    (eq_of_answer (x := .ok ()) (by decide +kernel))
  have h₂ := h₁.done (.bind ⟨"a", .intrinsicWidth⟩ (some (.exactly 5))) rfl
    (eq_of_answer (x := .ok ()) (by decide +kernel))
  obtain ⟨m, hm, hv, hround, hok⟩ : ∃ m, Course Obliging _ m ∧
      m.slot? ⟨"a", Axis.horizontal.intrinsic⟩ = some ⟨8⟩ ∧ Scalar.round (m.valueOf ⟨8⟩) ≠ 30 ∧
        (setIntrinsic "a" .horizontal 30 (m.withLimit 100)).1 = .ok true :=
    ⟨_, h₂, by decide +kernel⟩
  have htaken := (measured_size_is_taken_iff hm hv 30).1.1 ⟨100, true, hok⟩
  obtain ⟨hdrawn, hno⟩ := htaken.resolve_left hround
  exact ⟨_, m, hm, ⟨100, true, hok⟩, hdrawn, hno⟩

/-- The width was told a value and released, and is not pulled since. -/
theorem measured_size_is_not_taken_after_release : ∃ log, ∃ m : Model Rat,
    Course Obliging log m ∧ m.Knows ⟨"a", .intrinsicWidth⟩ ∧
      ∀ n, (setIntrinsic "a" .horizontal 30 (m.withLimit n)).1 = .error (.solver .unknownEdit) := by
  have h₁ := (course_opening Obliging).done (.add (some ["a.width == a.intrinsicWidth"])) rfl
    (eq_of_answer (x := .ok ()) (by decide +kernel))
  have h₂ := h₁.done (.bind ⟨"a", .intrinsicWidth⟩ (some (.exactly 5))) rfl
    (eq_of_answer (x := .ok ()) (by decide +kernel))
  have h₃ := h₂.done (.bind ⟨"a", .intrinsicWidth⟩ none) rfl
    (eq_of_answer (x := .ok ()) (by decide +kernel))
  obtain ⟨m, hm, hv, hround, hedit⟩ : ∃ m, Course Obliging _ m ∧
      m.slot? ⟨"a", Axis.horizontal.intrinsic⟩ = some ⟨8⟩ ∧ Scalar.round (m.valueOf ⟨8⟩) ≠ 30 ∧
        m.solver.hasEdit ⟨8⟩ = false :=
    ⟨_, h₃, by decide +kernel⟩
  exact ⟨_, m, hm, knows_iff.2 ⟨⟨8⟩, hv⟩, fun n =>
    congrArg Prod.fst (setIntrinsic_of_no_edit (m := m.withLimit n) hv hround hedit)⟩

end Model

end RegionLayout
