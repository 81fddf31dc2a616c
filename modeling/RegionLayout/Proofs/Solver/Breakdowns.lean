-- What a solver answers when calls go on after others that failed. As long as no required
-- constraint is taken back the dummies are idle, and then none of the states that a sound
-- tableau does not reach is met: a call that answers does what it is asked or says why not.
import RegionLayout.Proofs.Solver.Refusing

namespace RegionLayout

open Solver

/-- Calls made one after the other, each of which answered, whatever it was. -/
inductive Session (may : Requests → Call → Prop) : Requests → Solver Rat → Prop
  | start (limit : Nat) : Session may {} (.empty limit)
  | granted {q : Requests} {s : Solver Rat} {call : Call} (h : Session may q s)
      (ha : may q call) (hok : (call.perform s).1 = .ok ()) :
      Session may (q.after call) (call.perform s).2
  | denied {q : Requests} {s : Solver Rat} {call : Call} (h : Session may q s) (ha : may q call)
      {f : Fault} (hf : (call.perform s).1 = .error f) (hl : f ≠ .pivotLimit) :
      Session may q (call.perform s).2

namespace Solver

variable {s : Solver Rat} {T : ConstraintId → Rat} {q : Requests} {may : Requests → Call → Prop}

/-! ## One call -/

/-- With the dummies idle no call breaks down. Only a suggestion could: the row that has to
leave may find no symbol but dummies to enter, and an idle dummy says that it need not leave. -/
theorem Recorded.ne_breakdown (h : Recorded q s T) (hidle : s.DummiesIdle) (call : Call)
    (b : Breakdown) : (call.perform s).1 ≠ .error (.breakdown b) := by
  intro hb
  cases call with
  | add n e k w =>
    have hadd := h.toSound.add (.make (.declared n) e k w) (h.plain n)
      (Constraint.make_weight_nonneg _ _ _ _)
    simp only [Call.perform] at hb
    generalize s.add (.make (.declared n) e k w) = r at hadd hb
    cases hadd <;> simp at hb
  | remove n =>
    have hrem := h.toSound.remove (.declared n)
    simp only [Call.perform] at hb
    generalize s.remove (.declared n) = r at hrem hb
    cases hrem <;> simp at hb
  | addEdit v w =>
    have hadd := h.toSound.addEdit h.toEdited v w
    simp only [Call.perform] at hb
    generalize s.addEdit v w = r at hadd hb
    cases hadd <;> simp at hb
  | removeEdit v =>
    have hrem := h.toSound.removeEdit h.toEdited v
    simp only [Call.perform] at hb
    generalize s.removeEdit v = r at hrem hb
    cases hrem <;> simp at hb
  | suggest v value =>
    have hsug := h.toSound.suggest h.toEdited v value
    simp only [Call.perform] at hb
    generalize s.suggest v value = r at hsug hb
    cases hsug with
    | broken t hd => exact hd hidle
    | unknown => simp at hb
    | moved => simp at hb
    | exhausted => simp at hb
  | reset => simp [Call.perform] at hb

/-! ## Sessions -/

/-- A session in which no required constraint is taken back has met no breakdown. -/
theorem trail_of_session (h : Session Call.KeepsRequired q s) : Trail Call.KeepsRequired q s := by
  induction h with
  | start limit => exact .start limit
  | granted _ ha hok ih => exact ih.granted ha hok
  | @denied q s call _ ha f hf hl ih =>
    obtain ⟨T, hs⟩ := exists_recorded ih
    apply ih.denied ha hf hl
    intro b hb
    subst hb
    exact hs.ne_breakdown (dummiesIdle_of_trail ih) call b hf

theorem addAll_cons (s : Solver Rat) (c : Constraint Rat) (cs : List (Constraint Rat)) :
    s.addAll (c :: cs) = if (s.add c).1 = .ok () then (s.add c).2.addAll cs else s.add c := by
  rw [Solver.addAll]
  rcases s.add c with ⟨_ | _, t⟩ <;> simp

/-- The constraint is one that a caller can make. -/
def Declared (c : Constraint Rat) : Prop := ∃ n e k w, c = .make (.declared n) e k w

/-- A batch is a stretch of a session: one call for each constraint up to the first refused. -/
theorem batch_of_session {cs : List (Constraint Rat)} (h : Session Call.KeepsRequired q s)
    (hcs : ∀ c ∈ cs, Declared c) :
    (∀ b, (s.addAll cs).1 ≠ .error (.breakdown b)) ∧
      ((s.addAll cs).1 ≠ .error .pivotLimit →
        ∃ q', Session Call.KeepsRequired q' (s.addAll cs).2) := by
  induction cs generalizing q s with
  | nil =>
    refine ⟨?_, ?_⟩
    · simp [Solver.addAll]
    · intro _
      exact ⟨q, h⟩
  | cons c cs ih =>
    obtain ⟨n, e, k, w, rfl⟩ := hcs c (List.mem_cons_self ..)
    have hmay : Call.KeepsRequired q (.add n e k w) := trivial
    rw [addAll_cons]
    split
    · rename_i hok
      apply ih (h.granted hmay hok)
      intro c hc
      exact hcs c (List.mem_cons_of_mem _ hc)
    · rename_i hno
      refine ⟨?_, ?_⟩
      · obtain ⟨T, hs⟩ := exists_recorded (trail_of_session h)
        exact hs.ne_breakdown (dummiesIdle_of_trail (trail_of_session h)) (.add n e k w)
      · intro hl
        cases hr : (s.add (.make (.declared n) e k w)).1 with
        | ok u => exact absurd hr hno
        | error f =>
          refine ⟨q, h.denied hmay hr ?_⟩
          intro hf
          apply hl
          rw [hr, hf]

/-- However the calls before it ended, no call breaks down, nor does a batch, which leaves a
solver of a session again. The marker of every constraint is basic or stands in a row. -/
theorem sessions_never_break_down (h : Session Call.KeepsRequired q s) :
    (∀ (call : Call) (b : Breakdown), (call.perform s).1 ≠ .error (.breakdown b)) ∧
    (∀ cs : List (Constraint Rat), (∀ c ∈ cs, Declared c) →
      (∀ b, (s.addAll cs).1 ≠ .error (.breakdown b)) ∧
        ((s.addAll cs).1 ≠ .error .pivotLimit →
          ∃ q', Session Call.KeepsRequired q' (s.addAll cs).2)) ∧
    ∀ id tag c, s.constraints.get? id = some (tag, c) →
      (∃ r, s.rows.get? tag.marker = some r) ∨
        ∃ y r, s.rows.get? y = some r ∧ r.coefficient tag.marker ≠ 0 := by
  have ht := trail_of_session h
  obtain ⟨T, hs⟩ := exists_recorded ht
  refine ⟨?_, ?_, ?_⟩
  · exact hs.ne_breakdown (dummiesIdle_of_trail ht)
  · intro cs hcs
    exact batch_of_session h hcs
  · intro id tag c hc
    by_cases hfree : s.Free tag.marker
    · exact Or.inr (hs.exists_uses hc hfree)
    · exact Or.inl (Option.ne_none_iff_exists'.1 hfree)

/-- A width is held above fifty and wanted at ten, a bound of ten is refused and the wish is
taken back. A pull on the width finds its way all the same. -/
theorem session_goes_on_after_refusal : ∃ q s, Session Call.KeepsRequired q s ∧
    (∀ value, ∀ b, (s.suggest ⟨0⟩ value).1 ≠ .error (.breakdown b)) ∧
    (s.suggest ⟨0⟩ 70).1 = .ok () ∧ (s.suggest ⟨0⟩ 70).2.value ⟨0⟩ = 70 := by
  have h0 : Session Call.KeepsRequired {} (.empty 10) := .start 10
  have h1 := h0.granted (show Call.KeepsRequired _ (.add 0 ⟨[(⟨0⟩, 1)], -50⟩ .atLeast
    Weight.required) from trivial) (by decide +kernel)
  have h2 := h1.granted (show Call.KeepsRequired _ (.add 1 ⟨[(⟨0⟩, 1)], -10⟩ .equal
    Weight.weak) from trivial) (by decide +kernel)
  have h3 := h2.denied (show Call.KeepsRequired _ (.add 2 ⟨[(⟨0⟩, 1)], -10⟩ .atMost
    Weight.required) from trivial) (f := .unsatisfiable) (by decide +kernel) (by decide)
  have h4 := h3.granted (show Call.KeepsRequired _ (.remove 1) from fun c hc => by
    obtain rfl := Option.some.inj (hc.symm.trans rfl)
    decide +kernel) (by decide +kernel)
  have h5 := h4.granted (show Call.KeepsRequired _ (.addEdit ⟨0⟩ Weight.strong) from trivial)
    (by decide +kernel)
  refine ⟨_, _, h5, ?_, ?_, ?_⟩
  · intro value
    exact (sessions_never_break_down h5).1 (.suggest ⟨0⟩ value)
  · decide +kernel
  · decide +kernel

end Solver

end RegionLayout
