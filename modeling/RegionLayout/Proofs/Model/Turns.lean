-- How many turns a model's solver may take. No call changes that, however it ends; and a model that
-- was opened has at least one, for its first relation has taken it.
import RegionLayout.Proofs.Model.Reachable
import RegionLayout.Proofs.Solver.Register

namespace RegionLayout

open Solver

namespace Model

/-! ## One call after the other -/

section Calls

variable {R : Type} [Scalar R] {m m' : Model R} {density : R} {limit : Nat}

/-- The limit of turns. -/
def turns (m : Model R) : Nat := m.solver.limit

theorem unmoved_turns : Unmoved (turns : Model R → Nat) := by
  have hcall {wrap : Fault → LayoutError} {f : Solver R → Answer R Unit}
      (hf : ∀ s, (f s).2.limit = s.limit) : Keeps turns (onSolver wrap f) := by
    intro m
    rw [onSolver_apply]
    exact hf m.solver
  refine ⟨fun m => rfl, fun wrap c => ?_, fun wrap id => ?_, fun wrap v weight => ?_,
    fun wrap v => ?_, fun wrap v value => ?_⟩
  · apply hcall
    exact fun s => limit_add s c
  · apply hcall
    exact fun s => limit_remove s id
  · apply hcall
    exact fun s => limit_addEdit s v weight
  · apply hcall
    exact fun s => limit_removeEdit s v
  · apply hcall
    exact fun s => limit_suggest s v value

omit [Scalar R] in
theorem turns_put (m : Model R) (region : Region) : (m.put region).turns = m.turns := by
  unfold turns
  rw [put_solver]

theorem keeps_turns_ensureRegion (name : String) :
    Keeps turns (ensureRegion name : Change R Unit) := by
  intro m
  cases hr : m.region? name with
  | some r => rw [ensureRegion_of_some hr]
  | none =>
    rw [ensureRegion_of_none hr]
    exact ((unmoved_turns.installSizes _).bind fun _ => keeps_modify fun m => turns_put m _) _

theorem keeps_turns_ensureAttribute (name : String) (a : Attribute) :
    Keeps turns (ensureAttribute name a : Change R Unit) := by
  intro m
  cases hr : m.region? name with
  | none =>
    unfold ensureAttribute Model.region
    rw [bind_apply, ask_apply, hr]
  | some r =>
    cases hv : m.slot? ⟨name, a⟩ with
    | some v => rw [ensureAttribute_of_some hr hv]
    | none =>
      rw [ensureAttribute_of_none hr hv]
      exact (unmoved_turns.seating _ _ _ _).trans (turns_put _ _)

theorem keeps_turns_addConstraints (texts : Option (List String)) :
    Keeps turns (addConstraints texts : Change R Unit) := by
  cases texts with
  | none => exact fun _ => rfl
  | some texts =>
    have hentry : ∀ e : String × List Attribute, Keeps turns (ensureRegion e.1 >>= fun _ =>
        (e.2.filter fun a => !a.isPrimary).forM (ensureAttribute e.1) : Change R Unit) :=
      fun e => (keeps_turns_ensureRegion _).bind fun _ =>
        keeps_forM fun a _ => keeps_turns_ensureAttribute _ a
    refine (keeps_ask fun m => texts.mapM fun t => Relation.parse t m.density).bind fun rs => ?_
    refine Keeps.bind (f := Model.materialize _) (keeps_forM fun e _ => hentry e) fun _ => ?_
    refine (keeps_forM fun r _ => unmoved_turns.addRelation (fun _ _ _ => rfl) r).bind fun _ => ?_
    exact keeps_modify fun _ => rfl

/-- What is required at last is so only if the solver took a turn. -/
theorem turns_pos_of_require {lhs rhs : Expression R} {c : Comparator}
    (h : (require lhs c rhs m).1 = .ok ()) : 0 < m.turns := by
  rw [require, freshConstraint_bind, onSolver_apply] at h
  dsimp only at h
  generalize hrun : m.solver.add _ = p at h
  obtain ⟨answer, s⟩ := p
  cases answer with
  | ok => exact limit_pos_of_add (congrArg Prod.fst hrun)
  | error f => simp [Except.mapError] at h

theorem turns_of_new (h : Model.new density limit = .ok m) : 0 < m.turns := by
  have hopen := opening_of_new h
  have hkept : Keeps turns (opening density limit) :=
    (unmoved_turns.installSizes _).bind fun _ =>
      (keeps_forM fun a _ => (keeps_ask _).bind fun _ => unmoved_turns.require _ _ _).bind fun _ =>
        keeps_modify fun _ => rfl
  have hsame := hkept (blank density limit)
  rw [hopen] at hsame
  rw [hsame]
  have hwidth : variableOf (blank density limit).container .width = .ok ⟨2⟩ := rfl
  unfold opening installSizes at hopen
  rw [forM_pair] at hopen
  simp only [bind_assoc] at hopen
  rw [ask_bind hwidth, bind_apply] at hopen
  split at hopen
  · rename_i hrun
    exact turns_pos_of_require (congrArg Prod.fst hrun)
  · cases hopen

end Calls

/-! ## Reachable models -/

theorem keeps_turns (request : Request) : Keeps turns request.perform := by
  cases request with
  | addConstraints texts => exact keeps_turns_addConstraints texts
  | setTo name a value => exact unmoved_turns.setTo (fun _ _ => rfl) _ _ _
  | setAtMost name a value => exact unmoved_turns.setAtMost (fun _ _ => rfl) _ _ _
  | release name a => exact unmoved_turns.release (fun _ _ => rfl) _ _
  | setIntrinsic name axis measured =>
    exact (unmoved_turns.setIntrinsic _ _ _).bind fun _ => keeps_pure _
  | solve => exact keeps_modify fun _ => rfl

theorem Reachable.turns_pos {m : Model Rat} (h : Reachable m) : 0 < m.turns := by
  induction h with
  | new h => exact turns_of_new h
  | @build texts _ _ _ h =>
    obtain ⟨m₀, hnew, hbatch⟩ := batch_of_build h
    have hsame := keeps_turns_addConstraints texts m₀
    rw [hbatch] at hsame
    rw [hsame]
    exact turns_of_new hnew
  | @call m _ request _ ih =>
    rw [keeps_turns request m]
    exact ih

end Model

end RegionLayout
