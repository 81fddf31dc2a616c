-- Runs of calls. What was asked for is kept in a ledger beside the solver, and each call that
-- succeeds keeps the two in step: the solver has the constraints of the ledger, and its
-- objective is what the ledger says the values cost.
import RegionLayout.Proofs.Solver.Editing

namespace RegionLayout

open Solver

/-! ## Calls -/

/-- A call that changes a solver. -/
inductive Call where
  | add (n : Nat) (e : Expression Rat) (k : Comparator) (w : Rat)
  | remove (n : Nat)
  | addEdit (v : Variable) (w : Rat)
  | removeEdit (v : Variable)
  | suggest (v : Variable) (value : Rat)
  | reset

def Call.perform (s : Solver Rat) : Call → Answer Rat Unit
  | .add n e k w => s.add (.make (.declared n) e k w)
  | .remove n => s.remove (.declared n)
  | .addEdit v w => s.addEdit v w
  | .removeEdit v => s.removeEdit v
  | .suggest v value => s.suggest v value
  | .reset => (.ok (), s.reset)

/-- The constraints asked for, by number, and the variables that are pulled, each at a weight
to a value. -/
structure Requests where
  constraints : SortedMap Nat (Constraint Rat) := ∅
  pulls : SortedMap Variable (Rat × Rat) := ∅

namespace Requests

/-- What is asked for after a call that succeeds. -/
def after (q : Requests) : Call → Requests
  | .add n e k w =>
    { q with constraints := q.constraints.insert n (.make (.declared n) e k w) }
  | .remove n => { q with constraints := q.constraints.erase n }
  | .addEdit v w => { q with pulls := q.pulls.insert v (Weight.clip w, 0) }
  | .removeEdit v => { q with pulls := q.pulls.erase v }
  | .suggest v value => { q with pulls := q.pulls.alter v fun p => p.map fun p => (p.1, value) }
  | .reset => {}

/-- The values satisfy every required constraint. -/
def Meets (q : Requests) (x : Variable → Rat) : Prop :=
  ∀ n c, q.constraints.get? n = some c → c.isRequired = true →
    c.comparator.Holds (c.expression.eval x)

/-- What the values violate, each constraint by its weight. -/
def cost (q : Requests) (x : Variable → Rat) : Rat :=
  (q.constraints.entries.map fun e => if e.2.isRequired then 0 else
    e.2.weight * e.2.comparator.violation (e.2.expression.eval x)).sum +
  (q.pulls.entries.map fun e => e.2.1 * |x e.1 - e.2.2|).sum

end Requests

/-- A call that does not take a required constraint back. -/
def Call.KeepsRequired (q : Requests) (call : Call) : Prop :=
  match call with
  | .remove n => ∀ c, q.constraints.get? n = some c → c.isRequired = false
  | _ => True

/-- Any call at all. -/
def Call.Any (_ : Requests) (_ : Call) : Prop := True

/-- Calls made one after the other, each of which succeeded. -/
inductive Run (may : Requests → Call → Prop) : Requests → Solver Rat → Prop
  | start (limit : Nat) : Run may {} (.empty limit)
  | step {q : Requests} {s : Solver Rat} {call : Call} (h : Run may q s) (ha : may q call)
      (hok : (call.perform s).1 = .ok ()) : Run may (q.after call) (call.perform s).2

namespace Solver

variable {s s' : Solver Rat} {T T' : ConstraintId → Rat} {q : Requests} {x : Variable → Rat}
  {id : ConstraintId} {p : Tag × Constraint Rat} {tag : Tag} {n : Nat}

/-! ## The cost of one constraint -/

/-- What one constraint adds to the burden. -/
def toll (T : ConstraintId → Rat) (x : Variable → Rat) (id : ConstraintId)
    (p : Tag × Constraint Rat) : Rat :=
  if p.2.isRequired then 0 else
    p.2.weight * p.2.comparator.violation (p.2.expression.eval x - T id)

theorem burden_insert (hnew : s.constraints.get? id = none)
    (hc : s'.constraints = s.constraints.insert id p) :
    s'.burden T x = s.burden T x + toll T x id p := by
  have h := SortedMap.sum_alter (toll T x) s.constraints id fun _ => some p
  rw [hnew, Option.elim_none, Option.elim_some, sub_zero] at h
  rw [burden, hc]
  exact h

theorem burden_erase (hp : s.constraints.get? id = some p)
    (hc : s'.constraints = s.constraints.erase id) :
    s'.burden T x = s.burden T x - toll T x id p := by
  have h := SortedMap.sum_alter (toll T x) s.constraints id fun _ => none
  rw [hp, Option.elim_none, Option.elim_some, zero_sub, ← sub_eq_add_neg] at h
  rw [burden, hc]
  exact h

theorem burden_congr (hT : ∀ id p, s.constraints.get? id = some p → T' id = T id) :
    s.burden T' x = s.burden T x := by
  unfold burden
  congr 1
  apply List.map_congr_left
  rintro ⟨id, p⟩ he
  rw [hT id p ((SortedMap.get?_eq_some_iff _).2 he)]

theorem burden_moved (hp : s.constraints.get? id = some p) (value : Rat) :
    s.burden (moved T id value) x =
      s.burden T x - toll T x id p + toll (moved T id value) x id p := by
  have hout : ∀ U, burden { s with constraints := s.constraints.erase id } U x =
      s.burden U x - toll U x id p := fun U => burden_erase hp rfl
  have hrest : burden { s with constraints := s.constraints.erase id } (moved T id value) x =
      burden { s with constraints := s.constraints.erase id } T x := by
    refine burden_congr fun id' p' hi => ?_
    rw [moved, Function.update_of_ne]
    rintro rfl
    simp [SortedMap.get?_erase] at hi
  rw [hout, hout] at hrest
  linarith

/-! ## The ledger and the solver -/

/-- The solver has what the ledger says. -/
structure Recorded (q : Requests) (s : Solver Rat) (T : ConstraintId → Rat) : Prop
    extends s.Sound T, s.Edited T where
  declared : ∀ n, q.constraints.get? n = (s.constraints.get? (.declared n)).map (·.2)
  pulled : ∀ v, q.pulls.get? v = (s.edits.get? v).map fun e => (e.constraint.weight, e.target)
  burden : ∀ x, s.burden T x = q.cost x

/-- The solver has what the ledger says, and is optimal. -/
structure Agrees (q : Requests) (s : Solver Rat) (T : ConstraintId → Rat) : Prop
    extends Recorded q s T where
  optimal : Optimal s.objective

theorem Recorded.meets_iff (h : Recorded q s T) : s.Meets T x ↔ q.Meets x := by
  rw [h.toEdited.meets_iff]
  constructor
  · intro ha n c hc hr
    rw [h.declared, Option.map_eq_some_iff] at hc
    obtain ⟨p, hi, rfl⟩ := hc
    exact ha n p hi hr
  · intro hm n p hi hr
    exact hm n p.2 (by rw [h.declared, hi, Option.map_some]) hr

theorem agrees_empty (limit : Nat) : Agrees {} (Solver.empty limit) fun _ => 0 where
  toSound := sound_empty _ limit
  toEdited := edited_empty limit
  declared _ := rfl
  pulled _ := rfl
  optimal y _ := by simp [Solver.empty, Row.coefficient, Row.ofConstant]
  burden x := by simp [Solver.burden, Requests.cost, Solver.empty]

/-! ## What the calls do to the ledger -/

theorem toll_declared (h : T (.declared n) = 0) : toll T x (.declared n) p =
    if p.2.isRequired then 0 else
      p.2.weight * p.2.comparator.violation (p.2.expression.eval x) := by
  rw [toll, h, sub_zero]

/-- What an edit variable costs: its weight for each unit between it and its target. -/
theorem Edited.toll_eq (h : s.Edited T) {v : Variable} {e : Edit Rat}
    (he : s.edits.get? v = some e) (U : ConstraintId → Rat) :
    toll U x e.constraint.id (e.tag, e.constraint) =
      e.constraint.weight * |x v - U e.constraint.id| := by
  have hsoft := h.soft he
  obtain ⟨n, w, hf⟩ := h.form he
  rw [toll, if_neg (by simp [hsoft])]
  simp only [hf, Constraint.make, Comparator.violation, Expression.eval_ofTerm, one_mul]

theorem Recorded.added (h : Recorded q s T) {n : Nat} {e : Expression Rat} {k : Comparator} {w : Rat}
    {m : Nat} (hnew : s.constraints.get? (.declared n) = none)
    (hc : s'.constraints = s.constraints.insert (.declared n) (tag, .make (.declared n) e k w))
    (hs : s'.Sound T) (hk : Carried m s s') : Recorded (q.after (.add n e k w)) s' T where
  toSound := hs
  toEdited := h.toEdited.of_eq (fun m => by rw [hc, SortedMap.get?_insert, if_neg (by simp)])
    hk.edits hk.editTick
  declared m := by
    rw [Requests.after, SortedMap.get?_insert, hc, SortedMap.get?_insert]
    by_cases hm : m = n
    · subst hm
      rw [if_pos rfl, if_pos rfl, Option.map_some]
    · rw [if_neg hm, if_neg (by simpa using hm), h.declared]
  pulled v := by
    rw [hk.edits]
    exact h.pulled v
  burden x := by
    have hq : q.constraints.get? n = none := by rw [h.declared, hnew, Option.map_none]
    have hsum := SortedMap.sum_alter (fun _ c => if c.isRequired then 0 else
      c.weight * c.comparator.violation (c.expression.eval x)) q.constraints n
        fun _ => some (Constraint.make (.declared n) e k w)
    rw [hq, Option.elim_none, Option.elim_some, sub_zero] at hsum
    rw [burden_insert hnew hc, h.burden, toll_declared (h.plain n), Requests.cost, Requests.cost,
      Requests.after]
    dsimp only
    rw [SortedMap.insert, hsum]
    ring

theorem Recorded.removed (h : Recorded q s T) {n m : Nat}
    (hi : s.constraints.get? (.declared n) = some p)
    (hc : s'.constraints = s.constraints.erase (.declared n))
    (hs : s'.Sound T) (hk : Carried m s s') : Recorded (q.after (.remove n)) s' T where
  toSound := hs
  toEdited := h.toEdited.of_eq (fun m => by rw [hc, SortedMap.get?_erase, if_neg (by simp)])
    hk.edits hk.editTick
  declared m := by
    rw [Requests.after, SortedMap.get?_erase, hc, SortedMap.get?_erase]
    by_cases hm : m = n
    · subst hm
      rw [if_pos rfl, if_pos rfl, Option.map_none]
    · rw [if_neg hm, if_neg (by simpa using hm), h.declared]
  pulled v := by
    rw [hk.edits]
    exact h.pulled v
  burden x := by
    have hq : q.constraints.get? n = some p.2 := by rw [h.declared, hi, Option.map_some]
    have hsum := SortedMap.sum_alter (fun _ c => if c.isRequired then 0 else
      c.weight * c.comparator.violation (c.expression.eval x)) q.constraints n fun _ => none
    rw [hq, Option.elim_none, Option.elim_some, zero_sub] at hsum
    rw [burden_erase hi hc, h.burden, toll_declared (h.plain n), Requests.cost, Requests.cost,
      Requests.after]
    dsimp only
    rw [SortedMap.erase, hsum]
    ring

theorem Agrees.removed (h : Agrees q s T) {n m : Nat}
    (hi : s.constraints.get? (.declared n) = some p)
    (hc : s'.constraints = s.constraints.erase (.declared n))
    (hs : s'.Sound T) (ho : Optimal s'.objective) (hk : Carried m s s') :
    Agrees (q.after (.remove n)) s' T := ⟨h.toRecorded.removed hi hc hs hk, ho⟩

theorem Recorded.suggested (h : Recorded q s T) {v : Variable} {value : Rat} {e : Edit Rat}
    (he : s.edits.get? v = some e) (hs : s'.Sound (Solver.moved T e.constraint.id value))
    (hc : s'.constraints = s.constraints)
    (hedits : s'.edits = s.edits.insert v { e with target := value })
    (ht : s'.editTick = s.editTick) :
    Recorded (q.after (.suggest v value)) s' (Solver.moved T e.constraint.id value) where
  toSound := hs
  toEdited := h.toEdited.of_moved he hc hedits ht
  declared m := by
    rw [hc]
    exact h.declared m
  pulled u := by
    rw [Requests.after, SortedMap.get?_alter, hedits, SortedMap.get?_insert]
    split
    · rw [h.pulled, he]
      rfl
    · exact h.pulled u
  burden x := by
    have hq : q.pulls.get? v = some (e.constraint.weight, e.target) := by
      rw [h.pulled, he, Option.map_some]
    have hsum := SortedMap.sum_alter (fun v p => p.1 * |x v - p.2|) q.pulls v
      fun p => p.map fun p => (p.1, value)
    rw [hq, Option.map_some, Option.elim_some, Option.elim_some] at hsum
    have hb : s'.burden (Solver.moved T e.constraint.id value) x =
        s.burden (Solver.moved T e.constraint.id value) x := by
      rw [Solver.burden, hc, ← Solver.burden]
    rw [hb, burden_moved (h.entered he), h.toEdited.toll_eq he, h.toEdited.toll_eq he, h.pulls he,
      Solver.moved, Function.update_self, h.burden, Requests.cost, Requests.cost, Requests.after]
    dsimp only
    rw [hsum]
    ring

theorem Recorded.editAdded (h : Recorded q s T) {v : Variable} {w : Rat}
    (he : s.edits.get? v = none) (hs : s'.Sound (Solver.moved T (.edit (s.editTick + 1)) 0))
    (hed : s'.Edited (Solver.moved T (.edit (s.editTick + 1)) 0))
    (hnew : s.constraints.get? (.edit (s.editTick + 1)) = none)
    (hc : s'.constraints =
      s.constraints.insert (.edit (s.editTick + 1)) (tag, pull (s.editTick + 1) v w))
    (hedits : s'.edits = s.edits.insert v ⟨tag, pull (s.editTick + 1) v w, 0⟩) :
    Recorded (q.after (.addEdit v w)) s' (Solver.moved T (.edit (s.editTick + 1)) 0) where
  toSound := hs
  toEdited := hed
  declared m := by
    rw [hc, SortedMap.get?_insert, if_neg (by simp)]
    exact h.declared m
  pulled u := by
    rw [Requests.after, SortedMap.get?_insert, hedits, SortedMap.get?_insert]
    split
    · rfl
    · exact h.pulled u
  burden x := by
    have hq : q.pulls.get? v = none := by rw [h.pulled, he, Option.map_none]
    have hsum := SortedMap.sum_alter (fun v p => p.1 * |x v - p.2|) q.pulls v
      fun _ => some (Weight.clip w, 0)
    rw [hq, Option.elim_none, Option.elim_some] at hsum
    have hget : s'.edits.get? v = some ⟨tag, pull (s.editTick + 1) v w, 0⟩ := by
      rw [hedits, SortedMap.get?_insert, if_pos rfl]
    have htoll := hed.toll_eq hget (x := x) (Solver.moved T (.edit (s.editTick + 1)) 0)
    rw [hed.pulls hget] at htoll
    have hold : s.burden (Solver.moved T (.edit (s.editTick + 1)) 0) x = s.burden T x := by
      refine burden_congr fun id p hi => ?_
      rw [Solver.moved, Function.update_of_ne]
      rintro rfl
      rw [hnew] at hi
      simp at hi
    rw [burden_insert hnew hc, hold, h.burden, Requests.cost, Requests.cost, Requests.after]
    dsimp only
    rw [SortedMap.insert, hsum, ← add_assoc]
    refine congrArg _ (htoll.trans ?_)
    rw [sub_zero, sub_zero]
    rfl

theorem Recorded.editRemoved (h : Recorded q s T) {v : Variable} {e : Edit Rat}
    (he : s.edits.get? v = some e) (hs : s'.Sound T) (hed : s'.Edited T)
    (hc : s'.constraints = s.constraints.erase e.constraint.id)
    (hedits : s'.edits = s.edits.erase v) : Recorded (q.after (.removeEdit v)) s' T where
  toSound := hs
  toEdited := hed
  declared m := by
    obtain ⟨n, w, hf⟩ := h.form he
    rw [hc, SortedMap.get?_erase, if_neg (by rw [hf]; simp [Constraint.make])]
    exact h.declared m
  pulled u := by
    rw [Requests.after, SortedMap.get?_erase, hedits, SortedMap.get?_erase]
    split
    · rfl
    · exact h.pulled u
  burden x := by
    have hq : q.pulls.get? v = some (e.constraint.weight, e.target) := by
      rw [h.pulled, he, Option.map_some]
    have hsum := SortedMap.sum_alter (fun v p => p.1 * |x v - p.2|) q.pulls v fun _ => none
    rw [hq, Option.elim_none, Option.elim_some] at hsum
    rw [burden_erase (h.entered he) hc, h.toEdited.toll_eq he, h.pulls he, h.burden,
      Requests.cost, Requests.cost, Requests.after]
    dsimp only
    rw [SortedMap.erase, hsum]
    ring

/-- A call that succeeds keeps the ledger and the solver in step. The dummies stay idle unless
it takes a required constraint back. -/
theorem Recorded.granted (h : Recorded q s T) {call : Call} (hok : (call.perform s).1 = .ok ()) :
    ∃ T', Recorded (q.after call) (call.perform s).2 T' ∧
      (Optimal s.objective → Optimal (call.perform s).2.objective) ∧
      (s.DummiesIdle → call.KeepsRequired q → (call.perform s).2.DummiesIdle) := by
  cases call with
  | add n e k w =>
    have hadd := h.toSound.add (.make (.declared n) e k w) (h.plain n)
      (Constraint.make_weight_nonneg _ _ _ _)
    simp only [Call.perform] at hok ⊢
    generalize s.add (.make (.declared n) e k w) = r at hadd hok ⊢
    cases hadd with
    | accepted tag hnew hc hs ho hd hk =>
      exact ⟨T, h.added hnew hc hs hk, fun _ => ho, fun hi _ => hd hi⟩
    | duplicate => simp at hok
    | refused => simp at hok
    | exhausted => simp at hok
  | remove n =>
    have hrem := h.toSound.remove (.declared n)
    simp only [Call.perform] at hok ⊢
    generalize s.remove (.declared n) = r at hrem hok ⊢
    cases hrem with
    | taken tag c hi hc hs ho hd hk =>
      refine ⟨T, h.removed hi hc hs hk, fun _ => ho,
        fun hidle hkeep => hd hidle (hidle.not_uses ?_)⟩
      have hr : c.isRequired = false := hkeep c (by rw [h.declared, hi, Option.map_some])
      rw [Bool.eq_false_iff, Ne, (h.fits hi).dummy_iff tag.marker_mem]
      simp [hr]
    | unknown => simp at hok
    | exhausted => simp at hok
  | addEdit v w =>
    have hadd := h.toSound.addEdit h.toEdited v w
    simp only [Call.perform] at hok ⊢
    generalize s.addEdit v w = r at hadd hok ⊢
    cases hadd with
    | added tag he hr hs hed hnew hc hedits ho hd =>
      exact ⟨_, h.editAdded he hs hed hnew hc hedits, fun _ => ho, fun hi _ => hd hi⟩
    | duplicate => simp at hok
    | required => simp at hok
    | exhausted => simp at hok
  | removeEdit v =>
    have hrem := h.toSound.removeEdit h.toEdited v
    simp only [Call.perform] at hok ⊢
    generalize s.removeEdit v = r at hrem hok ⊢
    cases hrem with
    | removed e he hs hed hc hedits ho hd =>
      exact ⟨T, h.editRemoved he hs hed hc hedits, fun _ => ho, fun hi _ => hd hi⟩
    | unknown => simp at hok
    | exhausted => simp at hok
  | suggest v value =>
    have hsug := h.toSound.suggest h.toEdited v value
    simp only [Call.perform] at hok ⊢
    generalize s.suggest v value = r at hsug hok ⊢
    cases hsug with
    | moved e he hs hc hedits ho hd hk =>
      exact ⟨_, h.suggested he hs hc hedits hk.1, ho, fun hi _ => hd hi⟩
    | unknown => simp at hok
    | broken => simp at hok
    | exhausted => simp at hok
  | reset =>
    have h0 := agrees_empty s.limit
    exact ⟨_, h0.toRecorded, fun _ => h0.optimal, fun _ _ => dummiesIdle_empty s.limit⟩

theorem Agrees.step (h : Agrees q s T) {call : Call} (hok : (call.perform s).1 = .ok ()) :
    ∃ T', Agrees (q.after call) (call.perform s).2 T' ∧
      (s.DummiesIdle → call.KeepsRequired q → (call.perform s).2.DummiesIdle) := by
  obtain ⟨T', hr, ho, hd⟩ := h.toRecorded.granted hok
  exact ⟨T', ⟨hr, ho h.optimal⟩, hd⟩

theorem exists_agrees {may : Requests → Call → Prop} (h : Run may q s) :
    ∃ T, Agrees q s T := by
  induction h with
  | start limit => exact ⟨_, agrees_empty limit⟩
  | step _ _ hok ih =>
    obtain ⟨T, ih⟩ := ih
    obtain ⟨T', h', -⟩ := ih.step hok
    exact ⟨T', h'⟩

theorem dummiesIdle_of_run (h : Run Call.KeepsRequired q s) : s.DummiesIdle := by
  induction h with
  | start limit => exact dummiesIdle_empty limit
  | step h ha hok ih =>
    obtain ⟨T, hs⟩ := exists_agrees h
    obtain ⟨T', -, hd⟩ := hs.step hok
    exact hd ih ha

/-- The values satisfy what is required and cost no more than any that do. -/
theorem values_are_best (h : Run Call.KeepsRequired q s) :
    q.Meets s.value ∧ ∀ x, q.Meets x → q.cost s.value ≤ q.cost x := by
  obtain ⟨T, hs⟩ := exists_agrees h
  refine ⟨hs.meets_iff.1 (hs.toSound.meets (dummiesIdle_of_run h)), fun x hx => ?_⟩
  rw [← hs.burden, ← hs.burden]
  exact hs.toSound.least hs.optimal (hs.meets_iff.2 hx)

/-- A variable held above ten, wanted at five, and then pulled to twenty and let go. -/
theorem values_are_best_after_a_pull : ∃ q s, Run Call.KeepsRequired q s ∧
    s.value ⟨0⟩ = 10 ∧ q.Meets s.value ∧ ∀ x, q.Meets x → q.cost s.value ≤ q.cost x := by
  have h0 : Run Call.KeepsRequired {} (.empty 10) := .start 10
  have h1 := h0.step (show Call.KeepsRequired _ (.add 0 ⟨[(⟨0⟩, 1)], -10⟩ .atLeast
    Weight.required) from trivial) (by decide +kernel)
  have h2 := h1.step (show Call.KeepsRequired _ (.add 1 ⟨[(⟨0⟩, 1)], -5⟩ .equal
    Weight.weak) from trivial) (by decide +kernel)
  have h3 := h2.step (show Call.KeepsRequired _ (.addEdit ⟨0⟩ Weight.strong) from trivial)
    (by decide +kernel)
  have h4 := h3.step (show Call.KeepsRequired _ (.suggest ⟨0⟩ 20) from trivial)
    (by decide +kernel)
  have h5 := h4.step (show Call.KeepsRequired _ (.removeEdit ⟨0⟩) from trivial)
    (by decide +kernel)
  exact ⟨_, _, h5, by decide +kernel, values_are_best h5⟩

/-! ## Taking a required constraint back -/

/-- A symbol that no variable and no constraint has is free. -/
theorem Sound.free_of_unowned (h : s.Sound T) {y : Symbol}
    (hv : ∀ v, s.symbols.get? v ≠ some y)
    (hc : ∀ id tag c, s.constraints.get? id = some (tag, c) → y ∉ tag.symbols) : s.Free y := by
  cases hy : s.rows.get? y with
  | none => exact hy
  | some r =>
    have hbal : s.Balanced T (Function.update s.vertex y (s.vertex y + 1)) := by
      intro id tag c hi
      have hread : s.read (Function.update s.vertex y (s.vertex y + 1)) = s.read s.vertex := by
        refine read_congr fun v z hz => Function.update_of_ne ?_ _ _
        rintro rfl
        exact hv v hz
      have hgap : tag.gap c (Function.update s.vertex y (s.vertex y + 1)) =
          tag.gap c s.vertex := by
        refine Tag.gap_congr fun z hz => Function.update_of_ne ?_ _ _
        rintro rfl
        exact hc id tag c hi hz
      rw [Balances, hread, hgap]
      exact (h.solves _).1 h.solves_vertex id tag c hi
    have hrow := (h.solves _).2 hbal y r hy
    rw [Function.update_self, Row.eval_update_of_not_uses _ ((h.absent_of_basic hy).rows y r hy),
      ← h.solves_vertex y r hy] at hrow
    linarith

/-- A restricted symbol is basic only as long as a constraint has it. -/
theorem Sound.owned_of_basic (h : s.Sound T) {y : Symbol} {r : Row Rat}
    (hy : s.rows.get? y = some r) (hye : y.isExternal = false) :
    ∃ id tag c, s.constraints.get? id = some (tag, c) ∧ y ∈ tag.symbols := by
  by_contra hno
  push Not at hno
  have hf : s.Free y := by
    apply h.free_of_unowned _ hno
    intro v hv
    rw [h.external hv] at hye
    simp at hye
  exact hf.ne_of_basic hy rfl

/-- The values satisfy what is required when the basic dummies are zero, and only then. -/
theorem Sound.meets_iff (h : s.Sound T) : s.Meets T s.value ↔
    ∀ y r, s.rows.get? y = some r → y.isDummy = true → r.constant = 0 := by
  constructor
  · intro hm y r hy hyd
    obtain ⟨id, tag, c, hi, hyt⟩ := h.owned_of_basic hy (Symbol.isExternal_of_isDummy hyd)
    have hr := (((h.fits hi).dummy_iff hyt).1 hyd).1
    obtain rfl : y = tag.marker := by
      simpa [Tag.symbols, (h.fits hi).required hr] using hyt
    rw [← vertex_basic hy]
    exact (h.holds_iff hi hr).1 (hm id tag c hi hr) hyd
  · intro hz id tag c hi hr
    refine (h.holds_iff hi hr).2 fun hyd => ?_
    cases hy : s.rows.get? tag.marker with
    | none => exact vertex_free hy
    | some r =>
      rw [vertex_basic hy]
      exact hz _ r hy hyd

/-- After a constraint is taken back, the values satisfy the required ones that stay when every
basic dummy is zero, and only then. They do as long as the dummies were idle and none of them
hung on the marker that went. -/
theorem removal_keeps_required_iff (h : Run Call.Any q s) (n : Nat)
    (hok : (s.remove (.declared n)).1 = .ok ()) :
    ((q.after (.remove n)).Meets (s.remove (.declared n)).2.value ↔
      ∀ y r, (s.remove (.declared n)).2.rows.get? y = some r → y.isDummy = true →
        r.constant = 0) ∧
    (s.DummiesIdle → (∀ p y r, s.constraints.get? (.declared n) = some p →
        s.rows.get? y = some r → y.isDummy = true → ¬ r.Uses p.1.marker) →
      (q.after (.remove n)).Meets (s.remove (.declared n)).2.value) := by
  obtain ⟨T, hs⟩ := exists_agrees h
  have hrem := hs.toSound.remove (.declared n)
  generalize s.remove (.declared n) = r at hrem hok
  cases hrem with
  | taken tag c hi hc hs' ho hd hk =>
    have ha := hs.removed hi hc hs' ho hk
    refine ⟨ha.meets_iff.symm.trans hs'.meets_iff, fun hidle hno => ?_⟩
    exact ha.meets_iff.1 (hs'.meets (hd hidle fun y r => hno _ y r hi))
  | unknown => simp at hok
  | exhausted => simp at hok

/-- Of two equations on two variables, one is taken back. -/
theorem removal_keeps_required_of_two : ∃ q s, Run Call.Any q s ∧
    (s.remove (.declared 1)).1 = .ok () ∧
      (q.after (.remove 1)).Meets (s.remove (.declared 1)).2.value := by
  have h0 : Run Call.Any {} (.empty 10) := .start 10
  have h1 := h0.step (show Call.Any _ (.add 0 ⟨[(⟨0⟩, 1)], -5⟩ .equal
    Weight.required) from trivial) (by decide +kernel)
  have h2 := h1.step (show Call.Any _ (.add 1 ⟨[(⟨1⟩, 1)], -7⟩ .equal
    Weight.required) from trivial) (by decide +kernel)
  have hmeets := removal_keeps_required_iff h2 1 (by decide +kernel)
  have hidle : DummiesIdle (Solver.remove (Call.perform (Call.perform (.empty 10)
      (.add 0 ⟨[(⟨0⟩, 1)], -5⟩ .equal Weight.required)).2
      (.add 1 ⟨[(⟨1⟩, 1)], -7⟩ .equal Weight.required)).2 (.declared 1)).2 := by decide +kernel
  exact ⟨_, _, h2, by decide +kernel, hmeets.1.2 fun y r hy hyd => (hidle y r hy hyd).1⟩

/-- A variable that two equations hold at five: one of them is taken back, and what hung on it
is not at zero any more. -/
theorem removal_breaks_required : ∃ q s, Run Call.Any q s ∧
    (s.remove (.declared 0)).1 = .ok () ∧
      ¬ (q.after (.remove 0)).Meets (s.remove (.declared 0)).2.value := by
  have h0 : Run Call.Any {} (.empty 10) := .start 10
  have h1 := h0.step (show Call.Any _ (.add 0 ⟨[(⟨0⟩, 1)], -5⟩ .equal
    Weight.required) from trivial) (by decide +kernel)
  have h2 := h1.step (show Call.Any _ (.add 1 ⟨[(⟨0⟩, 1)], -5⟩ .equal
    Weight.required) from trivial) (by decide +kernel)
  have h3 := h2.step (show Call.Any _ (.add 2 ⟨[(⟨0⟩, 1)], 0⟩ .atLeast
    Weight.required) from trivial) (by decide +kernel)
  refine ⟨_, _, h3, by decide +kernel, fun hm => ?_⟩
  have h5 := hm 1 (.make (.declared 1) ⟨[(⟨0⟩, 1)], -5⟩ .equal Weight.required) rfl
    (by decide +kernel)
  exact absurd h5 (by decide +kernel)

end Solver

end RegionLayout
