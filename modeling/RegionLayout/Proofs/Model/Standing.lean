-- Calls that find the model as they want it. What an attribute is bound to stands until it is bound
-- to something else; to bind it to the same once more, or to suggest a value that is pulled to
-- already, answers well and changes nothing at all.
import RegionLayout.Proofs.Model.Measuring
import RegionLayout.Proofs.Model.Turns

namespace RegionLayout

open Solver

namespace SortedMap

variable {κ α : Type} [Ord κ] [Std.TransOrd κ] [Std.LawfulEqOrd κ] [DecidableEq κ]
  {m : SortedMap κ α} {k : κ} {a : α}

theorem insert_of_get? (h : m.get? k = some a) : m.insert k a = m := by
  apply ext_get?
  intro j
  rw [get?_insert]
  by_cases hj : j = k
  · rw [if_pos hj, hj, h]
  · rw [if_neg hj]

theorem erase_of_get? (h : m.get? k = none) : m.erase k = m := by
  apply ext_get?
  intro j
  rw [get?_erase]
  by_cases hj : j = k
  · rw [if_pos hj, hj, h]
  · rw [if_neg hj]

end SortedMap

/-! ## The solver -/

namespace Solver

variable {s : Solver Rat} {T : ConstraintId → Rat} {x : Symbol} {row : Row Rat} {v : Variable}
  {value : Rat}

theorem Steady.shiftRow_zero (h : s.Steady) (hrow : s.rows.get? x = some row)
    (hx : x.isExternal = false) : s.shiftRow x row 0 = s := by
  have hshift : row.shift 0 = row := by
    unfold Row.shift
    rw [add_zero]
  have hpos : ¬ row.constant < 0 := not_lt.2 (h.feasible x row hrow hx)
  unfold shiftRow putRow
  rw [hshift, if_neg hpos, SortedMap.insert_of_get? hrow]

theorem Steady.shiftAll_zero (h : s.Steady) (x : Symbol) : s.shiftAll x 0 = s := by
  have hrows : (s.shiftAll x 0).rows = s.rows := by
    apply SortedMap.ext_get?
    intro y
    rw [rows_shiftAll]
    cases s.rows.get? y with
    | none => rfl
    | some r => simp [Row.shift]
  have hnoted : (s.shiftAll x 0).infeasible = s.infeasible := by
    rw [h.noted, List.eq_nil_iff_forall_not_mem]
    intro y hy
    rcases mem_infeasible_shiftAll.1 hy with hy | ⟨r, hr, -, hneg, hye⟩
    · rw [h.noted] at hy
      simp at hy
    · rw [hrows] at hr
      exact absurd (h.feasible y r hr hye) (not_le.2 hneg)
  calc s.shiftAll x 0
      = { s with rows := (s.shiftAll x 0).rows, infeasible := (s.shiftAll x 0).infeasible } := rfl
    _ = s := by rw [hrows, hnoted]

/-- Where nothing is noted, the dual loop is over in one turn. -/
theorem Steady.dualOptimize_still (h : s.Steady) (hn : 0 < s.limit) :
    s.dualOptimize = (.ok (), s) := by
  obtain ⟨n, hlimit⟩ := Nat.exists_eq_succ_of_ne_zero hn.ne'
  unfold dualOptimize
  rw [hlimit]
  simp [Turn.run, dualTurn, h.noted]

/-- A value that is pulled to already changes nothing. -/
theorem Sound.suggest_again (h : s.Sound T) (hed : s.Edited T) (hn : 0 < s.limit)
    (ht : s.target? v = some value) : s.suggest v value = (.ok (), s) := by
  obtain ⟨e, he, rfl⟩ := Option.map_eq_some_iff.1 ht
  obtain ⟨hmx, -, o, ho, hox, -, -⟩ := h.errors hed he
  have hsame : s.edits.insert v { e with target := e.target } = s.edits :=
    SortedMap.insert_of_get? he
  have hstill := h.toSteady.dualOptimize_still hn
  unfold Solver.suggest
  simp only [he, hsame, sub_self, neg_zero]
  split
  · rename_i row hrow
    rw [h.toSteady.shiftRow_zero hrow hmx]
    exact hstill
  · split
    · rename_i y row hy
      rw [ho, Option.bind_some] at hy
      obtain ⟨row', hrow, hp⟩ := Option.map_eq_some_iff.1 hy
      obtain ⟨rfl, rfl⟩ := Prod.mk.inj hp
      rw [h.toSteady.shiftRow_zero hrow hox]
      exact hstill
    · rw [h.toSteady.shiftAll_zero]
      exact hstill

end Solver

namespace Model

variable {m m' m₁ : Model Rat} {ref : AttributeRef} {name : String} {axis : Axis} {u v : Variable}
  {wish : Option (Wish Rat)} {value : Rat} {measured : Int}

/-! ## What stands -/

/-- The variable is bound as its attribute was told, and pulled where it was told to be. -/
def Stands (wish : Option (Wish Rat)) (v : Variable) (m : Model Rat) : Prop :=
  match wish with
  | some (.exactly x) => m.bindings.get? v = some .exact ∧ m.solver.target? v = some x
  | some (.atMost x) => ∃ id, m.bindings.get? v = some (.atMost id x)
  | none => m.bindings.get? v = none

/-- Only the solver and what binds one variable are others. -/
structure Elsewhere (v : Variable) (m m' : Model Rat) : Prop where
  frame : m' = { m with
    solver := m'.solver, bindings := m'.bindings, nextConstraint := m'.nextConstraint }
  bindings : ∀ u, u ≠ v → m'.bindings.get? u = m.bindings.get? u
  targets : ∀ u, u ≠ v → m'.solver.target? u = m.solver.target? u

theorem Elsewhere.refl (v : Variable) (m : Model Rat) : Elsewhere v m m :=
  ⟨rfl, fun _ _ => rfl, fun _ _ => rfl⟩

theorem Elsewhere.trans (h : Elsewhere v m m₁) (h' : Elsewhere v m₁ m') : Elsewhere v m m' where
  frame := by rw [h'.frame, h.frame]
  bindings u hu := (h'.bindings u hu).trans (h.bindings u hu)
  targets u hu := (h'.targets u hu).trans (h.targets u hu)

theorem Elsewhere.bound (v : Variable) (b : Binding Rat) (m : Model Rat) :
    Elsewhere v m { m with bindings := m.bindings.insert v b } := by
  refine ⟨rfl, fun u hu => ?_, fun _ _ => rfl⟩
  change (m.bindings.insert v b).get? u = _
  rw [SortedMap.get?_insert, if_neg hu]

theorem Elsewhere.unbound (v : Variable) (m : Model Rat) :
    Elsewhere v m { m with bindings := m.bindings.erase v } := by
  refine ⟨rfl, fun u hu => ?_, fun _ _ => rfl⟩
  change (m.bindings.erase v).get? u = _
  rw [SortedMap.get?_erase, if_neg hu]

theorem Elsewhere.slot? (h : Elsewhere v m m') : m'.slot? = m.slot? := by
  rw [h.frame]
  rfl

/-- What stands elsewhere still does. -/
theorem Elsewhere.stands (h : Elsewhere u m m') (hne : v ≠ u) (hs : Stands wish v m) :
    Stands wish v m' := by
  unfold Stands at *
  rw [h.bindings v hne, h.targets v hne]
  exact hs

/-! ## Calls of the solver -/

theorem elsewhere_solver {s : Solver Rat} {n : Nat}
    (h : ∀ u, u ≠ v → s.edits.get? u = m.solver.edits.get? u) :
    Elsewhere v m { m with solver := s, nextConstraint := n } := by
  refine ⟨rfl, fun _ _ => rfl, fun u hu => ?_⟩
  change s.target? u = m.solver.target? u
  unfold Solver.target?
  rw [h u hu]

theorem elsewhere_remove (v : Variable) (id : ConstraintId) (m : Model Rat) :
    Yields (fun _ m' => Elsewhere v m m') (onSolver .solver (·.remove id) m) := by
  refine yields_onSolver fun s hok => elsewhere_solver fun u _ => ?_
  obtain ⟨-, hr⟩ := register_of_remove hok
  rw [show s.edits = m.solver.edits from (Prod.mk.inj hr).2]

theorem elsewhere_removeEdit (v : Variable) (m : Model Rat) :
    Yields (fun _ m' => Elsewhere v m m' ∧ m'.bindings = m.bindings)
      (onSolver .solver (·.removeEdit v) m) := by
  refine yields_onSolver fun s hok => ⟨elsewhere_solver fun u hu => ?_, rfl⟩
  obtain ⟨e, -, hr⟩ := register_of_removeEdit hok
  rw [show s.edits = m.solver.edits.erase v from (Prod.mk.inj hr).2, SortedMap.get?_erase,
    if_neg hu]

theorem elsewhere_addEdit (v : Variable) (weight : Rat) (m : Model Rat) :
    Yields (fun _ m' => Elsewhere v m m') (onSolver .solver (·.addEdit v weight) m) := by
  refine yields_onSolver fun s hok => elsewhere_solver fun u hu => ?_
  obtain ⟨-, id, tag, -, hr⟩ := register_of_addEdit hok
  rw [show s.edits = m.solver.edits.insert v _ from (Prod.mk.inj hr).2, SortedMap.get?_insert,
    if_neg hu]

theorem elsewhere_suggest (v : Variable) (value : Rat) (m : Model Rat) :
    Yields (fun _ m' => m' = { m with solver := m'.solver } ∧
        m'.solver.target? = Function.update m.solver.target? v (some value))
      (onSolver .solver (·.suggest v value) m) := by
  refine yields_onSolver fun s hok => ⟨rfl, ?_⟩
  obtain ⟨e, -, hr⟩ := register_of_suggest hok
  have hedits : s.edits = m.solver.edits.insert v { e with target := value } := (Prod.mk.inj hr).2
  funext u
  change s.target? u = _
  unfold Solver.target?
  rw [hedits, SortedMap.get?_insert]
  by_cases hu : u = v
  · rw [if_pos hu, hu, Function.update_self]
    rfl
  · rw [if_neg hu, Function.update_of_ne hu]

/-! ## Binding -/

/-- A variable is pulled to a value, by the edit it has or by a new one. -/
theorem stands_draw (v : Variable) (value : Rat) (m : Model Rat) :
    Yields (fun _ m' => Stands (some (.exactly value)) v m' ∧ Elsewhere v m m')
      ((if (!m.solver.hasEdit v) = true then
        onSolver .solver (·.addEdit v Weight.strong) >>= fun _ =>
          Model.bind v .exact >>= fun _ => onSolver .solver (·.suggest v value)
      else Model.bind v .exact >>= fun _ => onSolver .solver (·.suggest v value)) m) := by
  have hpull : ∀ m₁, Yields (fun _ m' => Stands (some (.exactly value)) v m' ∧ Elsewhere v m₁ m')
      ((Model.bind v .exact >>= fun _ => onSolver .solver (·.suggest v value)) m₁) := by
    intro m₁
    change Yields _ (onSolver .solver (·.suggest v value)
      { m₁ with bindings := m₁.bindings.insert v .exact })
    refine (elsewhere_suggest v value _).imp fun _ m₂ ⟨hframe, ht⟩ => ⟨⟨?_, ?_⟩, ?_⟩
    · rw [hframe]
      exact (SortedMap.get?_insert _ _ _ _).trans (if_pos rfl)
    · rw [ht, Function.update_self]
    · refine (Elsewhere.bound v .exact m₁).trans ⟨?_, fun u _ => ?_, fun u hu => ?_⟩
      · rw [hframe]
      · rw [hframe]
      · rw [ht, Function.update_of_ne hu]
  split
  · refine (elsewhere_addEdit v Weight.strong m).bind fun _ m₁ h₁ => ?_
    exact (hpull m₁).imp fun _ m₂ h₂ => ⟨h₂.1, h₁.trans h₂.2⟩
  · exact hpull m

/-- A variable is held down by a new constraint. -/
theorem stands_hold (v : Variable) (value : Rat) (m : Model Rat) :
    Yields (fun _ m' => Stands (some (.atMost value)) v m' ∧ Elsewhere v m m')
      ((freshConstraint >>= fun id => onSolver .solver (·.add (.relate id (.ofVariable v) .atMost
        (.ofConstant value) Weight.strong)) >>= fun _ => Model.bind v (.atMost id value)) m) := by
  rw [freshConstraint_bind]
  refine Comes.bind (Q := fun _ m₁ => Elsewhere v m m₁) (yields_onSolver fun s hok => ?_)
    fun _ m₁ h₁ => .ok ⟨⟨.declared m.nextConstraint, ?_⟩, h₁.trans (.bound v _ m₁)⟩
  · have hadd := registered_add m.solver (.relate (.declared m.nextConstraint) (.ofVariable v)
      .atMost (.ofConstant value) Weight.strong)
    rw [show m.solver.add _ = (.ok (), s) from hok] at hadd
    cases hadd with
    | entered tag hnew hr =>
      refine elsewhere_solver fun u _ => ?_
      rw [show s.edits = m.solver.edits from (Prod.mk.inj hr).2]
  · exact (SortedMap.get?_insert _ _ _ _).trans (if_pos rfl)

section Binding

variable (hlookup : m.lookup ref.region ref.attr = .ok v)

include hlookup

theorem stands_release : Yields (fun _ m' => m'.bindings.get? v = none ∧ Elsewhere v m m')
    (release ref.region ref.attr m) := by
  have hfree : ({ m with bindings := m.bindings.erase v } : Model Rat).bindings.get? v = none :=
    (SortedMap.get?_erase _ _ _).trans (if_pos rfl)
  have hoff := Elsewhere.unbound v m
  rw [Model.release, ask_bind hlookup, get_bind]
  cases m.bindings.get? v with
  | none => exact .ok ⟨hfree, hoff⟩
  | some b =>
    cases b with
    | exact =>
      refine (elsewhere_removeEdit v { m with bindings := m.bindings.erase v }).imp
        fun _ m₁ h₁ => ⟨?_, hoff.trans h₁.1⟩
      rw [h₁.2]
      exact hfree
    | atMost id x =>
      change Yields _ (onSolver .solver (·.remove id)
        { m with bindings := m.bindings.erase v })
      refine ((elsewhere_remove v id _).and (yields_onSolver (Q := fun _ m' =>
        m'.bindings = m.bindings.erase v) fun _ _ => rfl)).imp fun _ m₁ h₁ => ⟨?_, hoff.trans h₁.1⟩
      rw [h₁.2]
      exact hfree

theorem stands_setTo (value : Rat) :
    Yields (fun _ m' => Stands (some (.exactly value)) v m' ∧ Elsewhere v m m')
      (setTo ref.region ref.attr value m) := by
  rw [Model.setTo, ask_bind hlookup, get_bind]
  cases m.bindings.get? v with
  | none => exact stands_draw v value m
  | some b =>
    cases b with
    | exact => exact stands_draw v value m
    | atMost id _ =>
      refine (elsewhere_remove v id m).bind fun _ m₁ h₁ => ?_
      refine (stands_draw v value { m₁ with bindings := m₁.bindings.erase v }).imp
        fun _ m₂ h₂ => ⟨h₂.1, (h₁.trans (.unbound v m₁)).trans h₂.2⟩

theorem stands_setAtMost (value : Rat) :
    Yields (fun _ m' => Stands (some (.atMost value)) v m' ∧ Elsewhere v m m')
      (setAtMost ref.region ref.attr value m) := by
  rw [Model.setAtMost, ask_bind hlookup, get_bind]
  cases hb : m.bindings.get? v with
  | none => exact stands_hold v value m
  | some b =>
    cases b with
    | exact =>
      refine (elsewhere_removeEdit v m).bind fun _ m₁ h₁ => ?_
      exact (stands_hold v value m₁).imp fun _ m₂ h₂ => ⟨h₂.1, h₁.1.trans h₂.2⟩
    | atMost id current =>
      change Yields _ ((if (current == value) = true then _ else _ : Change Rat Unit) m)
      split
      · rename_i heq
        obtain rfl : current = value := by simpa using heq
        exact .ok ⟨⟨id, hb⟩, .refl v m⟩
      · refine (elsewhere_remove v id m).bind fun _ m₁ h₁ => ?_
        exact (stands_hold v value m₁).imp fun _ m₂ h₂ => ⟨h₂.1, h₁.trans h₂.2⟩

end Binding

/-- What an attribute is bound to stands, and elsewhere all is as it was. -/
theorem stands_of_bind (hv : m.slot? ref = some v) (wish : Option (Wish Rat)) :
    Yields (fun _ m' => Stands wish v m' ∧ Elsewhere v m m') ((Command.bind ref wish).perform m) := by
  have hlookup : m.lookup ref.region ref.attr = .ok v := lookup_eq_ok_iff.2 hv
  cases wish with
  | none => exact stands_release hlookup
  | some wish =>
    cases wish with
    | exactly value => exact stands_setTo hlookup value
    | atMost value => exact stands_setAtMost hlookup value

/-! ## The same again -/

theorem Reachable.suggest_again (h : Reachable m) (ht : m.solver.target? v = some value) :
    m.solver.suggest v value = (.ok (), m.solver) := by
  obtain ⟨T, hs, hed⟩ := h.settled.kept.sound
  exact hs.suggest_again hed h.turns_pos ht

/-- To bind an attribute as it is bound changes nothing. -/
theorem Reachable.bind_again (h : Reachable m) (hv : m.slot? ref = some v)
    (hs : Stands wish v m) : (Command.bind ref wish).perform m = (.ok (), m) := by
  have hlookup : m.lookup ref.region ref.attr = .ok v := lookup_eq_ok_iff.2 hv
  cases wish with
  | none =>
    have hb : m.bindings.get? v = none := hs
    change release ref.region ref.attr m = _
    rw [Model.release, ask_bind hlookup, get_bind, hb]
    change ((.ok (), { m with bindings := m.bindings.erase v }) : Except LayoutError Unit × _) = _
    rw [SortedMap.erase_of_get? hb]
  | some wish =>
    cases wish with
    | exactly value =>
      obtain ⟨hb, ht⟩ := hs
      have hedit : m.solver.hasEdit v = true := by
        obtain ⟨e, he, -⟩ := Option.map_eq_some_iff.1 ht
        exact (SortedMap.contains_eq_true_iff _).2 ⟨e, he⟩
      change setTo ref.region ref.attr value m = _
      rw [Model.setTo, ask_bind hlookup, get_bind, hb]
      change (if (!m.solver.hasEdit v) = true then _ else Model.bind v .exact >>= fun _ =>
        onSolver .solver (·.suggest v value) : Change Rat Unit) m = _
      rw [hedit, if_neg (by simp)]
      change onSolver .solver (·.suggest v value)
        { m with bindings := m.bindings.insert v .exact } = _
      rw [SortedMap.insert_of_get? hb, onSolver_apply, h.suggest_again ht]
      rfl
    | atMost value =>
      obtain ⟨id, hb⟩ := hs
      change setAtMost ref.region ref.attr value m = _
      rw [Model.setAtMost, ask_bind hlookup, get_bind, hb]
      change (if (value == value) = true then _ else _ : Change Rat Unit) m = _
      rw [if_pos (by simp)]
      rfl

/-! ## Measured sizes -/

/-- A measured size is news if the last solve rounds to another, and then it is pulled to. -/
theorem told_of_setIntrinsic (name : String) (axis : Axis) (measured : Int) (m : Model Rat) :
    Yields (fun news m' => ∃ v, m.varOf? ⟨name, axis.intrinsic⟩ = some v ∧
        Told v measured news m m' ∧ news = decide (Scalar.round (m.valueOf v) ≠ measured))
      (setIntrinsic name axis measured m) := by
  unfold Model.setIntrinsic
  refine Comes.ask_bind (fun v hv => ?_) fun _ => trivial
  have hvar : m.varOf? ⟨name, axis.intrinsic⟩ = some v := slot_of_measured hv
  rw [get_bind]
  split
  · rename_i heq
    exact .ok ⟨v, hvar, ⟨rfl, rfl⟩, by simp [heq]⟩
  · rename_i hne
    refine (elsewhere_suggest v measured m).bind fun _ m₁ h₁ => .ok ⟨v, hvar, ⟨h₁.1, ?_⟩, by simp [hne]⟩
    rw [if_pos rfl]
    exact h₁.2

/-- A size that is solved already, or pulled to already, changes nothing. -/
theorem Reachable.setIntrinsic_again (h : Reachable m)
    (hv : m.varOf? ⟨name, axis.intrinsic⟩ = some v)
    (hs : Scalar.round (m.valueOf v) = measured ∨ m.solver.target? v = some (measured : Rat)) :
    setIntrinsic name axis measured m =
      (.ok (decide (Scalar.round (m.valueOf v) ≠ measured)), m) := by
  rw [setIntrinsic_of_slot (m := m) hv]
  by_cases heq : Scalar.round (m.valueOf v) = measured
  · simp [heq]
  · have ht := h.suggest_again (hs.resolve_left heq)
    rw [if_neg heq, show (Scalar.ofInt measured : Rat) = (measured : Rat) from rfl, ht]
    simp [heq, Except.mapError, Except.map]

/-! ## Calls made twice -/

theorem Reachable.done (h : Reachable m) (c : Command Rat) (hok : c.perform m = (.ok (), m')) :
    Reachable m' := by
  have hcall := h.call c.request (by simp [c.perform_request, hok])
  rwa [c.perform_request, hok] at hcall

/-- Only an attribute that the model knows is bound. -/
theorem slot_of_bind (hok : (Command.bind ref wish).perform m = (.ok (), m')) :
    ∃ v, m.slot? ref = some v := by
  have hknown (g : Variable → Change Rat Unit)
      (hg : ((ask fun m => m.lookup ref.region ref.attr) >>= g) m = (.ok (), m')) :
      ∃ v, m.slot? ref = some v := by
    cases hl : m.lookup ref.region ref.attr with
    | ok v => exact ⟨v, lookup_eq_ok_iff.1 hl⟩
    | error e =>
      rw [bind_apply, ask_apply, hl] at hg
      cases hg
  cases wish with
  | none => exact hknown _ hok
  | some wish => cases wish <;> exact hknown _ hok

theorem Reachable.bind_twice (h : Reachable m) (ref : AttributeRef) (wish : Option (Wish Rat))
    (hok : (Command.bind ref wish).perform m = (.ok (), m')) :
    (Command.bind ref wish).perform m' = (.ok (), m') := by
  obtain ⟨v, hv⟩ := slot_of_bind hok
  have hyields := stands_of_bind hv wish
  rw [hok] at hyields
  obtain ⟨hstands, helse⟩ := hyields.of_ok
  exact (h.done _ hok).bind_again (by rw [helse.slot?, hv]) hstands

/-- A size that was news is pulled to, and stays news until the next solve. -/
theorem Reachable.setIntrinsic_twice (h : Reachable m) {news : Bool}
    (hok : setIntrinsic name axis measured m = (.ok news, m')) :
    setIntrinsic name axis measured m' = (.ok news, m') := by
  have hyields := told_of_setIntrinsic name axis measured m
  rw [hok] at hyields
  obtain ⟨v, hv, htold, hnews⟩ := hyields.of_ok
  have hm' : Reachable m' := by
    refine h.done (.measure name axis measured) ?_
    change ((setIntrinsic name axis measured >>= fun _ => pure ()) m) = _
    rw [bind_apply, hok]
    rfl
  have hvalue : m'.valueOf v = m.valueOf v := by rw [htold.frame]; rfl
  have hv' : m'.varOf? ⟨name, axis.intrinsic⟩ = some v := by rw [htold.frame]; exact hv
  have hstill : Scalar.round (m'.valueOf v) = measured ∨
      m'.solver.target? v = some (measured : Rat) := by
    rw [hvalue]
    by_cases hround : Scalar.round (m.valueOf v) = measured
    · exact .inl hround
    · refine .inr ?_
      rw [htold.targets, if_pos (by simp [hnews, hround]), Function.update_self]
  rw [hm'.setIntrinsic_again hv' hstill, hvalue, hnews]

/-- To bind an attribute, to free it or to tell a measured size once more succeeds as it did and
changes nothing, whatever calls were made before. -/
theorem repeated_call_changes_nothing (h : Reachable m) (name : String) (a : Attribute) (value : Rat)
    (axis : Axis) (measured : Int) :
    (∀ m', setTo name a value m = (.ok (), m') → setTo name a value m' = (.ok (), m')) ∧
    (∀ m', setAtMost name a value m = (.ok (), m') →
      setAtMost name a value m' = (.ok (), m')) ∧
    (∀ m', release name a m = (.ok (), m') → release name a m' = (.ok (), m')) ∧
    ∀ news m', setIntrinsic name axis measured m = (.ok news, m') →
      setIntrinsic name axis measured m' = (.ok news, m') :=
  ⟨fun _ hok => h.bind_twice ⟨name, a⟩ (some (.exactly value)) hok,
    fun _ hok => h.bind_twice ⟨name, a⟩ (some (.atMost value)) hok,
    fun _ hok => h.bind_twice ⟨name, a⟩ none hok,
    fun _ _ hok => h.setIntrinsic_twice hok⟩

/-- A width is held down, pulled and freed twice each after a statement that was refused, and the
measured one is told twice. -/
theorem width_is_bound_twice : ∃ m, Reachable m ∧
    setAtMost "a" .width 20 (setAtMost "a" .width 20 m).2 =
      (.ok (), (setAtMost "a" .width 20 m).2) ∧
    setTo "a" .width 30 (setTo "a" .width 30 m).2 = (.ok (), (setTo "a" .width 30 m).2) ∧
    release "a" .width (release "a" .width m).2 = (.ok (), (release "a" .width m).2) ∧
    setIntrinsic "a" .horizontal 7 (setIntrinsic "a" .horizontal 7 m).2 =
      (.ok true, (setIntrinsic "a" .horizontal 7 m).2) := by
  have h₁ := reachable_opening.call (.addConstraints (some
    ["a.width >= a.intrinsicWidth !strong", "a.width == b.width", "a.width <= -5"]))
    (by decide +kernel)
  have h₂ := h₁.call (.setTo "a" .width 40) (by decide +kernel)
  obtain ⟨m, hm, hheld, hpulled, hfreed, htold⟩ : ∃ m, Reachable m ∧
      (setAtMost "a" .width 20 m).1 = .ok () ∧ (setTo "a" .width 30 m).1 = .ok () ∧
        (release "a" .width m).1 = .ok () ∧ (setIntrinsic "a" .horizontal 7 m).1 = .ok true :=
    ⟨_, h₂, by decide +kernel⟩
  obtain ⟨-, hhold, hfree, -⟩ := repeated_call_changes_nothing hm "a" .width 20 .horizontal 7
  obtain ⟨hpull, -, -, htell⟩ := repeated_call_changes_nothing hm "a" .width 30 .horizontal 7
  exact ⟨m, hm, hhold _ (eq_of_answer hheld), hpull _ (eq_of_answer hpulled),
    hfree _ (eq_of_answer hfreed), htell _ _ (eq_of_answer htold)⟩

end Model

end RegionLayout
