-- Solved form. Whatever calls a solver has served, whatever numbers they were given and whatever
-- they answered, no basic symbol stands in a row or an objective, no symbol in use is newer than
-- the one made last, each variable has an external symbol of its own, and an edit has the tag of
-- its constraint. A constraint that is taken back leaves the tableau without its marker.
import RegionLayout.Proofs.Solver.Symbols

namespace RegionLayout

open Solver

namespace Solver

variable {R : Type} [Scalar R] {s s' : Solver R} {row : Row R} {tag : Tag} {c : Constraint R}
  {x y : Symbol} {v : Variable} {id : ConstraintId}

/-! ## Taking a constraint back -/

theorem Orderly.takeOut (h : s.Orderly) (hc : s.constraints.get? id = some (tag, c))
    (hid : ∀ v e, s.edits.get? v = some e → e.constraint.id ≠ id) (w : R) :
    (Solver.discharge { s with constraints := s.constraints.erase id } w tag).Orderly :=
  Orderly.discharge ⟨h.toNeat.renumber _ _ _ _ le_rfl, h.toFiled.takeOut hid⟩
    (fun _ hx => h.made hc hx) w

omit [Scalar R] in
/-- A marker that has a row goes with the row. -/
theorem Orderly.gone_dropRow (h : s.Orderly) (hx : s.rows.get? x = some row) :
    (s.dropRow x).Gone x := by
  refine ⟨?_, (h.toTidy.absent_of_basic hx).dropRow x⟩
  rw [Free, rows_dropRow, if_pos rfl]

/-- Another goes when its definition is put in its place everywhere. -/
theorem Orderly.gone_substitute (h : s.Orderly) (hx : s.Free x) (hy : s.rows.get? y = some row) :
    ((s.dropRow y).substitute x (row.exchange y x)).Gone x := by
  refine ⟨?_, absent_substitute fun hu => (h.toTidy.within_exchange hy x x hu).1 rfl⟩
  rw [free_substitute, Free, rows_dropRow, if_neg (hx.ne_of_basic hy)]
  exact hx

theorem Orderly.substitute (h : s.Orderly) (hy : s.rows.get? y = some row) (x : Symbol) :
    ((s.dropRow y).substitute x (row.exchange y x)).Orderly := by
  refine ⟨(h.toNeat.dropRow y).substitute x fun z hz => ?_, h.toFiled.of_files rfl⟩
  exact (h.toTidy.within_exchange hy x z hz).2

/-- A constraint that is taken back may be any that is not the one of an edit. -/
theorem Orderly.remove (h : s.Orderly)
    (hid : ∀ v e, s.edits.get? v = some e → e.constraint.id ≠ id) : (s.remove id).2.Orderly ∧
      ((s.remove id).1 = .ok () → ∃ tag c, s.constraints.get? id = some (tag, c) ∧
        (s.remove id).2.Gone tag.marker) := by
  unfold Solver.remove
  split
  · exact ⟨h, by simp⟩
  · rename_i tag c hc
    have ht := h.takeOut hc hid c.weight
    dsimp only
    generalize Solver.discharge { s with constraints := s.constraints.erase id } c.weight tag = t
      at ht
    split
    · rename_i row hr
      have hdropped : (t.dropRow tag.marker).Orderly :=
        ⟨ht.toNeat.dropRow _, ht.toFiled.of_files rfl⟩
      exact ⟨hdropped.optimize .primary, fun _ => ⟨tag, c, hc,
        optimize_induction Gone.turned .primary (ht.gone_dropRow hr)⟩⟩
    · rename_i hfree
      split
      · exact ⟨ht, by simp⟩
      · rename_i leaving row hl
        obtain ⟨y, -, hy⟩ := Option.bind_eq_some_iff.1 hl
        obtain ⟨r, hr, hpair⟩ := Option.map_eq_some_iff.1 hy
        obtain ⟨rfl, rfl⟩ := Prod.mk.inj hpair
        exact ⟨(ht.substitute hr tag.marker).optimize .primary, fun _ => ⟨tag, c, hc,
          optimize_induction Gone.turned .primary (ht.gone_substitute hfree hr)⟩⟩

/-! ## Edits -/

omit [Scalar R] in
theorem Orderly.refile (h : s.Orderly) {edits : SortedMap Variable (Edit R)}
    (hf : Filed { s with edits }) : Orderly { s with edits } :=
  ⟨h.toNeat.renumber _ _ _ _ le_rfl, hf⟩

theorem Orderly.addEdit (h : s.Orderly) (v : Variable) (weight : R) :
    (s.addEdit v weight).2.Orderly := by
  unfold Solver.addEdit
  split
  · exact h
  · dsimp only
    split
    · exact h
    · set pull : Constraint R :=
        .make (.edit (s.editTick + 1)) (.ofTerm v 1) .equal (Weight.clip weight) with hpull
      have hstart : Orderly { s with editTick := s.editTick + 1 } :=
        ⟨h.toNeat.renumber _ _ _ _ le_rfl, h.toFiled.of_files rfl⟩
      have hadd := hstart.add pull
      have hreg := registered_add { s with editTick := s.editTick + 1 } pull
      split
      · rename_i hrun
        rw [hrun] at hadd
        exact hadd
      · rename_i t hrun
        rw [hrun] at hadd hreg
        cases hreg with
        | entered tag hnew hr =>
          obtain ⟨hconstraints, hedits⟩ := Prod.mk.inj hr
          have hget : t.constraints.get? (.edit (s.editTick + 1)) = some (tag, pull) := by
            rw [hconstraints, SortedMap.get?_insert]
            exact if_pos rfl
          rw [hget]
          refine hadd.refile (hadd.toFiled.edit hget ⟨_, rfl⟩ fun w e hw hid => ?_)
          -- the constraint of an edit that was there before was entered then, and this one was not
          have hold := h.entered (hedits ▸ hw)
          rw [hid, show s.constraints.get? pull.id = none from hnew] at hold
          simp at hold

theorem Orderly.removeEdit (h : s.Orderly) (v : Variable) : (s.removeEdit v).2.Orderly ∧
    ((s.removeEdit v).1 = .ok () → ∃ e, s.edits.get? v = some e ∧
      (s.removeEdit v).2.Gone e.tag.marker) := by
  unfold Solver.removeEdit
  split
  · exact ⟨h, by simp⟩
  · rename_i e he
    have hother : ∀ w e', (s.edits.erase v).get? w = some e' →
        e'.constraint.id ≠ e.constraint.id := by
      intro w e' hw hid
      rw [SortedMap.get?_erase] at hw
      split at hw
      · simp at hw
      · exact absurd (h.single hw he hid) ‹_›
    obtain ⟨horderly, hgone⟩ := (h.refile (h.toFiled.release v)).remove hother
    refine ⟨horderly, fun hok => ⟨e, he, ?_⟩⟩
    obtain ⟨tag, c, hc, hmarker⟩ := hgone hok
    obtain rfl := (Prod.mk.inj (Option.some.inj (hc.symm.trans (h.entered he)))).1
    exact hmarker

theorem Neat.shiftRow (h : s.Neat) (hx : s.rows.get? x = some row) (amount : R) :
    (s.shiftRow x row amount).Neat := by
  refine ⟨h.toTidy.shiftRow hx amount, ?_⟩
  rw [shiftRow_eq]
  dsimp only
  split
  · exact List.forall_mem_cons.2 ⟨h.keys x row hx, h.noted⟩
  · exact h.noted

theorem Neat.shiftAll (h : s.Neat) (x : Symbol) (amount : R) : (s.shiftAll x amount).Neat := by
  refine ⟨h.toTidy.shiftAll x amount, fun y hy => ?_⟩
  rcases mem_of_mem_foldl_note (p := fun e : Symbol × Row R =>
    !(e.2.coefficient x == 0) && decide (e.2.constant < 0) && !e.1.isExternal) hy with hy | ⟨r, hr⟩
  · exact h.noted y hy
  · obtain ⟨r', hr', -⟩ := basic_of_shiftAll hr
    exact h.keys y r' hr'

theorem Orderly.suggest (h : s.Orderly) (v : Variable) (value : R) :
    (s.suggest v value).2.Orderly := by
  unfold Solver.suggest
  split
  · exact h
  · rename_i e he
    have ht : Orderly { s with edits := s.edits.insert v { e with target := value } } := by
      have hentered : s.constraints.get? e.constraint.id = some (e.tag, e.constraint) :=
        h.entered he
      have hnumbered : ∃ n, e.constraint.id = .edit n := h.numbered he
      refine h.refile (h.toFiled.edit hentered hnumbered fun w e' hw hid => ?_)
      exact h.single hw he hid
    have hshiftRow : ∀ {x row} (amount : R), s.rows.get? x = some row → Orderly (Solver.shiftRow
        { s with edits := s.edits.insert v { e with target := value } } x row amount) := by
      intro x row amount hx
      exact ⟨ht.toNeat.shiftRow hx amount, ht.toFiled.of_files (by rw [shiftRow_eq]; rfl)⟩
    dsimp only
    split
    · exact (hshiftRow _ ‹_›).dualOptimize
    · split
      · rename_i x row hpair
        obtain ⟨y, -, hy⟩ := Option.bind_eq_some_iff.1 hpair
        obtain ⟨r, hr, hpair⟩ := Option.map_eq_some_iff.1 hy
        obtain ⟨rfl, rfl⟩ := Prod.mk.inj hpair
        exact (hshiftRow _ hr).dualOptimize
      · exact Orderly.dualOptimize ⟨ht.toNeat.shiftAll _ _, ht.toFiled.of_files rfl⟩

/-! ## Any calls -/

theorem orderly_empty (limit : Nat) : (Solver.empty limit : Solver R).Orderly where
  solved := ⟨by simp [Solver.empty], Row.within_ofConstant _ _, by simp [Solver.empty]⟩
  known := ⟨by simp [Solver.empty], Row.within_ofConstant _ _, by simp [Solver.empty]⟩
  keys := by simp [Solver.empty]
  noted := by simp [Solver.empty]
  external := by simp [Solver.empty]
  before := by simp [Solver.empty]
  own := by simp [Solver.empty]
  made := by simp [Solver.empty]
  entered := by simp [Solver.empty]
  numbered := by simp [Solver.empty]
  single := by simp [Solver.empty]

theorem Orderly.addAll (h : s.Orderly) (cs : List (Constraint R)) : (s.addAll cs).2.Orderly := by
  induction cs generalizing s with
  | nil => exact h
  | cons c cs ih =>
    have hadd := h.add c
    unfold Solver.addAll
    split
    · rename_i hrun
      rw [hrun] at hadd
      exact ih hadd
    · exact hadd

/-- The solvers that calls lead to, whatever the calls are given and whatever they answer. The
constraint of an edit is the solver's own, so that it is taken back with its variable alone. -/
inductive Served : Solver R → Prop
  | start (limit : Nat) : Served (.empty limit)
  | add {s : Solver R} (h : Served s) (c : Constraint R) : Served (s.add c).2
  | addAll {s : Solver R} (h : Served s) (cs : List (Constraint R)) : Served (s.addAll cs).2
  | remove {s : Solver R} (h : Served s) (n : Nat) : Served (s.remove (.declared n)).2
  | addEdit {s : Solver R} (h : Served s) (v : Variable) (w : R) : Served (s.addEdit v w).2
  | removeEdit {s : Solver R} (h : Served s) (v : Variable) : Served (s.removeEdit v).2
  | suggest {s : Solver R} (h : Served s) (v : Variable) (value : R) : Served (s.suggest v value).2
  | reset {s : Solver R} (h : Served s) : Served s.reset

omit [Scalar R] in
theorem Orderly.ne_declared (h : s.Orderly) (n : Nat) :
    ∀ v e, s.edits.get? v = some e → e.constraint.id ≠ .declared n := by
  intro v e he hid
  obtain ⟨m, hm⟩ := h.numbered he
  rw [hm] at hid
  simp at hid

theorem orderly_of_served (h : Served s) : s.Orderly := by
  induction h with
  | start limit => exact orderly_empty limit
  | add _ c ih => exact ih.add c
  | addAll _ cs ih => exact ih.addAll cs
  | remove _ n ih => exact (ih.remove (ih.ne_declared n)).1
  | addEdit _ v w ih => exact ih.addEdit v w
  | removeEdit _ v ih => exact (ih.removeEdit v).1
  | suggest _ v value ih => exact ih.suggest v value
  | reset => exact orderly_empty _

/-- The solver has the symbol somewhere: with a row, in a row or an objective, among the notes, as
the symbol of a variable, or as one of a constraint or an edit. -/
inductive InUse (s : Solver R) (x : Symbol) : Prop
  | basic {r : Row R} (h : s.rows.get? x = some r)
  | cell {y : Symbol} {r : Row R} (h : s.rows.get? y = some r) (hx : r.Uses x)
  | objective (hx : s.objective.Uses x)
  | artificial {r : Row R} (h : s.artificial = some r) (hx : r.Uses x)
  | noted (hx : x ∈ s.infeasible)
  | named {v : Variable} (h : s.symbols.get? v = some x)
  | entered {id : ConstraintId} {tag : Tag} {c : Constraint R}
      (h : s.constraints.get? id = some (tag, c)) (hx : x ∈ tag.symbols)
  | edited {v : Variable} {e : Edit R} (h : s.edits.get? v = some e) (hx : x ∈ e.tag.symbols)

omit [Scalar R] in
theorem Orderly.id_le (h : s.Orderly) (hx : s.InUse x) : x.id ≤ s.tick := by
  cases hx with
  | basic hr => exact h.keys x _ hr
  | cell hr hx => exact h.known.rows _ _ hr x hx
  | objective hx => exact h.known.objective x hx
  | artificial hr hx => exact h.known.artificial _ hr x hx
  | noted hx => exact h.noted x hx
  | named hv => exact h.before hv
  | entered hc hx => exact h.made hc hx
  | edited he hx => exact h.made (h.entered he) hx

/-- After any calls no symbol with a row stands in a row or an objective, every symbol in use was
made, two variables never share a symbol, and the constraint of each edit is entered under the tag
of the edit. Taking back a constraint or an edit, where it succeeds, leaves no row for the marker
and no row with it. -/
theorem solved_form_is_kept (h : Served s) :
    (∀ x r, s.rows.get? x = some r → s.Absent x) ∧
    (∀ x, s.InUse x → x.id ≤ s.tick) ∧
    (∀ v x, s.symbols.get? v = some x → x.isExternal = true ∧
      ∀ w y, s.symbols.get? w = some y → w ≠ v → y ≠ x) ∧
    (∀ v e, s.edits.get? v = some e →
      s.constraints.get? e.constraint.id = some (e.tag, e.constraint)) ∧
    (∀ n, (s.remove (.declared n)).1 = .ok () → ∃ tag c,
      s.constraints.get? (.declared n) = some (tag, c) ∧
        (s.remove (.declared n)).2.Gone tag.marker) ∧
    ∀ v, (s.removeEdit v).1 = .ok () → ∃ e, s.edits.get? v = some e ∧
      (s.removeEdit v).2.Gone e.tag.marker := by
  have ho := orderly_of_served h
  refine ⟨fun x r hx => ho.toTidy.absent_of_basic hx, fun x hx => ho.id_le hx, fun v x hv => ?_,
    fun v e he => ho.entered he, fun n => (ho.remove (ho.ne_declared n)).2,
    fun v => (ho.removeEdit v).2⟩
  refine ⟨ho.external hv, ?_⟩
  rintro w y hw hne rfl
  exact hne (ho.own hw hv)

/-- A width is held above fifty and wanted at ten, a bound of ten is refused, and the width is
pulled to seventy. The slack of the bound of fifty has a row then, and the marker of the pull stands
in the row of the width. Taking back the bound or the pull does away with the one or the other. -/
theorem solved_form_is_kept_after_refusal : ∃ s : Solver Rat, Served s ∧
    s.has (.declared 2) = false ∧ s.value ⟨0⟩ = 70 ∧
    s.rows.contains ⟨2, .slack⟩ = true ∧ s.Absent ⟨2, .slack⟩ ∧
    (s.remove (.declared 0)).2.Gone ⟨2, .slack⟩ ∧
    (s.rows.get? ⟨1, .external⟩).map (·.coefficient ⟨7, .error⟩) = some 1 ∧
    (s.removeEdit ⟨0⟩).2.Gone ⟨7, .error⟩ := by
  have h0 : Served (.empty 10 : Solver Rat) := .start 10
  have h1 := h0.add (.make (.declared 0) ⟨[(⟨0⟩, 1)], -50⟩ .atLeast Weight.required)
  have h2 := h1.add (.make (.declared 1) ⟨[(⟨0⟩, 1)], -10⟩ .equal Weight.weak)
  have h3 := h2.add (.make (.declared 2) ⟨[(⟨0⟩, 1)], -10⟩ .atMost Weight.required)
  have h4 := h3.addEdit ⟨0⟩ Weight.strong
  have h5 := h4.suggest ⟨0⟩ 70
  obtain ⟨hbasic, -, -, -, hremove, hremoveEdit⟩ := solved_form_is_kept h5
  obtain ⟨tag, c, hc, hgone⟩ := hremove 0 (by decide +kernel)
  obtain ⟨e, he, hgoneEdit⟩ := hremoveEdit ⟨0⟩ (by decide +kernel)
  have hmarker := (congrArg (·.map (·.1.marker)) hc).symm.trans
    (show _ = some (⟨2, .slack⟩ : Symbol) by decide +kernel)
  have hpulled := (congrArg (·.map (·.tag.marker)) he).symm.trans
    (show _ = some (⟨7, .error⟩ : Symbol) by decide +kernel)
  refine ⟨_, h5, by decide +kernel, by decide +kernel, by decide +kernel, ?_, ?_,
    by decide +kernel, ?_⟩
  · exact ((SortedMap.contains_eq_true_iff _).1 (by decide +kernel)).elim (hbasic ⟨2, .slack⟩)
  · exact Option.some.inj hmarker ▸ hgone
  · exact Option.some.inj hpulled ▸ hgoneEdit

end Solver

end RegionLayout
