-- The symbols of a solver after any calls, with any numbers. The calls may be refused or break
-- down, and the numbers may round, overflow or be none at all: a basic symbol still stands in no
-- row, symbols are told apart by when they were made, and an edit keeps the tag that its
-- constraint was entered under.
import RegionLayout.Proofs.Solver.Turning

namespace RegionLayout

open Solver

namespace Solver

variable {R : Type} {s t : Solver R} {row : Row R} {c : Constraint R} {tag : Tag} {x : Symbol}
  {v : Variable} {e : Edit R} {id : ConstraintId} {n : Nat}

/-! ## What is kept beside the tableau -/

/-- Each variable has an external symbol of its own, each constraint has symbols that were made,
and each edit has a constraint of its own, which is entered under its tag. -/
structure Filed (s : Solver R) : Prop where
  external : ∀ {v x}, s.symbols.get? v = some x → x.isExternal = true
  before : ∀ {v x}, s.symbols.get? v = some x → x.id ≤ s.tick
  own : ∀ {v w x}, s.symbols.get? v = some x → s.symbols.get? w = some x → v = w
  made : ∀ {id tag c x}, s.constraints.get? id = some (tag, c) → x ∈ tag.symbols → x.id ≤ s.tick
  entered : ∀ {v e}, s.edits.get? v = some e →
    s.constraints.get? e.constraint.id = some (e.tag, e.constraint)
  numbered : ∀ {v e}, s.edits.get? v = some e → ∃ n, e.constraint.id = .edit n
  single : ∀ {v w e e'}, s.edits.get? v = some e → s.edits.get? w = some e' →
    e.constraint.id = e'.constraint.id → v = w

/-- What turns leave as it is. -/
def files (s : Solver R) : SortedMap Variable Symbol ×
    SortedMap ConstraintId (Tag × Constraint R) × SortedMap Variable (Edit R) × Nat :=
  (s.symbols, s.constraints, s.edits, s.tick)

namespace Filed

theorem of_files (h : s.Filed) (hf : t.files = s.files) : t.Filed := by
  obtain ⟨hs, hc, he, ht⟩ : t.symbols = s.symbols ∧ t.constraints = s.constraints ∧
      t.edits = s.edits ∧ t.tick = s.tick := by
    simpa only [files, Prod.mk.injEq] using hf
  constructor
  · intro v x hv
    exact h.external (hs ▸ hv)
  · intro v x hv
    exact ht ▸ h.before (hs ▸ hv)
  · intro v w x hv hw
    exact h.own (hs ▸ hv) (hs ▸ hw)
  · intro id tag c x hi hx
    exact ht ▸ h.made (hc ▸ hi) hx
  · intro v e hv
    exact hc ▸ h.entered (he ▸ hv)
  · intro v e hv
    exact h.numbered (he ▸ hv)
  · intro v w e e' hv hw
    exact h.single (he ▸ hv) (he ▸ hw)

theorem renumber (h : s.Filed) (hn : s.tick ≤ n) : Filed { s with tick := n } where
  external := h.external
  before hv := (h.before hv).trans hn
  own := h.own
  made hi hx := (h.made hi hx).trans hn
  entered := h.entered
  numbered := h.numbered
  single := h.single

/-- A variable is given the next symbol. -/
theorem name (h : s.Filed) (v : Variable) : Filed { s with
    symbols := s.symbols.insert v ⟨s.tick + 1, .external⟩, tick := s.tick + 1 } where
  external {w x} hw := by
    rw [SortedMap.get?_insert] at hw
    split at hw
    · exact Option.some.inj hw ▸ rfl
    · exact h.external hw
  before {w x} hw := by
    rw [SortedMap.get?_insert] at hw
    split at hw
    · exact Option.some.inj hw ▸ le_rfl
    · exact (h.before hw).trans (Nat.le_succ _)
  own {w w' x} hw hw' := by
    rw [SortedMap.get?_insert] at hw hw'
    split at hw <;> split at hw'
    · exact ‹w = v›.trans ‹w' = v›.symm
    · obtain rfl := Option.some.inj hw
      exact absurd (h.before hw') (Nat.not_succ_le_self _)
    · obtain rfl := Option.some.inj hw'
      exact absurd (h.before hw) (Nat.not_succ_le_self _)
    · exact h.own hw hw'
  made hi hx := (h.made hi hx).trans (Nat.le_succ _)
  entered := h.entered
  numbered := h.numbered
  single := h.single

/-- A new constraint is entered, so it is the constraint of no edit. -/
theorem enter (h : s.Filed) (hnew : s.constraints.get? c.id = none)
    (hm : ∀ x ∈ tag.symbols, x.id ≤ s.tick) :
    Filed { s with constraints := s.constraints.insert c.id (tag, c) } where
  external := h.external
  before := h.before
  own := h.own
  made {id' tag' c' x} hi hx := by
    rw [SortedMap.get?_insert] at hi
    split at hi
    · obtain ⟨rfl, -⟩ := Prod.mk.inj (Option.some.inj hi)
      exact hm x hx
    · exact h.made hi hx
  entered {v e} hv := by
    have hold := h.entered hv
    rw [SortedMap.get?_insert, if_neg]
    · exact hold
    · intro hid
      rw [hid, hnew] at hold
      simp at hold
  numbered := h.numbered
  single := h.single

/-- A constraint is taken out that is not the one of an edit. -/
theorem takeOut (h : s.Filed) (hid : ∀ v e, s.edits.get? v = some e → e.constraint.id ≠ id) :
    Filed { s with constraints := s.constraints.erase id } where
  external := h.external
  before := h.before
  own := h.own
  made {id' tag c x} hi hx := by
    rw [SortedMap.get?_erase] at hi
    split at hi
    · simp at hi
    · exact h.made hi hx
  entered {v e} hv := by
    rw [SortedMap.get?_erase, if_neg (hid v e hv)]
    exact h.entered hv
  numbered := h.numbered
  single := h.single

/-- A variable is given an edit whose constraint is entered and is that of no other edit. -/
theorem edit (h : s.Filed) (hc : s.constraints.get? e.constraint.id = some (e.tag, e.constraint))
    (hn : ∃ n, e.constraint.id = .edit n)
    (hs : ∀ w e', s.edits.get? w = some e' → e'.constraint.id = e.constraint.id → w = v) :
    Filed { s with edits := s.edits.insert v e } where
  external := h.external
  before := h.before
  own := h.own
  made := h.made
  entered {w e'} hw := by
    rw [SortedMap.get?_insert] at hw
    split at hw
    · exact Option.some.inj hw ▸ hc
    · exact h.entered hw
  numbered {w e'} hw := by
    rw [SortedMap.get?_insert] at hw
    split at hw
    · exact Option.some.inj hw ▸ hn
    · exact h.numbered hw
  single {w w' e₁ e₂} hw hw' hid := by
    rw [SortedMap.get?_insert] at hw hw'
    split at hw <;> split at hw'
    · exact ‹w = v›.trans ‹w' = v›.symm
    · obtain rfl := Option.some.inj hw
      exact ‹w = v›.trans (hs w' e₂ hw' hid.symm).symm
    · obtain rfl := Option.some.inj hw'
      exact (hs w e₁ hw hid).trans ‹w' = v›.symm
    · exact h.single hw hw' hid

theorem release (h : s.Filed) (v : Variable) : Filed { s with edits := s.edits.erase v } := by
  have old : ∀ {w e}, (s.edits.erase v).get? w = some e → s.edits.get? w = some e := by
    intro w e hw
    rw [SortedMap.get?_erase] at hw
    split at hw
    · simp at hw
    · exact hw
  exact ⟨h.external, h.before, h.own, h.made, fun hw => h.entered (old hw),
    fun hw => h.numbered (old hw), fun hw hw' => h.single (old hw) (old hw')⟩

end Filed

/-- A solver whose tableau is in solved form, with all symbols where they belong. -/
structure Orderly (s : Solver R) : Prop extends s.Neat, s.Filed

theorem Open.renumber (h : s.Open x) (hn : s.tick ≤ n) : Open { s with tick := n } x :=
  ⟨h.1, h.2.trans hn⟩

theorem Orderly.renumber (h : s.Orderly) (hn : s.tick ≤ n) : Orderly { s with tick := n } :=
  ⟨h.toNeat.renumber _ _ _ _ hn, h.toFiled.renumber hn⟩

theorem Orderly.open_fresh (h : s.Orderly) {k : Nat} {kind : SymbolKind} (hk : s.tick < k)
    (hn : k ≤ n) : Open { s with tick := n } ⟨k, kind⟩ := ⟨h.toTidy.free_of_new hk, hn⟩

theorem Orderly.with_objective (h : s.Orderly) {g : Row R} (hg : g.Within s.Open) :
    Orderly { s with objective := g } := ⟨h.toNeat.with_objective hg, h.toFiled.of_files rfl⟩

/-! ## Symbols of variables -/

theorem Orderly.symbolOf (h : s.Orderly) (v : Variable) : (s.symbolOf v).2.Orderly ∧
    (s.symbolOf v).1.id ≤ (s.symbolOf v).2.tick ∧ s.tick ≤ (s.symbolOf v).2.tick ∧
    (s.symbolOf v).2.rows = s.rows := by
  unfold Solver.symbolOf freshSymbol
  split
  · exact ⟨h, h.before ‹_›, le_rfl, rfl⟩
  · exact ⟨⟨h.toNeat.renumber _ _ _ _ (Nat.le_succ _), h.toFiled.name v⟩, le_rfl, Nat.le_succ _,
      rfl⟩

variable [Scalar R]

/-! ## Turns -/

theorem Orderly.turned (h : s.Orderly) (ht : Turned s t) : t.Orderly :=
  ⟨h.toNeat.turned ht, h.toFiled.of_files (by cases ht <;> rfl)⟩

theorem Orderly.optimize (h : s.Orderly) (goal : Goal) : (s.optimize goal).2.Orderly :=
  optimize_induction Orderly.turned goal h

theorem Orderly.dualOptimize (h : s.Orderly) : s.dualOptimize.2.Orderly :=
  dualOptimize_induction Orderly.turned h

theorem tick_optimize (s : Solver R) (goal : Goal) : (s.optimize goal).2.tick = s.tick := by
  refine optimize_induction (P := fun t => t.tick = s.tick) (fun ht hturn => ?_) goal rfl
  cases hturn <;> exact ht

/-! ## The row of a constraint -/

/-- A row over symbols without rows, with the symbols of the constraint that it is for. -/
structure Outlined (row : Row R) (tag : Tag) (s : Solver R) : Prop where
  orderly : s.Orderly
  within : row.Within s.Open
  made : ∀ x ∈ tag.symbols, x.id ≤ s.tick

theorem Orderly.insertTerm (h : s.Orderly) (hr : row.Within s.Open) (t : Variable × R) :
    (insertTerm (row, s) t).2.Orderly ∧
      (insertTerm (row, s) t).1.Within (insertTerm (row, s) t).2.Open := by
  unfold Solver.insertTerm
  dsimp only
  split
  · exact ⟨h, hr⟩
  · obtain ⟨hs', hx, htick, hrows⟩ := h.symbolOf t.1
    generalize s.symbolOf t.1 = p at hs' hx htick hrows
    obtain ⟨x, s'⟩ := p
    dsimp only at hs' hx htick hrows ⊢
    have hr' : row.Within s'.Open := hr.mono fun y hy =>
      ⟨by rw [Free, hrows]; exact hy.1, hy.2.trans htick⟩
    split
    · exact ⟨hs', hr'.insertRow _ (hs'.open_of_row ‹_›)⟩
    · exact ⟨hs', hr'.insertSymbol _ ⟨‹_›, hx⟩⟩

theorem Orderly.insertTerms (h : s.Orderly) (hr : row.Within s.Open) (ts : List (Variable × R)) :
    (ts.foldl Solver.insertTerm (row, s)).2.Orderly ∧
      (ts.foldl Solver.insertTerm (row, s)).1.Within (ts.foldl Solver.insertTerm (row, s)).2.Open := by
  induction ts generalizing s row with
  | nil => exact ⟨h, hr⟩
  | cons t ts ih =>
    obtain ⟨h', hr'⟩ := h.insertTerm hr t
    exact ih h' hr'

theorem Orderly.charge (h : s.Orderly) (hx : s.Open x) (w : R) : (s.charge x w).Orderly :=
  h.with_objective (h.open_of_objective.insertSymbol w hx)

/-- A constraint that is required has one symbol. -/
theorem Orderly.outlined_one (h : s.Orderly) (hr : row.Within s.Open) (kind : SymbolKind) (a : R) :
    Outlined (row.insertSymbol ⟨s.tick + 1, kind⟩ a) ⟨⟨s.tick + 1, kind⟩, none⟩
      { s with tick := s.tick + 1 } where
  orderly := h.renumber (Nat.le_succ _)
  within := (hr.mono fun y hy => hy.renumber (Nat.le_succ _)).insertSymbol a
    (h.open_fresh (Nat.lt_succ_self _) le_rfl)
  made y hy := by
    obtain rfl : y = ⟨s.tick + 1, kind⟩ := by simpa [Tag.symbols] using hy
    exact le_rfl

/-- One that may be violated has two, and at least the second is an error that is charged. -/
theorem Orderly.outlined_two (h : s.Orderly) (hr : row.Within s.Open) (kind kind' : SymbolKind)
    (a b : R) : Outlined
      ((row.insertSymbol ⟨s.tick + 1, kind⟩ a).insertSymbol ⟨s.tick + 2, kind'⟩ b)
      ⟨⟨s.tick + 1, kind⟩, some ⟨s.tick + 2, kind'⟩⟩ { s with tick := s.tick + 2 } where
  orderly := h.renumber (Nat.le_add_right _ _)
  within := ((hr.mono fun y hy => hy.renumber (Nat.le_add_right _ _)).insertSymbol a
    (h.open_fresh (Nat.lt_succ_self _) (Nat.le_succ _))).insertSymbol b
      (h.open_fresh (Nat.lt_add_of_pos_right (by decide)) le_rfl)
  made y hy := by
    have : y = ⟨s.tick + 1, kind⟩ ∨ y = ⟨s.tick + 2, kind'⟩ := by simpa [Tag.symbols] using hy
    rcases this with rfl | rfl
    · exact Nat.le_succ _
    · exact le_rfl

theorem Outlined.charge (h : Outlined row tag s) (hx : s.Open x) (w : R) :
    Outlined row tag (s.charge x w) := ⟨h.orderly.charge hx w, h.within, h.made⟩

theorem Orderly.insertMarkers (h : s.Orderly) (hr : row.Within s.Open) (c : Constraint R) :
    Outlined (insertMarkers c row s).1 (insertMarkers c row s).2.1 (insertMarkers c row s).2.2 := by
  have hfirst : Open { s with tick := s.tick + 2 } ⟨s.tick + 1, .error⟩ :=
    h.open_fresh (Nat.lt_succ_self _) (Nat.le_succ _)
  have hsecond : Open { s with tick := s.tick + 2 } ⟨s.tick + 2, .error⟩ :=
    h.open_fresh (Nat.lt_add_of_pos_right (by decide)) le_rfl
  unfold Solver.insertMarkers freshSymbol
  cases c.comparator with
  | equal =>
    dsimp only
    split
    · exact h.outlined_one hr _ _
    · exact ((h.outlined_two hr _ _ _ _).charge hfirst _).charge hsecond _
  | atLeast | atMost =>
    dsimp only
    split
    · exact h.outlined_one hr _ _
    · exact (h.outlined_two hr _ _ _ _).charge hsecond _

theorem Orderly.createRow (h : s.Orderly) (c : Constraint R) :
    Outlined (s.createRow c).1 (s.createRow c).2.1 (s.createRow c).2.2 := by
  obtain ⟨h', hr⟩ := h.insertTerms (Row.within_ofConstant s.Open c.expression.constant)
    c.expression.terms
  have hout := h'.insertMarkers hr c
  unfold Solver.createRow
  dsimp only
  split
  · exact ⟨hout.orderly, fun y hy => hout.within y (Row.uses_negate.1 hy), hout.made⟩
  · exact hout

theorem Outlined.subject_made (h : Outlined row tag s) (hx : subject? row tag = some x) :
    x.id ≤ s.tick := by
  have own : ∀ y, (if y.isPivotable && decide (row.coefficient y < 0) then some y else none) =
      some x → y = x := by
    intro y hy
    split at hy
    · exact Option.some.inj hy
    · simp at hy
  unfold subject? at hx
  rcases Option.or_eq_some_iff.1 hx with hx | ⟨-, hx⟩
  · obtain ⟨⟨y, k⟩, hf, rfl⟩ := Option.map_eq_some_iff.1 hx
    exact (h.within y ⟨k, (SortedMap.find?_eq_some _ hf).1⟩).2
  · rcases Option.or_eq_some_iff.1 hx with hx | ⟨-, hx⟩
    · obtain rfl := own _ hx
      exact h.made _ tag.marker_mem
    · obtain ⟨y, hy, hx⟩ := Option.bind_eq_some_iff.1 hx
      obtain rfl := own _ hx
      exact h.made y (by simp [Tag.symbols, hy])

/-! ## Adding -/

theorem Outlined.install (h : Outlined row tag s) (hx : x.id ≤ s.tick) :
    (s.install x (row.solveFor x)).Orderly := by
  refine ⟨h.orderly.toNeat.install hx fun y hy => ?_, h.orderly.toFiled.of_files rfl⟩
  obtain ⟨hne, hy⟩ := Row.uses_of_uses_solveFor hy
  exact ⟨hne, h.within y hy⟩

theorem Orderly.accept (h : s.Orderly) (hnew : s.constraints.get? c.id = none)
    (hm : ∀ x ∈ tag.symbols, x.id ≤ s.tick) : (s.accept c tag).2.Orderly :=
  Orderly.optimize ⟨h.toNeat.renumber _ _ _ _ le_rfl, h.toFiled.enter hnew hm⟩ .primary

theorem Orderly.waive (h : s.Orderly) (hx : x.id ≤ s.tick) (w : R) : (s.waive w x).Orderly := by
  unfold Solver.waive
  split
  · exact h.with_objective (h.open_of_objective.insertRow _ (h.open_of_row ‹_›))
  · exact h.charge ⟨‹_›, hx⟩ _

theorem Orderly.waives (h : s.Orderly) {xs : List Symbol} (hx : ∀ x ∈ xs, x.id ≤ s.tick) (w : R) :
    (xs.foldl (Solver.waive w) s).Orderly := by
  induction xs generalizing s with
  | nil => exact h
  | cons x xs ih =>
    refine ih (h.waive (hx x List.mem_cons_self) w) fun y hy => ?_
    have htick : (s.waive w x).tick = s.tick := by
      unfold Solver.waive
      split <;> rfl
    rw [htick]
    exact hx y (List.mem_cons_of_mem _ hy)

theorem Orderly.discharge (h : s.Orderly) (hm : ∀ x ∈ tag.symbols, x.id ≤ s.tick) (w : R) :
    (s.discharge w tag).Orderly := by
  rw [discharge_eq]
  exact h.waives (fun x hx => hm x (List.mem_of_mem_filter hx)) w

/-- The search for a place for a row makes one symbol, and whatever becomes of the search, no more
symbols are left than were there and that one. -/
theorem Orderly.addArtificial (h : s.Orderly) (hr : row.Within s.Open) :
    (s.addArtificial row).2.Orderly ∧ s.tick ≤ (s.addArtificial row).2.tick := by
  set art : Symbol := ⟨s.tick + 1, .slack⟩ with hart
  set start : Solver R := { ({ s with tick := s.tick + 1 } : Solver R).putRow art row with
    artificial := some row } with hstart
  have hnew : s.tick < art.id := Nat.lt_succ_self _
  have hgoal := h.toNeat.with_artificial hr
  have habsent := hgoal.toTidy.absent hnew
  have hs : start.Orderly := by
    refine ⟨?_, h.toFiled.renumber (Nat.le_succ _) |>.of_files rfl⟩
    refine (hgoal.renumber s.constraints s.symbols s.edits s.editTick (Nat.le_succ _)).putRow
      ⟨habsent.rows, habsent.objective, habsent.artificial⟩ le_rfl fun y hy => ⟨?_, ?_⟩
    · rintro rfl
      exact absurd (hr _ hy).2 (not_le.2 hnew)
    · exact ⟨(hr y hy).1, (hr y hy).2.trans (Nat.le_succ _)⟩
  have hrun := hs.optimize .artificial
  have htick : s.tick ≤ (start.optimize .artificial).2.tick := by
    rw [tick_optimize]
    exact Nat.le_succ _
  unfold Solver.addArtificial freshSymbol
  dsimp only
  rw [← hart, ← hstart]
  generalize start.optimize .artificial = p at hrun htick
  obtain ⟨_ | _, t⟩ := p
  · exact ⟨hrun, htick⟩
  · have ht : Neat { t with artificial := none } := hrun.toNeat.dropArtificial
    have hf : t.Filed := hrun.toFiled
    dsimp only at htick ⊢
    split
    · exact ⟨⟨ht.removeSymbol art, hf.of_files rfl⟩, htick⟩
    · rename_i basic hb
      split
      · exact ⟨⟨ht.dropRow art, hf.of_files rfl⟩, htick⟩
      · split
        · exact ⟨⟨ht.dropRow art, hf.of_files rfl⟩, htick⟩
        · rename_i entering k he
          have hentering := (ht.open_of_row hb entering ⟨k, (SortedMap.find?_eq_some _ he).1⟩).2
          exact ⟨⟨(ht.pivot hb hentering).removeSymbol art, hf.of_files rfl⟩, htick⟩

theorem Orderly.add (h : s.Orderly) (c : Constraint R) : (s.add c).2.Orderly := by
  unfold Solver.add
  split
  · exact h
  · rename_i hc
    have hnew := (SortedMap.contains_eq_false_iff _).1 (Bool.eq_false_iff.2 hc)
    have hdraft := beyond_register.createRow s c
    have hout := h.createRow c
    generalize s.createRow c = draft at hdraft hout
    obtain ⟨row, tag, t⟩ := draft
    dsimp only at hdraft hout ⊢
    have hfree : ∀ {u : Solver R}, u.register = t.register → u.constraints.get? c.id = none := by
      intro u hu
      rw [(Prod.mk.inj (hu.trans hdraft)).1]
      exact hnew
    split
    · rename_i x hx
      exact (hout.install (hout.subject_made hx)).accept (hfree rfl) hout.made
    · split
      · split
        · exact (hout.install (hout.made _ tag.marker_mem)).accept (hfree rfl) hout.made
        · exact hout.orderly.discharge hout.made _
      · obtain ⟨hsearch, htick⟩ := hout.orderly.addArtificial hout.within
        have hkept := beyond_register.addArtificial t row
        generalize t.addArtificial row = p at hsearch htick hkept
        obtain ⟨answer, u⟩ := p
        have hmade : ∀ x ∈ tag.symbols, x.id ≤ u.tick := fun x hx => (hout.made x hx).trans htick
        split
        · rename_i heq
          obtain rfl := (Prod.mk.inj heq).2
          exact hsearch
        · rename_i heq
          obtain rfl := (Prod.mk.inj heq).2
          exact hsearch.discharge hmade _
        · rename_i heq
          obtain rfl := (Prod.mk.inj heq).2
          exact hsearch.accept (hfree hkept) hmade

end Solver

end RegionLayout
