-- What the turns of both loops do to the symbols of a tableau. The numbers in the rows decide
-- which two symbols a turn exchanges, and nothing is asked of them here: whichever the two are,
-- the tableau stays in solved form, and a symbol that it has lost does not come back.
import RegionLayout.Proofs.Solver.Register

namespace RegionLayout

open Solver

namespace Solver

variable {R : Type} {s t : Solver R} {row definition g : Row R} {x leaving entering : Symbol}
  {n : Nat}

/-! ## Neat tableaux -/

/-- A tidy tableau that has notes only of symbols that were made. -/
structure Neat (s : Solver R) : Prop extends s.Tidy where
  noted : ∀ x ∈ s.infeasible, x.id ≤ s.tick

/-- The symbol was made and has no row. -/
def Open (s : Solver R) (x : Symbol) : Prop := s.Free x ∧ x.id ≤ s.tick

theorem mem_of_mem_foldl_note {p : Symbol × Row R → Bool} {m : SortedMap Symbol (Row R)}
    {stack : List Symbol}
    (h : x ∈ m.entries.foldl (fun stack e => if p e then e.1 :: stack else stack) stack) :
    x ∈ stack ∨ ∃ r, m.get? x = some r := by
  rw [foldl_note, List.mem_append, List.mem_reverse, List.mem_map] at h
  rcases h with ⟨e, he, rfl⟩ | h
  · exact Or.inr ⟨e.2, (SortedMap.get?_eq_some_iff _).2 (List.mem_of_mem_filter he)⟩
  · exact Or.inl h

namespace Neat

/-- What is kept beside the tableau does not matter, and symbols may be made. -/
theorem renumber (h : s.Neat) (constraints) (symbols) (edits) (editTick) (hn : s.tick ≤ n) :
    Neat { s with constraints, symbols, edits, editTick, tick := n } where
  toTidy := h.toTidy.of_eq rfl rfl rfl hn
  noted x hx := (h.noted x hx).trans hn

theorem forget (h : s.Neat) {notes : List Symbol} (hn : ∀ x ∈ notes, x ∈ s.infeasible) :
    Neat { s with infeasible := notes } where
  toTidy := h.toTidy.of_eq rfl rfl rfl le_rfl
  noted x hx := h.noted x (hn x hx)

theorem open_of_objective (h : s.Neat) : s.objective.Within s.Open :=
  fun x hx => ⟨h.solved.objective x hx, h.known.objective x hx⟩

theorem open_of_row (h : s.Neat) (hx : s.rows.get? x = some row) : row.Within s.Open :=
  fun y hy => ⟨h.solved.rows x row hx y hy, h.known.rows x row hx y hy⟩

theorem with_objective (h : s.Neat) (hg : g.Within s.Open) : Neat { s with objective := g } where
  solved := ⟨h.solved.rows, hg.mono fun _ hy => hy.1, h.solved.artificial⟩
  known := ⟨h.known.rows, hg.mono fun _ hy => hy.2, h.known.artificial⟩
  keys := h.keys
  noted := h.noted

theorem with_artificial (h : s.Neat) (hg : g.Within s.Open) :
    Neat { s with artificial := some g } where
  solved := ⟨h.solved.rows, h.solved.objective, fun _ hr =>
    Option.some.inj hr ▸ hg.mono fun _ hy => hy.1⟩
  known := ⟨h.known.rows, h.known.objective, fun _ hr =>
    Option.some.inj hr ▸ hg.mono fun _ hy => hy.2⟩
  keys := h.keys
  noted := h.noted

theorem dropArtificial (h : s.Neat) : Neat { s with artificial := none } where
  solved := ⟨h.solved.rows, h.solved.objective, by simp⟩
  known := ⟨h.known.rows, h.known.objective, by simp⟩
  keys := h.keys
  noted := h.noted

theorem dropRow (h : s.Neat) (x : Symbol) : (s.dropRow x).Neat := ⟨h.toTidy.dropRow x, h.noted⟩

theorem putRow (h : s.Neat) (ha : s.Absent x) (hx : x.id ≤ s.tick)
    (hr : row.Within fun y => y ≠ x ∧ s.Open y) : (s.putRow x row).Neat :=
  ⟨h.toTidy.putRow ha hx hr, h.noted⟩

variable [Scalar R]

/-- Only symbols that have rows are noted. -/
theorem noted_substitute (h : s.Neat) (x : Symbol) (definition : Row R) :
    ∀ y ∈ (s.substitute x definition).infeasible, y.id ≤ s.tick := by
  intro y hy
  rcases mem_of_mem_foldl_note (p := fun e : Symbol × Row R =>
    !e.1.isExternal && decide (e.2.constant < 0)) hy with hy | ⟨r, hr⟩
  · exact h.noted y hy
  · rw [SortedMap.get?_mapValues, Option.map_eq_some_iff] at hr
    obtain ⟨r', hr', -⟩ := hr
    exact h.keys y r' hr'

theorem substitute (h : s.Neat) (x : Symbol) (hd : definition.Within s.Open) :
    (s.substitute x definition).Neat :=
  ⟨h.toTidy.substitute hd, h.noted_substitute x definition⟩

theorem install (h : s.Neat) (hx : x.id ≤ s.tick)
    (hd : definition.Within fun y => y ≠ x ∧ s.Open y) : (s.install x definition).Neat :=
  ⟨h.toTidy.install hx hd, h.noted_substitute x definition⟩

/-- Whichever symbols a pivot exchanges, the tableau stays neat. -/
theorem pivot (h : s.Neat) (hl : s.rows.get? leaving = some row) (he : entering.id ≤ s.tick) :
    (s.pivot leaving row entering).Neat :=
  (h.dropRow leaving).install he (h.toTidy.within_exchange hl entering)

theorem removeSymbol (h : s.Neat) (x : Symbol) : (s.removeSymbol x).Neat where
  toTidy := by
    refine h.toTidy.of_uses (fun y r hy => ?_) (fun y hy => ?_)
      (fun y hy => (Row.uses_remove.1 hy).2) (fun r hr => ⟨r, hr, fun _ => id⟩) le_rfl
    · obtain ⟨r', hr', rfl⟩ :=
        Option.map_eq_some_iff.1 ((SortedMap.get?_mapValues _ _ _).symm.trans hy)
      exact ⟨r', hr', fun z hz => (Row.uses_remove.1 hz).2⟩
    · have hfree : s.rows.get? y = none := hy
      rw [Free, Solver.removeSymbol, SortedMap.get?_mapValues, hfree]
      rfl
  noted := h.noted

end Neat

/-! ## One turn -/

theorem not_absent_of_goal {goal : Goal} (hg : s.goalRow? goal = some g) (hx : g.Uses x) :
    ¬ s.Absent x := by
  intro ha
  cases goal with
  | primary => exact ha.objective (Option.some.inj hg ▸ hx)
  | artificial => exact ha.artificial g hg hx

variable [Scalar R]

/-- A turn drops notes, and it may pivot with a symbol that stands in some row. -/
inductive Turned (s : Solver R) : Solver R → Prop
  | rested {notes : List Symbol} (hn : ∀ x ∈ notes, x ∈ s.infeasible) :
      Turned s { s with infeasible := notes }
  | pivoted {notes : List Symbol} {leaving entering : Symbol} {row : Row R}
      (hn : ∀ x ∈ notes, x ∈ s.infeasible) (hl : s.rows.get? leaving = some row)
      (he : ¬ s.Absent entering) :
      Turned s (Solver.pivot { s with infeasible := notes } leaving row entering)

theorem turned_refl (s : Solver R) : Turned s s := .rested fun _ => id

theorem uses_of_entering? (h : entering? g = some x) : g.Uses x := by
  obtain ⟨⟨y, c⟩, hf, rfl⟩ := Option.map_eq_some_iff.1 h
  exact ⟨c, (SortedMap.find?_eq_some _ hf).1⟩

theorem mem_of_foldl_better {κ : Type} {cs : List (κ × R)} {b : Option (κ × R)} {c : κ × R}
    (h : cs.foldl better b = some c) : b = some c ∨ c ∈ cs := by
  induction cs generalizing b with
  | nil => exact Or.inl h
  | cons d cs ih =>
    rcases ih h with hb | hc
    · unfold better at hb
      split at hb
      · split at hb
        · exact Or.inr (List.mem_cons.2 (Or.inl (Option.some.inj hb).symm))
        · simp at hb
      · split at hb
        · exact Or.inr (List.mem_cons.2 (Or.inl (Option.some.inj hb).symm))
        · exact Or.inl hb
    · exact Or.inr (List.mem_cons_of_mem _ hc)

theorem mem_of_leastRatio {κ : Type} {cs : List (κ × R)} {k : κ} (h : leastRatio cs = some k) :
    ∃ q, (k, q) ∈ cs := by
  obtain ⟨⟨k', q⟩, hc, rfl⟩ := Option.map_eq_some_iff.1 h
  exact ⟨q, (mem_of_foldl_better hc).resolve_left (by simp)⟩

theorem uses_of_dualEntering? (h : s.dualEntering? row = some x) : row.Uses x := by
  obtain ⟨q, hq⟩ := mem_of_leastRatio h
  obtain ⟨⟨y, c⟩, he, hy⟩ := List.mem_filterMap.1 hq
  dsimp only at hy
  split at hy
  · obtain rfl := (Prod.mk.inj (Option.some.inj hy)).1
    exact ⟨c, (SortedMap.get?_eq_some_iff _).2 he⟩
  · simp at hy

theorem turned_primalTurn (goal : Goal) (s : Solver R) : Turned s (primalTurn goal s).state := by
  unfold primalTurn
  split
  · exact turned_refl s
  · rename_i entering he
    obtain ⟨g, hg, he⟩ := Option.bind_eq_some_iff.1 he
    split
    · exact turned_refl s
    · split
      · exact turned_refl s
      · exact .pivoted (fun _ => id) ‹_› (not_absent_of_goal hg (uses_of_entering? he))

theorem turned_dualTurn (s : Solver R) : Turned s (dualTurn s).state := by
  unfold dualTurn
  split
  · exact turned_refl s
  · rename_i leaving rest hs
    have hn : ∀ x ∈ rest, x ∈ s.infeasible := by
      intro x hx
      rw [hs]
      exact List.mem_cons_of_mem _ hx
    dsimp only
    split
    · exact .rested hn
    · rename_i row hl
      split
      · split
        · exact .rested hn
        · rename_i entering he
          exact .pivoted hn hl fun ha => ha.rows leaving row hl (uses_of_dualEntering? he)
      · exact .rested hn

/-- What each turn keeps, the primal loop keeps. -/
theorem optimize_induction {P : Solver R → Prop} (h : ∀ {s t}, P s → Turned s t → P t)
    (goal : Goal) (hs : P s) : P (s.optimize goal).2 :=
  Turn.run_preserves (fun s hs => h hs (turned_primalTurn goal s)) _ hs

/-- And so does the dual loop. -/
theorem dualOptimize_induction {P : Solver R → Prop} (h : ∀ {s t}, P s → Turned s t → P t)
    (hs : P s) : P s.dualOptimize.2 :=
  Turn.run_preserves (fun s hs => h hs (turned_dualTurn s)) _ hs

/-! ## What turns keep -/

theorem Neat.turned (h : s.Neat) (ht : Turned s t) : t.Neat := by
  cases ht with
  | rested hn => exact h.forget hn
  | @pivoted notes leaving entering row hn hl he =>
    have hid : entering.id ≤ s.tick := by
      by_contra hlt
      exact he (h.toTidy.absent (not_le.1 hlt))
    exact (h.forget hn).pivot hl hid

/-- The symbol has no row and stands in none. -/
def Gone (s : Solver R) (x : Symbol) : Prop := s.Free x ∧ s.Absent x

omit [Scalar R] in
theorem Gone.forget (h : s.Gone x) (notes : List Symbol) : Gone { s with infeasible := notes } x :=
  ⟨h.1, h.2.rows, h.2.objective, h.2.artificial⟩

/-- A pivot brings no symbol back: the one that enters stands in a row, and the one that leaves has
one. -/
theorem Gone.pivot (h : s.Gone x) (hl : s.rows.get? leaving = some row) (he : x ≠ entering) :
    (s.pivot leaving row entering).Gone x := by
  obtain ⟨hfree, habsent⟩ := h
  have hleaving : leaving ≠ x := (hfree.ne_of_basic hl).symm
  have hrow : row.Within (· ≠ x) := by
    rintro y hy rfl
    exact habsent.rows leaving row hl hy
  have hexchange : (row.exchange leaving entering).Within (· ≠ x) :=
    (hrow.exchange hleaving).mono fun y hy => hy.2
  have hother : ∀ r : Row R, ¬ r.Uses x →
      ¬ (r.substitute entering (row.exchange leaving entering)).Uses x := by
    intro r hr hx
    refine Row.Within.substitute (p := (· ≠ x)) ?_ (fun _ => hexchange) x hx rfl
    rintro y hy - rfl
    exact hr hy
  refine ⟨(free_pivot s leaving entering x row).2 ⟨he, Or.inr hfree⟩, ?_⟩
  exact ((habsent.dropRow leaving).substitute hother).putRow fun hx => hexchange x hx rfl

theorem Gone.turned (h : s.Gone x) (ht : Turned s t) : t.Gone x := by
  cases ht with
  | rested => exact h.forget _
  | pivoted _ hl he =>
    refine (h.forget _).pivot hl ?_
    rintro rfl
    exact he h.2

end Solver

end RegionLayout
