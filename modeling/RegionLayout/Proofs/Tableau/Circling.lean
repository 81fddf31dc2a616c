-- Where the dual loop does not end. Each of its pivots takes out the last symbol that is
-- negative, and the tableau is all that decides what enters, so the loop that comes back to a
-- basis goes round for ever. As there are finitely many bases, it goes on for ever in no other
-- way.
import RegionLayout.Proofs.Tableau.Dual
import RegionLayout.Proofs.Tableau.Termination

namespace RegionLayout

open Solver

namespace Solver

/-! ## Turns taken one after the other -/

section Turns

variable {α : Type} {step : α → Turn α} {m n : Nat} {a a' : α}

/-- A loop that has ended is not changed by more turns. -/
theorem Turn.run_of_ended (h : (Turn.run step m a).1 ≠ .error .pivotLimit) (n : Nat) :
    Turn.run step (m + n) a = Turn.run step m a := by
  induction m generalizing a with
  | zero => exact absurd rfl h
  | succ m ih =>
    rw [Nat.succ_add]
    cases ht : step a with
    | done a' => simp [Turn.run, ht]
    | broken b a' => simp [Turn.run, ht]
    | next a' =>
      simp only [Turn.run, ht] at h ⊢
      exact ih h

/-- A loop that has not ended goes on from where it is. -/
theorem Turn.run_of_going (h : (Turn.run step m a).1 = .error .pivotLimit) (n : Nat) :
    Turn.run step (m + n) a = Turn.run step n (Turn.run step m a).2 := by
  induction m generalizing a with
  | zero => rw [Nat.zero_add, Turn.run]
  | succ m ih =>
    rw [Nat.succ_add]
    cases ht : step a with
    | done a' => simp [Turn.run, ht] at h
    | broken b a' => simp [Turn.run, ht] at h
    | next a' =>
      simp only [Turn.run, ht] at h ⊢
      exact ih h

theorem Turn.going_of_le (hmn : m ≤ n) (h : (Turn.run step n a).1 = .error .pivotLimit) :
    (Turn.run step m a).1 = .error .pivotLimit := by
  by_contra hm
  obtain ⟨d, rfl⟩ := Nat.exists_eq_add_of_le hmn
  rw [Turn.run_of_ended hm] at h
  exact hm h

end Turns

variable {s t u u' : Solver Rat} {x y leaving entering : Symbol} {row : Row Rat}
  {rest : List Symbol} {i j k n : Nat}

/-! ## The tableau of a basis -/

/-- The rows and the objective are the same. -/
structure Alike (s u : Solver Rat) : Prop where
  rows : u.rows = s.rows
  objective : u.objective = s.objective

theorem eval_fill_of_within (h : row.Within s.Free) (σ : Symbol → Rat) :
    row.eval (s.fill σ) = row.eval σ :=
  Row.eval_congr fun y hy => fill_free (h y hy)

/-- Tableaux with the same solutions, costs and basis are the same. -/
theorem Pivoted.alike (h : Pivoted s u) (hs : s.Regular) (hu : u.Regular)
    (hb : u.basis = s.basis) : Alike s u := by
  have hfree : ∀ y, u.Free y ↔ s.Free y := fun y => by
    rw [← not_iff_not, ← place_mem_basis, ← place_mem_basis, hb]
  have hfill : ∀ σ, u.fill σ = s.fill σ := fun σ =>
    hs.eq_fill ((h.solves _).1 (hu.solves_fill σ)) fun y hy => fill_free ((hfree y).2 hy)
  have hrow : ∀ {y r r'}, s.rows.get? y = some r → u.rows.get? y = some r' → r' = r := by
    intro y r r' hr hr'
    refine (hu.clean.rows y r' hr').ext_eval (hs.clean.rows y r hr) fun σ => ?_
    rw [← fill_basic hr', hfill, fill_basic hr]
  constructor
  · apply SortedMap.ext_get?
    intro y
    cases hr : s.rows.get? y with
    | none => exact (hfree y).2 hr
    | some r =>
      cases hr' : u.rows.get? y with
      | none => exact absurd rfl (Free.ne_of_basic ((hfree y).1 hr') hr)
      | some r' => rw [hrow hr hr']
  · refine hu.clean.objective.ext_eval hs.clean.objective fun σ => ?_
    rw [← eval_fill_of_within hu.solved.objective, hfill,
      h.objective (hs.solves_fill σ), eval_fill_of_within hs.solved.objective]

theorem basis_pivot (he : row.Uses entering) (hs : s.Tidy) (hl : s.rows.get? leaving = some row) :
    (s.pivot leaving row entering).basis ≠ s.basis := by
  intro hb
  have hin : entering.place ∈ (s.pivot leaving row entering).basis := by
    rw [place_mem_basis, free_pivot]
    exact fun h => h.1 rfl
  rw [hb, place_mem_basis] at hin
  exact hin (hs.solved.rows _ _ hl _ he)

/-! ## The note on top -/

/-- The note on top is of the last restricted symbol that is negative. -/
structure Due (s : Solver Rat) (leaving : Symbol) (row : Row Rat) (rest : List Symbol) :
    Prop where
  noted : s.infeasible = leaving :: rest
  basic : s.rows.get? leaving = some row
  restricted : leaving.isExternal = false
  negative : row.constant < 0
  last : ∀ y r, s.rows.get? y = some r → y.isExternal = false → r.constant < 0 →
    y.place ≤ leaving.place

/-- There is something to do, and it is noted on top. -/
def Acting (s : Solver Rat) : Prop := ∃ leaving row rest, s.Due leaving row rest

theorem Acting.not_feasible (h : s.Acting) : ¬ s.Feasible := by
  obtain ⟨leaving, row, rest, hd⟩ := h
  exact fun hf => absurd hd.negative (not_lt.2 (hf _ _ hd.basic hd.restricted))

/-- Entries noted in their order leave the last on top. -/
theorem top_of_noted (m : SortedMap Symbol (Row Rat)) (p : Symbol × Row Rat → Bool) :
    ((m.entries.filter p).map (·.1)).reverse = [] ∧ (∀ y r, m.get? y = some r → p (y, r) = false) ∨
      ∃ x r rest, ((m.entries.filter p).map (·.1)).reverse = x :: rest ∧ m.get? x = some r ∧
        p (x, r) = true ∧ ∀ y r', m.get? y = some r' → p (y, r') = true → y.place ≤ x.place := by
  rcases List.eq_nil_or_concat (m.entries.filter p) with hnil | ⟨l, ⟨x, r⟩, hl⟩
  · refine Or.inl ⟨by rw [hnil]; rfl, fun y r hy => ?_⟩
    have hmem := (SortedMap.get?_eq_some_iff _).1 hy
    have := List.filter_eq_nil_iff.1 hnil _ hmem
    simpa using this
  · rw [List.concat_eq_append] at hl
    obtain ⟨hmem, hp⟩ : (x, r) ∈ m.entries ∧ p (x, r) = true := by
      rw [← List.mem_filter, hl]
      simp
    have hsorted := m.rising.filter p
    rw [hl, List.pairwise_append] at hsorted
    refine Or.inr ⟨x, r, (l.map (·.1)).reverse, by rw [hl]; simp,
      (SortedMap.get?_eq_some_iff _).2 hmem, hp, fun y r' hy hp' => ?_⟩
    have hy : (y, r') ∈ m.entries.filter p :=
      List.mem_filter.2 ⟨(SortedMap.get?_eq_some_iff _).1 hy, hp'⟩
    rw [hl, List.mem_append, List.mem_singleton] at hy
    rcases hy with hy | hy
    · have := SortedMap.isLT_iff.1 (hsorted.2.2 _ hy (x, r) (List.mem_singleton.2 rfl))
      exact (Symbol.compare_eq_lt_iff.1 this).le
    · rw [(Prod.mk.inj hy).1]

/-- Where what is negative has just been noted, there is something to do unless nothing is. -/
theorem acting_or_feasible {m : SortedMap Symbol (Row Rat)} {p : Symbol × Row Rat → Bool}
    (h : u.infeasible = ((m.entries.filter p).map (·.1)).reverse ++ rest)
    (hm : ∀ y r, m.get? y = some r ∧ p (y, r) = true ↔
      u.rows.get? y = some r ∧ y.isExternal = false ∧ r.constant < 0) :
    u.Acting ∨ u.Feasible := by
  rcases top_of_noted m p with ⟨-, hno⟩ | ⟨x, r, rest', htop, hx, hp, hlast⟩
  · right
    intro y r hy hye
    by_contra hneg
    obtain ⟨hmy, hp⟩ := (hm y r).2 ⟨hy, hye, not_le.1 hneg⟩
    rw [hno y r hmy] at hp
    simp at hp
  · left
    rw [htop] at h
    obtain ⟨hx', hxe, hneg⟩ := (hm x r).1 ⟨hx, hp⟩
    refine ⟨x, r, rest' ++ rest, h, hx', hxe, hneg, fun y r' hy hye hneg' => ?_⟩
    obtain ⟨hmy, hp'⟩ := (hm y r').2 ⟨hy, hye, hneg'⟩
    exact hlast y r' hmy hp'

/-! ## One turn -/

theorem Due.dualTurn_eq (h : s.Due leaving row rest) : dualTurn s =
    match s.dualEntering? row with
    | none => .broken .noDualPivot { s with infeasible := rest }
    | some entering => .next (Solver.pivot { s with infeasible := rest } leaving row entering) := by
  unfold dualTurn
  rw [h.noted]
  simp only [h.basic]
  rw [if_pos]
  · rfl
  · simp only [Bool.and_eq_true, decide_eq_true_eq, Bool.not_eq_true']
    exact ⟨h.negative, Bool.eq_false_iff.2 fun hz => h.negative.ne (Row.nearZero_iff.1 hz)⟩

/-- A pivot leaves something to do on top, or it leaves nothing to do. -/
theorem Due.pivot (h : s.Due leaving row rest) (hs : s.Regular)
    (he : s.dualEntering? row = some entering) :
    Acting (Solver.pivot { s with infeasible := rest } leaving row entering) ∨
      Feasible (Solver.pivot { s with infeasible := rest } leaving row entering) := by
  obtain ⟨-, hpos, -⟩ := dualEntering?_eq_some he
  have hu := Row.uses_of_coefficient_ne hpos.ne'
  have hne := hs.ne_of_uses h.basic hu
  have hfree : Free s entering := hs.solved.rows _ _ h.basic _ hu
  refine acting_or_feasible (infeasible_substitute _ _ _) fun y r => ?_
  have hold : ((dropRow { s with infeasible := rest } leaving).rows.mapValues fun _ r =>
      r.substitute entering (row.exchange leaving entering)).get? y =
      if y = leaving then none
      else (s.rows.get? y).map fun r => r.substitute entering (row.exchange leaving entering) := by
    rw [SortedMap.get?_mapValues, rows_dropRow]
    split <;> rfl
  rw [hold, rows_pivot]
  simp only [Bool.and_eq_true, Bool.not_eq_true', decide_eq_true_eq]
  by_cases hye : y = entering
  · -- the symbol that has entered is not negative
    subst hye
    rw [if_neg hne, if_pos rfl, show s.rows.get? y = none from hfree]
    constructor
    · simp
    · rintro ⟨hr, -, hneg⟩
      rw [← Option.some.inj hr, Row.constant_exchange hpos.ne' hne] at hneg
      have := div_pos (neg_pos.2 h.negative) hpos
      linarith
  · rw [if_neg hye]

/-- A pivot raises the objective, or leaves it where it is. -/
theorem Due.objective_le (h : s.Due leaving row rest) (hs : s.Regular)
    (he : s.dualEntering? row = some entering) (ho : Optimal s.objective) :
    s.objective.constant ≤
      (Solver.pivot { s with infeasible := rest } leaving row entering).objective.constant := by
  obtain ⟨hed, hpos, -⟩ := dualEntering?_eq_some he
  have hne := hs.ne_of_uses h.basic (Row.uses_of_coefficient_ne hpos.ne')
  change s.objective.constant ≤
    (s.objective.substitute entering (row.exchange leaving entering)).constant
  rw [Row.constant_substitute, Row.constant_exchange hpos.ne' hne]
  have hgain := mul_nonneg (ho entering hed) (div_pos (neg_pos.2 h.negative) hpos).le
  linarith

/-- The notes on top of tableaux that are alike are of the same symbol. -/
theorem Due.of_alike {row' : Row Rat} {rest' : List Symbol} (h : s.Due leaving row rest)
    (hu : u.Due x row' rest') (ha : Alike s u) : x = leaving ∧ row' = row := by
  obtain rfl : x = leaving := by
    apply Symbol.place_injective
    apply le_antisymm
    · exact h.last x row' (ha.rows ▸ hu.basic) hu.restricted hu.negative
    · exact hu.last leaving row (ha.rows ▸ h.basic) h.restricted h.negative
  refine ⟨rfl, ?_⟩
  have := hu.basic
  rw [ha.rows, h.basic] at this
  exact (Option.some.inj this).symm

theorem Alike.acting (ha : Alike s u) (hs : s.Acting) (hu : u.Acting ∨ u.Feasible) :
    u.Acting := by
  refine hu.resolve_right fun hf => hs.not_feasible ?_
  unfold Feasible at hf ⊢
  rwa [ha.rows] at hf

/-- From tableaux that are alike a turn leads to tableaux that are alike. -/
theorem Alike.turn (ha : Alike s u) (hs : s.Acting) (hu : u.Acting)
    (ht : dualTurn s = .next t) : ∃ t', dualTurn u = .next t' ∧ Alike t t' := by
  obtain ⟨leaving, row, rest, hs⟩ := hs
  obtain ⟨x, row', rest', hu⟩ := hu
  obtain ⟨rfl, rfl⟩ := hs.of_alike hu ha
  have hsame : u.dualEntering? row' = s.dualEntering? row' := by
    unfold dualEntering?
    rw [ha.objective]
  rw [hs.dualTurn_eq] at ht
  rw [hu.dualTurn_eq, hsame]
  cases he : s.dualEntering? row' with
  | none => simp [he] at ht
  | some entering =>
    simp only [he] at ht
    obtain rfl := Turn.next.inj ht
    refine ⟨_, rfl, ?_, ?_⟩
    · simp only [Solver.pivot, install, substitute, putRow, dropRow, ha.rows]
    · simp only [Solver.pivot, install, substitute, putRow, dropRow, ha.objective]

/-- A turn with nothing to do keeps the tableau. -/
theorem Feasible.turn (h : s.Feasible) (hw : s.Watched) :
    s.infeasible = [] ∧ dualTurn s = .done s ∨
      ∃ x rest, s.infeasible = x :: rest ∧ dualTurn s = .next { s with infeasible := rest } := by
  have ho := dualTurn_outcome s
  generalize dualTurn s = t at ho ⊢
  cases ho with
  | settled hi => exact Or.inl ⟨hi, rfl⟩
  | @stale leaving rest hi => exact Or.inr ⟨leaving, rest, hi, rfl⟩
  | @pivoted leaving _ _ _ hi hr hneg =>
    have hle := hw.restricted leaving (by simp [hi])
    exact absurd hneg (not_lt.2 (h _ _ hr hle))
  | @stuck leaving _ _ hi hr hneg =>
    have hle := hw.restricted leaving (by simp [hi])
    exact absurd hneg (not_lt.2 (h _ _ hr hle))

/-! ## Many turns -/

/-- The dual loop after so many turns at most. -/
def turned (s : Solver Rat) (n : Nat) : Answer Rat Unit := Turn.run dualTurn n s

/-- The dual loop has turns left to take. -/
def Going (s : Solver Rat) (n : Nat) : Prop := (s.turned n).1 = .error .pivotLimit

theorem Feasible.turned (h : s.Feasible) (hw : s.Watched) (n : Nat) :
    (s.turned n).2.rows = s.rows := by
  induction n generalizing s with
  | zero => rfl
  | succ n ih =>
    unfold Solver.turned
    rcases h.turn hw with ⟨-, ht⟩ | ⟨x, rest, -, ht⟩
    · simp [Turn.run, ht]
    · simp only [Turn.run, ht]
      exact ih (s := { s with infeasible := rest }) h (hw.dualTurn ht).1

theorem Feasible.ends (h : s.Feasible) (hw : s.Watched) : ∃ n, ¬ s.Going n := by
  refine ⟨s.infeasible.length + 1, ?_⟩
  generalize hl : s.infeasible = notes
  induction notes generalizing s with
  | nil =>
    rcases h.turn hw with ⟨-, ht⟩ | ⟨x, rest, hi, -⟩
    · simp [Going, Solver.turned, Turn.run, ht]
    · simp [hl] at hi
  | cons y notes ih =>
    rcases h.turn hw with ⟨hi, -⟩ | ⟨x, rest, hi, ht⟩
    · simp [hl] at hi
    · obtain ⟨-, rfl⟩ := List.cons.inj (hl.symm.trans hi)
      have := ih (s := { s with infeasible := notes }) h (hw.dualTurn ht).1 rfl
      unfold Going Solver.turned at this ⊢
      rw [List.length_cons]
      simpa only [Turn.run, ht] using this

/-- A dual loop that may be about to pivot, or has nothing left to do. -/
structure Poised (s : Solver Rat) : Prop extends s.Watched where
  phase : s.Acting ∨ s.Feasible
  optimal : Optimal s.objective

theorem Poised.dualTurn (h : s.Poised) (ht : Solver.dualTurn s = .next t) :
    t.Poised ∧ Pivoted s t ∧ s.objective.constant ≤ t.objective.constant ∧
      (s.Acting → t.basis ≠ s.basis) := by
  obtain ⟨hw, hp, -, ho⟩ := h.toWatched.dualTurn ht
  rcases h.phase with ⟨leaving, row, rest, hd⟩ | hf
  · rw [hd.dualTurn_eq] at ht
    cases he : s.dualEntering? row with
    | none => simp [he] at ht
    | some entering =>
      simp only [he] at ht
      obtain rfl := Turn.next.inj ht
      obtain ⟨-, hpos, -⟩ := dualEntering?_eq_some he
      refine ⟨⟨hw, hd.pivot h.toRegular he, ho h.optimal⟩, hp,
        hd.objective_le h.toRegular he h.optimal, fun _ => ?_⟩
      have hreg : Regular { s with infeasible := rest } := h.of_eq rfl rfl rfl le_rfl
      exact basis_pivot (Row.uses_of_coefficient_ne hpos.ne') hreg.toTidy hd.basic
  · rcases hf.turn h.toWatched with ⟨-, ht'⟩ | ⟨x, rest, -, ht'⟩
    · simp [ht'] at ht
    · obtain rfl := Turn.next.inj (ht'.symm.trans ht)
      exact ⟨⟨hw, Or.inr hf, h.optimal⟩, hp, le_rfl, fun ha => absurd hf ha.not_feasible⟩

section Loop

variable (h : t.Poised)

include h

theorem Poised.turned (hgo : t.Going n) :
    (t.turned n).2.Poised ∧ Pivoted t (t.turned n).2 := by
  have keep : ∀ a b, (a.Poised ∧ Pivoted t a) → Solver.dualTurn a = .next b →
      b.Poised ∧ Pivoted t b := by
    rintro a b ⟨ha, hp⟩ ht
    obtain ⟨hb, hp', -⟩ := ha.dualTurn ht
    exact ⟨hb, hp.trans hp'⟩
  unfold Going Solver.turned at *
  rcases Turn.run_cases (n := n) keep ⟨h, Pivoted.refl t⟩ with
    ⟨_, _, -, -, hr⟩ | ⟨_, _, _, -, -, hr⟩ | ⟨u, hu, hr⟩
  · simp [hr] at hgo
  · simp [hr] at hgo
  · rw [hr]
    exact hu

end Loop

/-- The turn after the first `n`. -/
theorem turned_succ (hgo : t.Going n) :
    t.turned (n + 1) = Turn.run dualTurn 1 (t.turned n).2 := Turn.run_of_going hgo 1

theorem going_succ (hgo : t.Going (n + 1)) :
    t.Going n ∧ dualTurn (t.turned n).2 = .next (t.turned (n + 1)).2 := by
  have hn : t.Going n := Turn.going_of_le (Nat.le_succ n) hgo
  refine ⟨hn, ?_⟩
  rw [Going, turned_succ hn] at hgo
  rw [turned_succ hn]
  cases ht : dualTurn (t.turned n).2 with
  | done u => simp [Turn.run, ht] at hgo
  | broken b u => simp [Turn.run, ht] at hgo
  | next u => simp [Turn.run, ht]

/-- A loop that has ended, or has nothing left to do, keeps its basis. -/
theorem Poised.settled (h : t.Poised) (hno : ¬ (t.Going i ∧ (t.turned i).2.Acting))
    (hij : i ≤ j) : (t.turned j).2.basis = (t.turned i).2.basis := by
  obtain ⟨d, rfl⟩ := Nat.exists_eq_add_of_le hij
  by_cases hgo : t.Going i
  · obtain ⟨hp, -⟩ := h.turned hgo
    have hf : (t.turned i).2.Feasible := hp.phase.resolve_left fun ha => hno ⟨hgo, ha⟩
    have hrows := hf.turned hp.toWatched d
    have hrun : t.turned (i + d) = (t.turned i).2.turned d := Turn.run_of_going hgo d
    rw [basis, basis, hrun, hrows]
  · have hrun : t.turned (i + d) = t.turned i := Turn.run_of_ended hgo d
    rw [hrun]

/-- A turn that ends the loop keeps its basis. -/
theorem basis_of_last (hgo : t.Going i) (hend : ¬ t.Going (i + 1)) :
    (t.turned (i + 1)).2.basis = (t.turned i).2.basis := by
  rw [Going, turned_succ hgo] at hend
  rw [turned_succ hgo]
  have ho := dualTurn_outcome (t.turned i).2
  generalize ht : dualTurn (t.turned i).2 = u at ho
  cases ho with
  | settled => simp [Turn.run, ht]
  | stale => simp [Turn.run, ht] at hend
  | pivoted => simp [Turn.run, ht] at hend
  | stuck => simp [Turn.run, ht, basis]

/-! ## Going round -/

/-- Tableaux that follow each other leave a basis and come back to it. -/
def Circles (f : Nat → Solver Rat) (i j k : Nat) : Prop :=
  i < j ∧ j < k ∧ (f k).basis = (f i).basis ∧ (f j).basis ≠ (f i).basis

/-- The next turn is a pivot, if it is not the last. -/
def Works (t : Solver Rat) (n : Nat) : Prop := t.Going n ∧ (t.turned n).2.Acting

theorem Poised.alike (h : t.Poised) (hij : i ≤ j) (hj : t.Going j)
    (hb : (t.turned j).2.basis = (t.turned i).2.basis) :
    Alike (t.turned i).2 (t.turned j).2 := by
  have hi : t.Going i := Turn.going_of_le hij hj
  obtain ⟨hpi, -⟩ := h.turned hi
  obtain ⟨d, rfl⟩ := Nat.exists_eq_add_of_le hij
  have hrun : t.turned (i + d) = (t.turned i).2.turned d := Turn.run_of_going hi d
  rw [Going, hrun] at hj
  obtain ⟨hpj, hp⟩ := hpi.turned hj
  rw [hrun] at hb ⊢
  exact hp.alike hpi.toRegular hpj.toRegular hb

/-- On a circle all turns are pivots, up to where the first basis comes again. -/
theorem Poised.works_of_circles (h : t.Poised) (hc : Circles (fun n => (t.turned n).2) i j k) :
    ∃ l, i < l ∧ (∀ m ≤ l, t.Works m) ∧ Alike (t.turned i).2 (t.turned l).2 := by
  obtain ⟨hij, hjk, hback, haway⟩ := hc
  have hex : ∃ l, j < l ∧ (t.turned l).2.basis = (t.turned i).2.basis := ⟨k, hjk, hback⟩
  obtain ⟨hjl, hl⟩ := Nat.find_spec hex
  set l := Nat.find hex with hldef
  have haway' : ∀ m, j ≤ m → m < l → (t.turned m).2.basis ≠ (t.turned i).2.basis := by
    intro m hjm hml hm
    rcases Nat.eq_or_lt_of_le hjm with rfl | hlt
    · exact haway hm
    · exact Nat.find_min hex hml ⟨hlt, hm⟩
  have hbefore : ∀ m < l, t.Works m := by
    intro m hml
    by_contra hno
    rcases Nat.le_total m j with hmj | hjm
    · have h1 := h.settled hno hmj
      have h2 := h.settled hno hml.le
      rw [hl] at h2
      rw [← h2] at h1
      exact haway h1
    · have h2 := h.settled hno hml.le
      rw [hl] at h2
      exact haway' m hjm hml h2.symm
  have hgo : t.Going l := by
    by_contra hend
    obtain ⟨m, hm⟩ : ∃ m, l = m + 1 := ⟨l - 1, by omega⟩
    rw [hm] at hend hl
    rw [basis_of_last (hbefore m (by omega)).1 hend] at hl
    exact haway' m (by omega) (by omega) hl
  have hsame := h.alike (by omega) hgo hl
  refine ⟨l, by omega, fun m hm => ?_, hsame⟩
  rcases Nat.lt_or_eq_of_le hm with hlt | rfl
  · exact hbefore m hlt
  · exact ⟨hgo, hsame.acting (hbefore i (by omega)).2 (h.turned hgo).1.phase⟩

/-- A loop that comes back to a basis goes on for ever. -/
theorem Poised.going_of_circles (h : t.Poised) (hc : Circles (fun n => (t.turned n).2) i j k)
    (n : Nat) :
    t.Going n := by
  obtain ⟨l, hil, hworks, hsame⟩ := h.works_of_circles hc
  -- each turn is the one that was taken a circle earlier
  have hround : ∀ m, (∀ a ≤ l + m, t.Works a) ∧
      Alike (t.turned (i + m)).2 (t.turned (l + m)).2 := by
    intro m
    induction m with
    | zero => exact ⟨hworks, hsame⟩
    | succ m ih =>
      obtain ⟨hall, hm⟩ := ih
      have hnext := hall (i + (m + 1)) (by omega)
      obtain ⟨-, ht⟩ := going_succ (n := i + m) hnext.1
      obtain ⟨u, hu, hsame'⟩ := hm.turn (hall (i + m) (by omega)).2 (hall (l + m) le_rfl).2 ht
      have hrun : t.turned (l + m + 1) = (.error .pivotLimit, u) := by
        rw [turned_succ (hall (l + m) le_rfl).1]
        simp [Turn.run, hu]
      have hgo : t.Going (l + m + 1) := by rw [Going, hrun]
      have hsame' : Alike (t.turned (i + (m + 1))).2 (t.turned (l + m + 1)).2 := by
        rw [hrun]
        exact hsame'
      refine ⟨fun a ha => ?_, hsame'⟩
      rcases Nat.lt_or_eq_of_le ha with hlt | rfl
      · exact hall a (by omega)
      · exact ⟨hgo, hsame'.acting hnext.2 (h.turned hgo).1.phase⟩
  exact ((hround n).1 n (by omega)).1

/-- A loop that does not end comes back to a basis. -/
theorem Poised.circles_of_going (h : t.Poised) (hgo : ∀ n, t.Going n) :
    ∃ i j k, Circles (fun n => (t.turned n).2) i j k := by
  have hworks : ∀ n, (t.turned n).2.Acting := by
    intro n
    obtain ⟨hp, -⟩ := h.turned (hgo n)
    refine hp.phase.resolve_right fun hf => ?_
    obtain ⟨m, hm⟩ := hf.ends hp.toWatched
    apply hm
    have := hgo (n + m)
    rwa [Going, show t.turned (n + m) = (t.turned n).2.turned m from
      Turn.run_of_going (hgo n) m] at this
  have hmoves : ∀ n, (t.turned (n + 1)).2.basis ≠ (t.turned n).2.basis := fun n =>
    ((h.turned (hgo n)).1.dualTurn (going_succ (hgo (n + 1))).2).2.2.2 (hworks n)
  have hmaps : ∀ n ∈ Finset.range (turnBound t.tick + 1),
      (t.turned n).2.basis ∈ (Finset.range (4 * (t.tick + 1))).powerset := by
    intro n _
    obtain ⟨hp, hpiv⟩ := h.turned (hgo n)
    have htick : (t.turned n).2.tick = t.tick := by rw [hpiv.frame]
    rw [Finset.mem_powerset, ← htick]
    exact hp.toTidy.basis_subset
  have hcard : ((Finset.range (4 * (t.tick + 1))).powerset).card <
      (Finset.range (turnBound t.tick + 1)).card := by
    rw [Finset.card_powerset, Finset.card_range, Finset.card_range, turnBound]
    omega
  obtain ⟨i, -, k, -, hik, hsame⟩ := Finset.exists_ne_map_eq_of_card_lt_of_maps_to hcard hmaps
  have main : ∀ i k, i < k → (t.turned k).2.basis = (t.turned i).2.basis →
      Circles (fun n => (t.turned n).2) i (i + 1) k := by
    intro i k hlt hback
    refine ⟨Nat.lt_succ_self i, ?_, hback, hmoves i⟩
    rcases Nat.eq_or_lt_of_le hlt with heq | hlt
    · rw [← heq] at hback
      exact absurd hback (hmoves i)
    · exact hlt
  rcases Nat.lt_or_gt_of_ne hik with hlt | hgt
  · exact ⟨i, i + 1, k, main i k hlt hsame.symm⟩
  · exact ⟨k, k + 1, i, main k i hgt hsame⟩

/-- On a circle no pivot gains anything. -/
theorem Poised.objective_eq (h : t.Poised) (hc : Circles (fun n => (t.turned n).2) i j k) :
    (t.turned j).2.objective.constant = (t.turned i).2.objective.constant := by
  have hgo := h.going_of_circles hc
  have hrises : ∀ n, (t.turned n).2.objective.constant ≤
      (t.turned (n + 1)).2.objective.constant := fun n =>
    ((h.turned (hgo n)).1.dualTurn (going_succ (hgo (n + 1))).2).2.2.1
  have hmono := monotone_nat_of_le_succ hrises
  obtain ⟨hij, hjk, hback, -⟩ := hc
  have hsame := (h.alike (hij.trans hjk).le (hgo k) hback).objective
  have hle := hmono hjk.le
  simp only [hsame] at hle
  exact le_antisymm hle (hmono hij.le)

end Solver

end RegionLayout
