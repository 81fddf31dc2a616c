-- The primal loop ends. Both choices of a turn take the first symbol that will do, so no basis
-- comes twice: on a way back to a basis no pivot moves the vertex, and the last symbol that
-- enters on it cannot have been the first choice to leave. There are finitely many bases.
import RegionLayout.Proofs.Tableau.Primal

namespace RegionLayout

open Solver

namespace Solver

/-! ## The place of a symbol in the order -/

/-- Symbols in their order, as numbers. -/
def Symbol.place (x : Symbol) : Nat := 4 * x.id + x.kind.rank

theorem SymbolKind.rank_lt (k : SymbolKind) : k.rank < 4 := by
  cases k <;> decide

theorem Symbol.compare_eq_lt_iff {x y : Symbol} : compare x y = .lt ↔ x.place < y.place := by
  change (compareLex (compareOn Symbol.id) (compareOn fun s => s.kind.rank)) x y = .lt ↔ _
  have hx := x.kind.rank_lt
  have hy := y.kind.rank_lt
  simp only [compareLex, compareOn, Ordering.then_eq_lt, Nat.compare_eq_lt, Nat.compare_eq_eq,
    Symbol.place]
  omega

theorem SymbolKind.rank_injective : Function.Injective SymbolKind.rank := by
  intro a b h
  cases a <;> cases b <;> first | rfl | exact absurd h (by decide)

theorem Symbol.place_injective : Function.Injective Symbol.place := by
  rintro ⟨i, a⟩ ⟨j, b⟩ h
  have ha := a.rank_lt
  have hb := b.rank_lt
  simp only [Symbol.place] at h
  have hij : i = j := by omega
  have hab : a = b := SymbolKind.rank_injective (by omega)
  rw [hij, hab]

/-! ## Walks -/

/-- The turn exchanges these two symbols. -/
def Exchanges (goal : Goal) (s : Solver Rat) (entering leaving : Symbol) : Prop :=
  ∃ g, s.goalRow? goal = some g ∧ entering? g = some entering ∧
    s.leaving? entering = some leaving

/-- The tableaux of `n` turns, one after the other. -/
structure Walk (goal : Goal) (f : Nat → Solver Rat) (n : Nat) : Prop where
  steady : ∀ k ≤ n, (f k).Steady
  turn : ∀ k < n, primalTurn goal (f k) = .next (f (k + 1))

variable {goal : Goal} {f : Nat → Solver Rat} {n a b : Nat} {x y : Symbol}

namespace Walk

theorem pivoted (w : Walk goal f n) (hab : a ≤ b) (hb : b ≤ n) : Pivoted (f a) (f b) := by
  induction b, hab using Nat.le_induction with
  | base => exact Pivoted.refl _
  | succ b hab ih =>
    exact (ih (by omega)).trans ((w.steady b (by omega)).primalTurn (w.turn b (by omega))).2.1

theorem exchanges (w : Walk goal f n) (ha : a < n) :
    ∃ entering leaving, Exchanges goal (f a) entering leaving ∧
      ∀ x, (f (a + 1)).Free x ↔ x ≠ entering ∧ (x = leaving ∨ (f a).Free x) := by
  obtain ⟨g, entering, leaving, row, hg, he, hl, -, hf⟩ := primalTurn_eq_next (w.turn a ha)
  refine ⟨entering, leaving, ⟨g, hg, he, hl⟩, fun x => ?_⟩
  rw [hf, free_pivot]

/-- A basic symbol that does not leave stays basic. -/
theorem basic_of_not_leaves (w : Walk goal f n) (hab : a ≤ b) (hb : b ≤ n)
    (h : ¬ (f a).Free x) (hl : ∀ k, k < n → ∀ e, ¬ Exchanges goal (f k) e x) :
    ¬ (f b).Free x := by
  induction b, hab using Nat.le_induction with
  | base => exact h
  | succ b hab ih =>
    obtain ⟨entering, leaving, hx, hfree⟩ := w.exchanges (a := b) (by omega)
    rw [hfree]
    rintro ⟨-, rfl | hf⟩
    · exact hl b (by omega) entering hx
    · exact ih (by omega) hf

/-- A free symbol that does not enter stays free. -/
theorem free_of_not_enters (w : Walk goal f n) (hab : a ≤ b) (hb : b ≤ n) (h : (f a).Free x)
    (he : ∀ k, k < n → ∀ l, ¬ Exchanges goal (f k) x l) : (f b).Free x := by
  induction b, hab using Nat.le_induction with
  | base => exact h
  | succ b hab ih =>
    obtain ⟨entering, leaving, hx, hfree⟩ := w.exchanges (a := b) (by omega)
    rw [hfree]
    refine ⟨?_, Or.inr (ih (by omega))⟩
    rintro rfl
    exact he b (by omega) leaving hx

/-- Leaving a basis and coming back to it, a symbol that is once basic and once free enters
and leaves. -/
theorem enters_and_leaves (w : Walk goal f n) (hback : ∀ x, (f 0).Free x ↔ (f n).Free x)
    (ha : a ≤ n) (hb : b ≤ n) (hxa : ¬ (f a).Free x) (hxb : (f b).Free x) :
    (∃ k < n, ∃ l, Exchanges goal (f k) x l) ∧ ∃ k < n, ∃ e, Exchanges goal (f k) e x := by
  constructor
  · by_contra hno
    push Not at hno
    rcases Nat.le_total b a with hba | hab
    · exact hxa (w.free_of_not_enters hba ha hxb hno)
    · have h0 := (hback x).2 (w.free_of_not_enters hb le_rfl hxb hno)
      exact hxa (w.free_of_not_enters (Nat.zero_le a) ha h0 hno)
  · by_contra hno
    push Not at hno
    rcases Nat.le_total a b with hab | hba
    · exact w.basic_of_not_leaves hab hb hxa hno hxb
    · have h0 : ¬ (f 0).Free x := by
        rw [hback x]
        exact w.basic_of_not_leaves ha le_rfl hxa hno
      exact w.basic_of_not_leaves (Nat.zero_le b) hb h0 hno hxb

end Walk

/-! ## Back at a basis -/

theorem Regular.goalRow_within {s : Solver Rat} (h : s.Regular) {g : Row Rat}
    (hg : s.goalRow? goal = some g) : g.Within s.Free := by
  cases goal with
  | primary => exact Option.some.inj hg ▸ h.solved.objective
  | artificial => exact h.solved.artificial g hg

/-- Two tableaux with the same solutions and the same free symbols stand at the same vertex. -/
theorem Pivoted.vertex_eq {s s' : Solver Rat} (h : Pivoted s s') (hs : s.Tidy) (hs' : s'.Tidy)
    (hfree : ∀ x, s.Free x ↔ s'.Free x) : s'.vertex = s.vertex := by
  refine hs.eq_fill ((h.solves _).1 hs'.solves_vertex) fun x hx => ?_
  exact vertex_free ((hfree x).1 hx)

namespace Walk

/-- The goals of two tableaux of a walk come to the same in every solution. -/
theorem goal_eq (w : Walk goal f n) (ha : a ≤ n) (hb : b ≤ n) {g g' : Row Rat}
    (hg : (f a).goalRow? goal = some g) (hg' : (f b).goalRow? goal = some g')
    {σ : Symbol → Rat} (hσ : (f a).Solves σ) : g'.eval σ = g.eval σ := by
  rcases Nat.le_total a b with hab | hba
  · obtain ⟨g₁, hg₁, hsame⟩ := (w.pivoted hab hb).goalRow goal g hg
    obtain rfl := Option.some.inj (hg'.symm.trans hg₁)
    exact hsame σ hσ
  · have hp := w.pivoted hba ha
    obtain ⟨g₁, hg₁, hsame⟩ := hp.goalRow goal g' hg'
    obtain rfl := Option.some.inj (hg.symm.trans hg₁)
    exact (hsame σ ((hp.solves σ).1 hσ)).symm

/-- One turn lowers the goal by what the entering symbol gains from its room. -/
theorem goal_step (w : Walk goal f n) (ha : a < n) {g g' : Row Rat}
    (hg : (f a).goalRow? goal = some g) (hg' : (f (a + 1)).goalRow? goal = some g') :
    ∃ entering t, entering? g = some entering ∧ 0 ≤ t ∧
      (f (a + 1)).vertex = (f a).fill (Pi.single entering t) ∧
      g'.constant = g.constant + g.coefficient entering * t := by
  have hs := w.steady a (by omega)
  have hs' := w.steady (a + 1) (by omega)
  have hp := w.pivoted (Nat.le_succ a) (by omega)
  obtain ⟨g₀, entering, leaving, row, hg₀, he, hl, hrow, hf⟩ := primalTurn_eq_next (w.turn a ha)
  obtain rfl := Option.some.inj (hg.symm.trans hg₀)
  obtain ⟨t, ht⟩ : ∃ t, (f (a + 1)).vertex entering = t := ⟨_, rfl⟩
  have hve : (f (a + 1)).vertex = (f a).fill (Pi.single entering t) := by
    refine hs.eq_fill ((hp.solves _).1 hs'.solves_vertex) fun x hx => ?_
    rw [Pi.single_apply]
    split
    · subst x; exact ht
    · refine vertex_free ?_
      rw [hf, free_pivot]
      exact ⟨by assumption, Or.inr hx⟩
  refine ⟨entering, t, he, ?_, hve, ?_⟩
  · obtain ⟨row', hrow', hle, hneg, -⟩ := leaving?_eq_some hl
    obtain rfl : row' = row := Option.some.inj (hrow'.symm.trans hrow)
    rw [← ht]
    refine hs'.feasible.nonneg_vertex _ ?_
    exact hs.bound _ _ hrow hle _ (Row.uses_of_coefficient_ne hneg.ne)
  · obtain ⟨g₁, hg₁, hsame⟩ := hp.goalRow goal g hg
    obtain rfl := Option.some.inj (hg'.symm.trans hg₁)
    have hsol := (hp.solves _).1 hs'.solves_vertex
    rw [← eval_vertex (hs'.goalRow_within hg'), hsame _ hsol, hve,
      eval_fill_single (hs.goalRow_within hg)]

/-- One turn lowers the goal, or it leaves the vertex where it is. -/
theorem falls (w : Walk goal f n) (ha : a < n) {g g' : Row Rat}
    (hg : (f a).goalRow? goal = some g) (hg' : (f (a + 1)).goalRow? goal = some g') :
    g'.constant ≤ g.constant ∧
      (g'.constant = g.constant → (f (a + 1)).vertex = (f a).vertex) := by
  obtain ⟨entering, t, he, ht, hv, hc⟩ := w.goal_step ha hg hg'
  have hneg := (entering?_eq_some he).2.1
  have hle := mul_nonpos_of_nonpos_of_nonneg hneg.le ht
  refine ⟨by linarith, fun heq => ?_⟩
  have hzero : g.coefficient entering * t = 0 := by linarith
  obtain rfl : t = 0 := (mul_eq_zero.1 hzero).resolve_left hneg.ne
  rw [hv, Pi.single_zero]
  rfl

/-- On the way back to a basis the vertex does not move. -/
theorem vertex_eq (w : Walk goal f n) (hback : ∀ x, (f 0).Free x ↔ (f n).Free x) :
    ∀ k ≤ n, (f k).vertex = (f 0).vertex := by
  rcases Nat.eq_zero_or_pos n with rfl | hn
  · intro k hk
    obtain rfl : k = 0 := by omega
    rfl
  obtain ⟨g₀, -, -, -, hg₀, -⟩ := primalTurn_eq_next (w.turn 0 hn)
  have goals : ∀ k ≤ n, ∃ g, (f k).goalRow? goal = some g := fun k hk => by
    obtain ⟨g, hg, -⟩ := (w.pivoted (Nat.zero_le k) hk).goalRow goal g₀ hg₀
    exact ⟨g, hg⟩
  have : Nonempty (Row Rat) := ⟨g₀⟩
  choose! g hg using goals
  have falls : ∀ k (hk : k < n), (g (k + 1)).constant ≤ (g k).constant ∧
      ((g (k + 1)).constant = (g k).constant → (f (k + 1)).vertex = (f k).vertex) :=
    fun k hk => w.falls hk (hg k (by omega)) (hg (k + 1) hk)
  have ends : (g n).constant = (g 0).constant := by
    have h0 := w.steady 0 (Nat.zero_le n)
    have hn := w.steady n le_rfl
    have hv := (w.pivoted (Nat.zero_le n) le_rfl).vertex_eq h0.toTidy hn.toTidy hback
    rw [← eval_vertex (hn.goalRow_within (hg n le_rfl)), hv,
      w.goal_eq (Nat.zero_le n) le_rfl (hg 0 (Nat.zero_le n)) (hg n le_rfl)
        h0.toTidy.solves_vertex, eval_vertex (h0.goalRow_within (hg 0 (Nat.zero_le n)))]
  have below : ∀ i j, i ≤ j → j ≤ n → (g j).constant ≤ (g i).constant := by
    intro i j hij
    induction j, hij using Nat.le_induction with
    | base => exact fun _ => le_rfl
    | succ j _ ih => exact fun hj => (falls j (by omega)).1.trans (ih (by omega))
  intro k hk
  induction k with
  | zero => rfl
  | succ k ih =>
    rw [← ih (by omega)]
    have h1 := below (k + 1) n hk le_rfl
    have h2 := below 0 k (Nat.zero_le k) (by omega)
    exact (falls k hk).2 (le_antisymm (falls k hk).1 (by linarith))

/-- Along the edge that a turn at `a` takes, the goal at `b` falls as the one at `a` does. -/
theorem slope_edge (w : Walk goal f n) (ha : a ≤ n) (hb : b ≤ n) {g g' : Row Rat}
    (hg : (f a).goalRow? goal = some g) (hg' : (f b).goalRow? goal = some g')
    (entering : Symbol) :
    g'.slope ((f a).fill (Pi.single entering 1) - (f a).vertex) = g.coefficient entering := by
  have sa := w.steady a ha
  have hend := w.goal_eq ha hb hg hg' (sa.toTidy.solves_fill (Pi.single entering 1))
  have hstart := w.goal_eq ha hb hg hg' sa.toTidy.solves_vertex
  rw [eval_fill_single (sa.goalRow_within hg)] at hend
  rw [eval_vertex (sa.goalRow_within hg)] at hstart
  have hsum := Row.eval_add (f a).vertex ((f a).fill (Pi.single entering 1) - (f a).vertex) g'
  rw [add_sub_cancel, hend, hstart] at hsum
  linarith

/-- Where the entering symbol is rewarded, so is some symbol of the goal at `b`. -/
theorem exists_rewarded (w : Walk goal f n) (ha : a ≤ n) (hb : b ≤ n) {g g' : Row Rat}
    (hg : (f a).goalRow? goal = some g) (hg' : (f b).goalRow? goal = some g')
    {entering : Symbol} (hneg : g.coefficient entering < 0) :
    ∃ y, g'.Uses y ∧
      g'.coefficient y * ((f a).fill (Pi.single entering 1) y - (f a).vertex y) < 0 := by
  by_contra hno
  push Not at hno
  have : 0 ≤ g'.slope ((f a).fill (Pi.single entering 1) - (f a).vertex) :=
    Row.slope_nonneg fun y hyu => hno y hyu
  rw [w.slope_edge ha hb hg hg'] at this
  linarith

section Back

variable {last : Symbol} (hback : ∀ x, (f 0).Free x ↔ (f n).Free x)

include hback

/-- What is free at some turn leaves no room where it is basic. -/
theorem room_eq_zero (w : Walk goal f n) (ha : a ≤ n) (hb : b ≤ n) {r : Row Rat}
    (hx : (f a).rows.get? x = some r) (hxb : (f b).Free x) : room y r = 0 := by
  have hsame := w.vertex_eq hback a ha
  rw [← w.vertex_eq hback b hb] at hsame
  rw [room, ← vertex_basic hx, hsame, vertex_free hxb, neg_zero, zero_div]

/-- A symbol that is once basic and once free comes no later than the last to enter. -/
theorem not_after_last (w : Walk goal f n) (ha : a ≤ n) (hb : b ≤ n) (hxa : ¬ (f a).Free x)
    (hxb : (f b).Free x)
    (hlast : ∀ k < n, ∀ x l, Exchanges goal (f k) x l → x.place ≤ last.place) :
    x.place ≤ last.place ∧ x.isDummy = false ∧ x.isExternal = false := by
  obtain ⟨⟨k, hk, l, henters⟩, ⟨k', hk', e, g, -, -, hleaves⟩⟩ :=
    w.enters_and_leaves hback ha hb hxa hxb
  refine ⟨hlast k hk x l henters, ?_, ?_⟩
  · obtain ⟨g', -, he, -⟩ := henters
    exact (entering?_eq_some he).1
  · obtain ⟨r, -, hx, -⟩ := leaving?_eq_some hleaves
    exact hx

/-- Let the last symbol to enter on a way back leave at `a` and enter at `b`. The goal at `b`
falls along the edge that the turn at `a` takes, so some symbol of it is rewarded there. That
symbol is basic at `a` and free at `b`, so it stands at zero; it comes earlier in the order, and
the turn at `a` should have let it leave. -/
theorem not_exchanged (w : Walk goal f n) {entering other : Symbol}
    (hlast : ∀ k < n, ∀ x l, Exchanges goal (f k) x l → x.place ≤ last.place) (ha : a < n)
    (hb : b < n) (hleave : Exchanges goal (f a) entering last)
    (henter : Exchanges goal (f b) last other) : False := by
  obtain ⟨g, hg, he, hl⟩ := hleave
  obtain ⟨g', hg', he', -⟩ := henter
  obtain ⟨hed, hec, -⟩ := entering?_eq_some he
  obtain ⟨hld, hlc, hfirst⟩ := entering?_eq_some he'
  obtain ⟨row, hrow, hle, hneg, hmin⟩ := leaving?_eq_some hl
  have hfree : (f a).Free entering :=
    (w.steady a ha.le).goalRow_within hg _ (Row.uses_of_coefficient_ne hec.ne)
  have hgoal : g'.Within (f b).Free := (w.steady b hb.le).goalRow_within hg'
  have hearliest : ∀ y, y.isDummy = false → g'.coefficient y < 0 → last.place ≤ y.place := by
    intro y hyd hyc
    rcases hfirst y hyd hyc with rfl | hlt
    · exact le_rfl
    · exact (Symbol.compare_eq_lt_iff.1 hlt).le
  obtain ⟨y, hyu, hy⟩ := w.exists_rewarded ha.le hb.le hg hg' hec
  cases hya : (f a).rows.get? y with
  | none =>
    rw [fill_free hya, vertex_free hya, Pi.single_apply] at hy
    split at hy
    · subst y
      have hplace := le_antisymm (hlast a ha entering last ⟨g, hg, he, hl⟩)
        (hearliest entering hed (by linarith))
      rw [Symbol.place_injective hplace, Free, hrow] at hfree
      simp at hfree
    · simp at hy
  | some r =>
    rw [fill_single_basic hya, vertex_basic hya] at hy
    have hnf : ¬ (f a).Free y := by
      rw [Free, hya]
      simp
    obtain ⟨hplace, hyd, hye⟩ := w.not_after_last hback ha.le hb.le hnf (hgoal y hyu) hlast
    have hyl : y.place < last.place := by
      refine lt_of_le_of_ne hplace fun heq => ?_
      obtain rfl := Symbol.place_injective heq
      obtain rfl := Option.some.inj (hrow.symm.trans hya)
      have := mul_pos_of_neg_of_neg hlc hneg
      linarith
    have hyc : 0 ≤ g'.coefficient y := by
      by_contra hc
      exact absurd (hearliest y hyd (not_le.1 hc)) (not_le.2 hyl)
    have hrc : r.coefficient entering < 0 := by
      by_contra hc
      have := mul_nonneg hyc (not_lt.1 hc)
      linarith
    have hroom : room entering r = room entering row := by
      rw [w.room_eq_zero hback ha.le hb.le hya (hgoal y hyu), w.room_eq_zero hback ha.le hb.le
        hrow (hgoal _ (Row.uses_of_coefficient_ne hlc.ne))]
    rcases hmin y r hya hye hrc with hlt | ⟨-, rfl | hlt⟩
    · exact absurd hroom hlt.ne'
    · exact lt_irrefl _ hyl
    · exact absurd (Symbol.compare_eq_lt_iff.1 hlt) hyl.not_gt

end Back

/-- No walk comes back to a basis. -/
theorem not_back (w : Walk goal f n) (hn : 0 < n) : ¬ ∀ x, (f 0).Free x ↔ (f n).Free x := by
  intro hback
  have hex : ∀ k, k < n → ∃ x l, Exchanges goal (f k) x l := fun k hk => by
    obtain ⟨x, l, hx, -⟩ := w.exchanges hk
    exact ⟨x, l, hx⟩
  have : Nonempty Symbol := ⟨⟨0, .slack⟩⟩
  choose! enters leaves hx using hex
  obtain ⟨b, hb, hmax⟩ := (Finset.range n).exists_max_image (fun k => (enters k).place)
    ⟨0, Finset.mem_range.2 hn⟩
  have hb := Finset.mem_range.1 hb
  have hlast : ∀ k < n, ∀ x l, Exchanges goal (f k) x l → x.place ≤ (enters b).place := by
    rintro k hk x l ⟨g, hg, he, -⟩
    obtain ⟨g', hg', he', -⟩ := hx k hk
    obtain rfl := Option.some.inj (hg.symm.trans hg')
    obtain rfl := Option.some.inj (he.symm.trans he')
    exact hmax k (Finset.mem_range.2 hk)
  obtain ⟨g, hg, he, hl⟩ := id (hx b hb)
  -- what enters at `b` is free there and basic after, so it leaves somewhere
  have hfree : (f b).Free (enters b) := (w.steady b (by omega)).goalRow_within hg _
    (Row.uses_of_coefficient_ne (entering?_eq_some he).2.1.ne)
  have hbasic : ¬ (f (b + 1)).Free (enters b) := by
    obtain ⟨x, l, ⟨g', hg', he', -⟩, hiff⟩ := w.exchanges hb
    obtain rfl := Option.some.inj (hg.symm.trans hg')
    obtain rfl := Option.some.inj (he.symm.trans he')
    rw [hiff]
    exact fun h => h.1 rfl
  obtain ⟨-, a, ha, e, hleave⟩ := w.enters_and_leaves hback (by omega) (by omega) hbasic hfree
  exact w.not_exchanged hback hlast ha hb hleave (hx b hb)

end Walk

/-! ## Enough turns -/

/-- As many turns as there are sets of symbols. -/
def turnBound (tick : Nat) : Nat := 2 ^ (4 * (tick + 1))

/-- The basis, by the places of its symbols. -/
def basis (s : Solver Rat) : Finset Nat := (s.rows.keys.map Symbol.place).toFinset

theorem place_mem_basis (s : Solver Rat) (x : Symbol) : x.place ∈ s.basis ↔ ¬ s.Free x := by
  rw [basis, List.mem_toFinset, List.mem_map]
  constructor
  · rintro ⟨y, hy, hyx⟩
    obtain rfl := Symbol.place_injective hyx
    obtain ⟨r, hr⟩ := (SortedMap.mem_keys _).1 hy
    rw [Free, hr]
    simp
  · intro hx
    obtain ⟨r, hr⟩ := Option.ne_none_iff_exists'.1 hx
    exact ⟨x, (SortedMap.mem_keys _).2 ⟨r, hr⟩, rfl⟩

theorem Tidy.basis_subset {s : Solver Rat} (h : s.Tidy) :
    s.basis ⊆ Finset.range (4 * (s.tick + 1)) := by
  intro i hi
  rw [basis, List.mem_toFinset, List.mem_map] at hi
  obtain ⟨x, hx, rfl⟩ := hi
  obtain ⟨r, hr⟩ := (SortedMap.mem_keys _).1 hx
  have := h.keys x r hr
  have := x.kind.rank_lt
  simp only [Finset.mem_range, Symbol.place]
  omega

/-- Turns that are used up make a walk. -/
theorem exists_walk {s s' : Solver Rat} (h : s.Steady)
    (hrun : Turn.run (primalTurn goal) n s = (.error .pivotLimit, s')) :
    ∃ f, f 0 = s ∧ Walk goal f n := by
  induction n generalizing s with
  | zero => exact ⟨fun _ => s, rfl, fun _ _ => h, fun k hk => absurd hk (Nat.not_lt_zero k)⟩
  | succ n ih =>
    cases ht : primalTurn goal s with
    | done t => simp [Turn.run, ht] at hrun
    | broken b t => simp [Turn.run, ht] at hrun
    | next t =>
      rw [show Turn.run (primalTurn goal) (n + 1) s = Turn.run (primalTurn goal) n t by
        simp [Turn.run, ht]] at hrun
      obtain ⟨f, rfl, w⟩ := ih (h.primalTurn ht).1 hrun
      refine ⟨fun k => k.casesOn s f, rfl, fun k hk => ?_, fun k hk => ?_⟩
      · cases k with
        | zero => exact h
        | succ k => exact w.steady k (by omega)
      · cases k with
        | zero => exact ht
        | succ k => exact w.turn k (by omega)

namespace Walk

/-- No basis comes twice. -/
theorem basis_ne (w : Walk goal f n) {i j : Nat} (hij : i < j) (hj : j ≤ n) :
    (f i).basis ≠ (f j).basis := by
  intro hsame
  have w' : Walk goal (fun k => f (i + k)) (j - i) :=
    ⟨fun k hk => w.steady (i + k) (by omega), fun k hk => w.turn (i + k) (by omega)⟩
  refine w'.not_back (by omega) fun x => ?_
  have hji : i + (j - i) = j := by omega
  rw [hji, Nat.add_zero, ← not_iff_not, ← place_mem_basis, ← place_mem_basis, hsame]

/-- A walk is no longer than there are bases. -/
theorem length_lt (w : Walk goal f n) : n < turnBound (f 0).tick := by
  by_contra hlong
  have hmaps : ∀ k ∈ Finset.range (n + 1),
      (f k).basis ∈ (Finset.range (4 * ((f 0).tick + 1))).powerset := by
    intro k hk
    have hk := Finset.mem_range.1 hk
    have htick : (f k).tick = (f 0).tick := by
      rw [(w.pivoted (Nat.zero_le k) (by omega)).frame]
    rw [Finset.mem_powerset, ← htick]
    exact (w.steady k (by omega)).toTidy.basis_subset
  have hcard : ((Finset.range (4 * ((f 0).tick + 1))).powerset).card <
      (Finset.range (n + 1)).card := by
    rw [Finset.card_powerset, Finset.card_range, Finset.card_range]
    unfold turnBound at hlong
    omega
  obtain ⟨i, hi, j, hj, hij, hsame⟩ :=
    Finset.exists_ne_map_eq_of_card_lt_of_maps_to hcard hmaps
  have hi := Finset.mem_range.1 hi
  have hj := Finset.mem_range.1 hj
  rcases Nat.lt_or_gt_of_ne hij with hlt | hgt
  · exact w.basis_ne hlt (by omega) hsame
  · exact w.basis_ne hgt (by omega) hsame.symm

end Walk

/-- As many turns as there are bases are not used up. -/
theorem Steady.run_ends {s : Solver Rat} (h : s.Steady) (hn : turnBound s.tick ≤ n) (goal : Goal) :
    (Turn.run (Solver.primalTurn goal) n s).1 ≠ .error .pivotLimit := by
  intro hlim
  have hrun : Turn.run (Solver.primalTurn goal) n s =
      (.error .pivotLimit, (Turn.run (Solver.primalTurn goal) n s).2) := Prod.ext hlim rfl
  obtain ⟨f, rfl, w⟩ := exists_walk h hrun
  exact absurd w.length_lt (not_lt.2 hn)

/-- An optimisation with as many turns as there are bases ends. -/
theorem Steady.optimize_ends {s : Solver Rat} (h : s.Steady)
    (hlimit : turnBound s.tick ≤ s.limit) (goal : Goal) :
    (s.optimize goal).1 ≠ .error .pivotLimit := h.run_ends hlimit goal

/-! ## Where an optimisation ends -/

theorem Steady.primalTurn_falls {s s' : Solver Rat} (h : s.Steady)
    (ht : Solver.primalTurn goal s = .next s') {g : Row Rat} (hg : s.goalRow? goal = some g) :
    ∃ g', s'.goalRow? goal = some g' ∧ g'.constant ≤ g.constant ∧
      (g'.constant = g.constant → s'.vertex = s.vertex) := by
  obtain ⟨hs', hp, -⟩ := h.primalTurn ht
  obtain ⟨g', hg', -⟩ := hp.goalRow goal g hg
  have w : Walk goal (fun k => if k = 0 then s else s') 1 := by
    refine ⟨fun k _ => ?_, fun k hk => ?_⟩
    · split
      · exact h
      · exact hs'
    · obtain rfl : k = 0 := by omega
      exact ht
  exact ⟨g', hg', w.falls Nat.zero_lt_one hg hg'⟩

/-- An optimisation does not raise its goal. Where the goal ends as it was, so does the vertex,
and no free dummy has become basic. -/
theorem Steady.optimize_falls {s s' : Solver Rat} (h : s.Steady) {g : Row Rat}
    (hg : s.goalRow? goal = some g) (hrun : s.optimize goal = (.ok (), s')) :
    ∃ g', s'.goalRow? goal = some g' ∧ g'.constant ≤ g.constant ∧
      (g'.constant = g.constant → s'.vertex = s.vertex) ∧
      ∀ y, y.isDummy = true → s.Free y → s'.Free y := by
  have keep : ∀ t t', (t.Steady ∧ ∃ g', t.goalRow? goal = some g' ∧ g'.constant ≤ g.constant ∧
      (g'.constant = g.constant → t.vertex = s.vertex) ∧
      ∀ y, y.isDummy = true → s.Free y → t.Free y) → Solver.primalTurn goal t = .next t' →
      t'.Steady ∧ ∃ g', t'.goalRow? goal = some g' ∧ g'.constant ≤ g.constant ∧
        (g'.constant = g.constant → t'.vertex = s.vertex) ∧
        ∀ y, y.isDummy = true → s.Free y → t'.Free y := by
    rintro t t' ⟨hs, g₁, hg₁, hle, hv, hd⟩ ht
    obtain ⟨g₂, hg₂, hle₂, hv₂⟩ := hs.primalTurn_falls ht hg₁
    refine ⟨(hs.primalTurn ht).1, g₂, hg₂, hle₂.trans hle, fun heq => ?_, fun y hy hf => ?_⟩
    · have h₂ : g₂.constant = g₁.constant := le_antisymm hle₂ (by linarith)
      rw [hv₂ h₂, hv (by linarith)]
    · obtain ⟨g', entering, leaving, row, -, he, -, -, rfl⟩ := primalTurn_eq_next ht
      rw [free_pivot]
      refine ⟨?_, Or.inr (hd y hy hf)⟩
      rintro rfl
      have := (entering?_eq_some he).1
      simp [hy] at this
  have hrun : Turn.run (Solver.primalTurn goal) s.limit s = (.ok (), s') := hrun
  rcases Turn.run_cases (n := s.limit) keep ⟨h, g, hg, le_rfl, fun _ => rfl, fun _ _ hf => hf⟩
    with ⟨t, t', ⟨-, ht⟩, hd, hr⟩ | ⟨t, b, t', -, -, hr⟩ | ⟨t', -, hr⟩
  · obtain ⟨rfl, -⟩ := primalTurn_eq_done hd
    obtain rfl := (Prod.mk.inj (hr.symm.trans hrun)).2
    exact ht
  · rw [hr] at hrun
    simp at hrun
  · rw [hr] at hrun
    simp at hrun

end Solver

end RegionLayout
