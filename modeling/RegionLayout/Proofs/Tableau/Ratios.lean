-- The choices of a pivot. Each takes the first candidate of the least ratio, in the order of
-- the symbols; an entering symbol is the first whose growth helps.
import RegionLayout.Proofs.Tableau.Solutions

namespace RegionLayout

open Solver

namespace Solver

/-! ## The least ratio -/

section Least

variable {κ : Type}

theorem better_some (b c : κ × Rat) :
    better (some b) c = some (if c.2 < b.2 then c else b) := by
  unfold better
  simp only
  split <;> rfl

/-- A walk that starts with a candidate ends with it, or with the first of the least ratio. -/
theorem foldl_better_some (cs : List (κ × Rat)) (b : κ × Rat) :
    ∃ r, cs.foldl better (some b) = some r ∧
      ((r = b ∧ ∀ c ∈ cs, b.2 ≤ c.2) ∨
        (r.2 < b.2 ∧ ∃ before after, cs = before ++ r :: after ∧
          (∀ c ∈ before, r.2 < c.2) ∧ ∀ c ∈ after, r.2 ≤ c.2)) := by
  induction cs generalizing b with
  | nil => exact ⟨b, rfl, Or.inl ⟨rfl, by simp⟩⟩
  | cons c cs ih =>
    rw [List.foldl_cons, better_some]
    by_cases hcb : c.2 < b.2
    · rw [if_pos hcb]
      obtain ⟨r, hr, h⟩ := ih c
      refine ⟨r, hr, Or.inr ?_⟩
      rcases h with ⟨rfl, hle⟩ | ⟨hlt, before, after, rfl, hb, ha⟩
      · exact ⟨hcb, [], cs, rfl, by simp, hle⟩
      · refine ⟨lt_trans hlt hcb, c :: before, after, rfl, ?_, ha⟩
        intro d hd
        rcases List.mem_cons.1 hd with rfl | hd
        · exact hlt
        · exact hb d hd
    · rw [if_neg hcb]
      obtain ⟨r, hr, h⟩ := ih b
      refine ⟨r, hr, ?_⟩
      have hbc := not_lt.1 hcb
      rcases h with ⟨rfl, hle⟩ | ⟨hlt, before, after, rfl, hb, ha⟩
      · refine Or.inl ⟨rfl, fun d hd => ?_⟩
        rcases List.mem_cons.1 hd with rfl | hd
        · exact hbc
        · exact hle d hd
      · refine Or.inr ⟨hlt, c :: before, after, rfl, ?_, ha⟩
        intro d hd
        rcases List.mem_cons.1 hd with rfl | hd
        · exact lt_of_lt_of_le hlt hbc
        · exact hb d hd

theorem foldl_better_cons (c : κ × Rat) (cs : List (κ × Rat)) :
    (c :: cs).foldl better none = cs.foldl better (some c) := rfl

theorem leastRatio_eq_none_iff {cs : List (κ × Rat)} : leastRatio cs = none ↔ cs = [] := by
  cases cs with
  | nil => simp [leastRatio]
  | cons c cs =>
    obtain ⟨r, hr, -⟩ := foldl_better_some cs c
    rw [leastRatio, foldl_better_cons, hr]
    simp

/-- All before the chosen candidate have larger ratios, and none after it a smaller one. -/
theorem leastRatio_eq_some {cs : List (κ × Rat)} {k : κ} (h : leastRatio cs = some k) :
    ∃ q before after, cs = before ++ (k, q) :: after ∧
      (∀ c ∈ before, q < c.2) ∧ ∀ c ∈ after, q ≤ c.2 := by
  cases cs with
  | nil => simp [leastRatio] at h
  | cons c cs =>
    obtain ⟨r, hr, hc⟩ := foldl_better_some cs c
    rw [leastRatio, foldl_better_cons, hr] at h
    obtain rfl := Option.some.inj h
    rcases hc with ⟨rfl, hle⟩ | ⟨hlt, before, after, rfl, hb, ha⟩
    · exact ⟨r.2, [], cs, rfl, by simp, hle⟩
    · refine ⟨r.2, c :: before, after, rfl, ?_, ha⟩
      intro d hd
      rcases List.mem_cons.1 hd with rfl | hd
      · exact hlt
      · exact hb d hd

theorem leastRatio_le {cs : List (κ × Rat)} {k : κ} (h : leastRatio cs = some k) :
    ∃ q, (k, q) ∈ cs ∧ ∀ c ∈ cs, q ≤ c.2 := by
  obtain ⟨q, before, after, rfl, hb, ha⟩ := leastRatio_eq_some h
  refine ⟨q, by simp, fun c hc => ?_⟩
  rcases List.mem_append.1 hc with hc | hc
  · exact (hb c hc).le
  · rcases List.mem_cons.1 hc with rfl | hc
    · exact le_refl _
    · exact ha c hc

end Least

/-- The candidates that a map gives come in the order of its keys, so a tie goes to the first
key. -/
theorem leastRatio_filterMap {κ α : Type} [Ord κ] [Std.TransOrd κ] [Std.LawfulEqOrd κ]
    {m : SortedMap κ α} {f : κ × α → Option (κ × Rat)} (hf : ∀ e c, f e = some c → c.1 = e.1)
    {k : κ} (h : leastRatio (m.entries.filterMap f) = some k) :
    ∃ a q, m.get? k = some a ∧ f (k, a) = some (k, q) ∧
      ∀ k' a' q', m.get? k' = some a' → f (k', a') = some (k', q') →
        q < q' ∨ q = q' ∧ (k' = k ∨ compare k k' = .lt) := by
  obtain ⟨q, before, after, hl, hb, ha⟩ := leastRatio_eq_some h
  have hrise : (m.entries.filterMap f).Pairwise fun a b => (compare a.1 b.1).isLT = true := by
    rw [List.pairwise_filterMap]
    refine m.rising.imp ?_
    intro a b hab c hc d hd
    rw [hf a c hc, hf b d hd]
    exact hab
  have hmem : ∀ c ∈ m.entries.filterMap f, ∃ a, m.get? c.1 = some a ∧ f (c.1, a) = some c := by
    intro c hc
    obtain ⟨e, he, hec⟩ := List.mem_filterMap.1 hc
    refine ⟨e.2, ?_, ?_⟩
    · rw [SortedMap.get?_eq_some_iff, hf e c hec]
      exact he
    · rw [hf e c hec]
      exact hec
  obtain ⟨a, hka, hfa⟩ := hmem (k, q) (by rw [hl]; simp)
  refine ⟨a, q, hka, hfa, ?_⟩
  intro k' a' q' hk' hq'
  have hin : (k', q') ∈ m.entries.filterMap f :=
    List.mem_filterMap.2 ⟨(k', a'), (SortedMap.get?_eq_some_iff m).1 hk', hq'⟩
  rw [hl] at hin hrise
  rcases List.mem_append.1 hin with hin | hin
  · exact Or.inl (hb _ hin)
  · rcases List.mem_cons.1 hin with hin | hin
    · obtain ⟨rfl, rfl⟩ := Prod.mk.inj hin
      exact Or.inr ⟨rfl, Or.inl rfl⟩
    · rcases lt_or_eq_of_le (ha _ hin) with hlt | heq
      · exact Or.inl hlt
      · refine Or.inr ⟨heq, Or.inr ?_⟩
        exact SortedMap.isLT_iff.1
          ((List.pairwise_cons.1 (List.pairwise_append.1 hrise).2.1).1 _ hin)

theorem leastRatio_filterMap_eq_none {κ α : Type} [Ord κ] [Std.TransOrd κ] [Std.LawfulEqOrd κ]
    {m : SortedMap κ α} {f : κ × α → Option (κ × Rat)}
    (h : leastRatio (m.entries.filterMap f) = none) :
    ∀ k a, m.get? k = some a → f (k, a) = none := by
  intro k a hk
  have := List.filterMap_eq_nil_iff.1 (leastRatio_eq_none_iff.1 h)
  exact this _ ((SortedMap.get?_eq_some_iff m).1 hk)

/-! ## Entering and leaving -/

variable {s : Solver Rat} {entering leaving : Symbol}

/-- No symbol before the one that enters helps, dummies apart. -/
theorem entering?_eq_some {g : Row Rat} (h : entering? g = some entering) :
    entering.isDummy = false ∧ g.coefficient entering < 0 ∧
      ∀ y, y.isDummy = false → g.coefficient y < 0 →
        y = entering ∨ compare entering y = .lt := by
  obtain ⟨⟨x, c⟩, hf, rfl⟩ := Option.map_eq_some_iff.1 h
  obtain ⟨hx, hp, hmin⟩ := SortedMap.find?_eq_some _ hf
  simp only [Bool.and_eq_true, Bool.not_eq_true', decide_eq_true_eq] at hp hmin
  refine ⟨hp.1, by rw [Row.coefficient_of_get? hx]; exact hp.2, ?_⟩
  intro y hy hc
  obtain ⟨c', hc'⟩ := Row.uses_of_coefficient_ne hc.ne
  refine hmin y c' hc' ⟨hy, ?_⟩
  rwa [Row.coefficient_of_get? hc'] at hc

theorem entering?_eq_none {g : Row Rat} (h : entering? g = none) {y : Symbol}
    (hy : y.isDummy = false) : 0 ≤ g.coefficient y := by
  by_contra hc
  rw [not_le] at hc
  obtain ⟨c, hcy⟩ := Row.uses_of_coefficient_ne hc.ne
  have := (SortedMap.find?_eq_none_iff _).1 (Option.map_eq_none_iff.1 h) y c hcy
  rw [Row.coefficient_of_get? hcy] at hc
  simp only [hy, Bool.not_false, Bool.true_and, decide_eq_false_iff_not] at this
  exact this hc

/-- How far an entering symbol may grow before the row is zero. -/
def room (entering : Symbol) (row : Row Rat) : Rat := -row.constant / row.coefficient entering

/-- The row that leaves has the least room, and no earlier row has as little. -/
theorem leaving?_eq_some (h : s.leaving? entering = some leaving) :
    ∃ row, s.rows.get? leaving = some row ∧ leaving.isExternal = false ∧
      row.coefficient entering < 0 ∧
      ∀ x r, s.rows.get? x = some r → x.isExternal = false → r.coefficient entering < 0 →
        room entering row < room entering r ∨
          room entering row = room entering r ∧ (x = leaving ∨ compare leaving x = .lt) := by
  have hf : ∀ (e : Symbol × Row Rat) (c : Symbol × Rat),
      (if !e.1.isExternal && decide (e.2.coefficient entering < 0)
        then some (e.1, -e.2.constant / e.2.coefficient entering) else none) = some c →
      c.1 = e.1 := by
    intro e c hc
    split at hc
    · exact (congrArg Prod.fst (Option.some.inj hc)).symm
    · simp at hc
  obtain ⟨row, q, hrow, hq, hmin⟩ := leastRatio_filterMap hf h
  split at hq
  · rename_i hp
    simp only [Bool.and_eq_true, Bool.not_eq_true', decide_eq_true_eq] at hp
    obtain rfl := (Prod.mk.inj (Option.some.inj hq)).2
    refine ⟨row, hrow, hp.1, hp.2, ?_⟩
    intro x r hx hxe hc
    refine hmin x r (room entering r) hx ?_
    rw [if_pos (by simp [hxe, hc])]
    rfl
  · simp at hq

theorem leaving?_eq_none (h : s.leaving? entering = none) {x : Symbol} {r : Row Rat}
    (hx : s.rows.get? x = some r) (hxe : x.isExternal = false) : 0 ≤ r.coefficient entering := by
  by_contra hc
  rw [not_le] at hc
  have := leastRatio_filterMap_eq_none h x r hx
  simp [hxe, hc] at this

end Solver

end RegionLayout
