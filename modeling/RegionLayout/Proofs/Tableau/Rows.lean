-- What a row of the tableau says. A row is a linear form in the symbols, so each operation on
-- rows has two laws: which symbols stand in the outcome, and what it comes to when every
-- symbol has a number. The first hold for any numbers, the second for exact ones.
import Mathlib
import RegionLayout.Solver.Row

namespace RegionLayout

/-! ## Sums over a map -/

namespace SortedMap

variable {κ α : Type} [Ord κ] [Std.LawfulEqOrd κ]

theorem sum_alterIn (F : κ → α → Rat) (k : κ) (f : Option α → Option α) {l : List (κ × α)}
    (h : l.Pairwise fun a b => (compare a.1 b.1).isLT = true) :
    ((alterIn k f l).map fun e => F e.1 e.2).sum =
      (l.map fun e => F e.1 e.2).sum +
        ((f (lookupIn k l)).elim 0 (F k) - (lookupIn k l).elim 0 (F k)) := by
  induction l with
  | nil =>
    simp only [alterIn, lookupIn]
    cases f none <;> simp
  | cons e l ih =>
    obtain ⟨k', a⟩ := e
    obtain ⟨hlt, hl⟩ := List.pairwise_cons.1 h
    have ih := ih hl
    simp only [alterIn, lookupIn]
    split
    · cases f none <;> simp [add_comm]
    · rename_i hk
      obtain rfl := Std.LawfulEqCmp.eq_of_compare hk
      cases f (some a) with
      | none => simp
      | some b => simp; ring
    · simp only [List.map_cons, List.sum_cons, ih]
      ring

/-- The sum over a map with one entry altered. -/
theorem sum_alter [Std.TransOrd κ] (F : κ → α → Rat) (m : SortedMap κ α) (k : κ)
    (f : Option α → Option α) :
    ((m.alter k f).entries.map fun e => F e.1 e.2).sum =
      (m.entries.map fun e => F e.1 e.2).sum +
        ((f (m.get? k)).elim 0 (F k) - (m.get? k).elim 0 (F k)) := sum_alterIn F k f m.rising

/-- Two maps with the same look-ups are the same. -/
theorem ext_get? [Std.TransOrd κ] {m m' : SortedMap κ α} (h : ∀ k, m.get? k = m'.get? k) :
    m = m' := by
  let below : κ × α → κ × α → Prop := fun a b => (compare a.1 b.1).isLT = true
  have hirrefl : Std.Irrefl below := ⟨fun a ha => by
    have := isLT_iff.1 ha
    simp at this⟩
  have hantisymm : Std.Antisymm below := ⟨fun a b hab hba => by
    have := Std.TransCmp.lt_trans (isLT_iff.1 hab) (isLT_iff.1 hba)
    simp at this⟩
  have hentries : m.entries = m'.entries := by
    refine List.Pairwise.eq_of_mem_iff (r := below) m.rising m'.rising fun e => ?_
    rw [← get?_eq_some_iff, ← get?_eq_some_iff, h]
  cases m
  cases m'
  simp only at hentries
  subst hentries
  rfl

end SortedMap

namespace Solver

theorem Symbol.isExternal_of_isDummy {x : Symbol} (h : x.isDummy = true) :
    x.isExternal = false := by
  obtain ⟨_, k⟩ := x
  cases k <;> simp_all [isDummy, isExternal]

namespace Row

/-! ## The symbols of a row -/

section Cells

variable {R : Type}

def Uses (r : Row R) (x : Symbol) : Prop := ∃ c, r.cells.get? x = some c

/-- Every symbol of the row has the property. -/
def Within (p : Symbol → Prop) (r : Row R) : Prop := ∀ x, r.Uses x → p x

theorem Within.mono {p q : Symbol → Prop} {r : Row R} (h : r.Within p) (hpq : ∀ x, p x → q x) :
    r.Within q := fun x hx => hpq x (h x hx)

theorem within_ofConstant (p : Symbol → Prop) (c : R) : (ofConstant c).Within p := by
  rintro x ⟨c', h⟩
  simp [ofConstant] at h

theorem allDummies_eq_true_iff {r : Row R} :
    r.allDummies = true ↔ r.Within fun x => x.isDummy = true := by
  simp only [allDummies, List.all_eq_true, SortedMap.mem_keys, Within, Uses]

variable [Scalar R]

theorem uses_of_uses_insertSymbol {r : Row R} {x y : Symbol} {c : R}
    (h : (r.insertSymbol y c).Uses x) : x = y ∨ r.Uses x := by
  obtain ⟨c', h⟩ := h
  simp only [insertSymbol, SortedMap.get?_alter] at h
  split at h
  · exact Or.inl ‹_›
  · exact Or.inr ⟨c', h⟩

theorem Within.insertSymbol {p : Symbol → Prop} {r : Row R} {y : Symbol} (c : R)
    (h : r.Within p) (hy : p y) : (r.insertSymbol y c).Within p := by
  intro x hx
  rcases uses_of_uses_insertSymbol hx with rfl | hx
  · exact hy
  · exact h x hx

/-- What holds of a row and outlives each symbol put in holds after a whole row is put in. -/
theorem insertRow_induction {P : Row R → Prop} {r other : Row R} {c : R}
    (h : P { r with constant := r.constant + other.constant * c })
    (step : ∀ (r : Row R) (x : Symbol) (k : R), other.Uses x → P r → P (r.insertSymbol x k)) :
    P (r.insertRow other c) := by
  have key : ∀ l : List (Symbol × R), (∀ e ∈ l, other.Uses e.1) → ∀ r : Row R, P r →
      P (l.foldl (fun r e => r.insertSymbol e.1 (e.2 * c)) r) := by
    intro l
    induction l with
    | nil => exact fun _ r hr => hr
    | cons e l ih =>
      intro hl r hr
      exact ih (fun e' he' => hl e' (List.mem_cons_of_mem _ he')) _
        (step r e.1 _ (hl e List.mem_cons_self) hr)
  exact key _ (fun e he => ⟨e.2, (SortedMap.get?_eq_some_iff _).2 he⟩) _ h

theorem Within.insertRow {p : Symbol → Prop} {r other : Row R} (c : R) (h : r.Within p)
    (ho : other.Within p) : (r.insertRow other c).Within p :=
  insertRow_induction h fun _ x k hx hr => hr.insertSymbol k (ho x hx)

theorem uses_remove {r : Row R} {x y : Symbol} : (r.remove y).Uses x ↔ x ≠ y ∧ r.Uses x := by
  simp only [Uses, remove, SortedMap.get?_erase]
  by_cases h : x = y <;> simp [h]

theorem uses_scale {r : Row R} {x : Symbol} (c : R) : (r.scale c).Uses x ↔ r.Uses x := by
  simp [Uses, scale, SortedMap.get?_mapValues]

theorem uses_negate {r : Row R} {x : Symbol} : r.negate.Uses x ↔ r.Uses x := by
  simp [Uses, negate, SortedMap.get?_mapValues]

theorem uses_of_uses_solveFor {r : Row R} {x y : Symbol} (h : (r.solveFor y).Uses x) :
    x ≠ y ∧ r.Uses x := by
  unfold solveFor at h
  split at h
  · rename_i hy
    refine ⟨?_, h⟩
    rintro rfl
    obtain ⟨c, hc⟩ := h
    rw [hy] at hc
    simp at hc
  · rw [uses_scale] at h
    exact uses_remove.1 h

/-- A row solved for one of its symbols keeps the others. -/
theorem uses_solveFor {r : Row R} {x y : Symbol} (hy : r.Uses y) :
    (r.solveFor y).Uses x ↔ x ≠ y ∧ r.Uses x := by
  obtain ⟨c, hc⟩ := hy
  simp only [solveFor, hc, uses_scale, uses_remove]

theorem Within.exchange {p : Symbol → Prop} {r : Row R} {leaving entering : Symbol}
    (h : r.Within p) (hl : p leaving) :
    (r.exchange leaving entering).Within fun x => x ≠ entering ∧ p x := by
  intro x hx
  obtain ⟨hne, hx⟩ := uses_of_uses_solveFor hx
  exact ⟨hne, (h.insertSymbol _ hl) x hx⟩

theorem substitute_of_not_uses {r : Row R} {x : Symbol} (definition : Row R) (h : ¬ r.Uses x) :
    r.substitute x definition = r := by
  have hx : r.cells.get? x = none := by
    cases hc : r.cells.get? x with
    | none => rfl
    | some c => exact absurd ⟨c, hc⟩ h
  simp [substitute, hx]

theorem Within.substitute {p : Symbol → Prop} {r definition : Row R} {x : Symbol}
    (h : r.Within fun y => y ≠ x → p y) (hd : r.Uses x → definition.Within p) :
    (r.substitute x definition).Within p := by
  by_cases hx : r.Uses x
  · obtain ⟨c, hc⟩ := id hx
    simp only [Row.substitute, hc]
    refine Within.insertRow _ ?_ (hd hx)
    intro y hy
    obtain ⟨hne, hy⟩ := uses_remove.1 hy
    exact h y hy hne
  · rw [substitute_of_not_uses _ hx]
    intro y hy
    exact h y hy fun hyx => hx (hyx ▸ hy)

end Cells

/-! ## Rows without zeros -/

/-- No coefficient of the row is zero. -/
def Clean (r : Row Rat) : Prop := ∀ x c, r.cells.get? x = some c → c ≠ 0

variable {r : Row Rat} {x : Symbol}

theorem nearZero_iff {c : Rat} : Scalar.nearZero c = true ↔ c = 0 := beq_iff_eq

theorem coefficient_of_get? {c : Rat} (h : r.cells.get? x = some c) : r.coefficient x = c := by
  simp [coefficient, h]

theorem coefficient_of_not_uses (h : ¬ r.Uses x) : r.coefficient x = 0 := by
  unfold coefficient
  cases hc : r.cells.get? x with
  | none => rfl
  | some c => exact absurd ⟨c, hc⟩ h

theorem uses_of_coefficient_ne (h : r.coefficient x ≠ 0) : r.Uses x := by
  by_contra hx
  exact h (coefficient_of_not_uses hx)

theorem Clean.coefficient_ne (h : r.Clean) (hx : r.Uses x) : r.coefficient x ≠ 0 := by
  obtain ⟨c, hc⟩ := hx
  rw [coefficient_of_get? hc]
  exact h x c hc

theorem clean_ofConstant (c : Rat) : (ofConstant c).Clean := by
  intro x c' h
  simp [ofConstant] at h

theorem Clean.insertSymbol (h : r.Clean) (y : Symbol) (c : Rat) : (r.insertSymbol y c).Clean := by
  intro x c' hx
  simp only [Row.insertSymbol, SortedMap.get?_alter] at hx
  split at hx
  · split at hx
    · simp at hx
    · rename_i hz
      obtain rfl := Option.some.inj hx
      exact fun h0 => hz (nearZero_iff.2 h0)
  · exact h x c' hx

theorem Clean.insertRow (h : r.Clean) (other : Row Rat) (c : Rat) :
    (r.insertRow other c).Clean :=
  insertRow_induction h fun _ x k _ hr => hr.insertSymbol x k

theorem Clean.remove (h : r.Clean) (y : Symbol) : (r.remove y).Clean := by
  intro x c hx
  simp only [Row.remove, SortedMap.get?_erase] at hx
  split at hx
  · simp at hx
  · exact h x c hx

theorem Clean.scale (h : r.Clean) {k : Rat} (hk : k ≠ 0) : (r.scale k).Clean := by
  intro x c hx
  simp only [Row.scale, SortedMap.get?_mapValues, Option.map_eq_some_iff] at hx
  obtain ⟨c', hc', rfl⟩ := hx
  exact mul_ne_zero (h x c' hc') hk

theorem negate_eq_scale (r : Row Rat) : r.negate = r.scale (-1) := by
  simp [negate, scale]

theorem Clean.negate (h : r.Clean) : r.negate.Clean := by
  rw [negate_eq_scale]
  exact h.scale (by norm_num)

theorem Clean.solveFor (h : r.Clean) (y : Symbol) : (r.solveFor y).Clean := by
  unfold Row.solveFor
  split
  · exact h
  · rename_i c hc
    exact (h.remove y).scale (div_ne_zero (by norm_num) (h y c hc))

theorem Clean.exchange (h : r.Clean) (leaving entering : Symbol) :
    (r.exchange leaving entering).Clean := (h.insertSymbol _ _).solveFor _

theorem Clean.substitute (h : r.Clean) (y : Symbol) (definition : Row Rat) :
    (r.substitute y definition).Clean := by
  unfold Row.substitute
  split
  · exact h
  · exact (h.remove y).insertRow _ _

/-! ## The value of a row -/

/-- What the symbols of a row add to its constant. -/
def slope (σ : Symbol → Rat) (r : Row Rat) : Rat :=
  (r.cells.entries.map fun e => e.2 * σ e.1).sum

def eval (σ : Symbol → Rat) (r : Row Rat) : Rat := r.constant + r.slope σ

variable (σ τ : Symbol → Rat)

@[simp] theorem eval_ofConstant (c : Rat) : (ofConstant c).eval σ = c := by
  simp [eval, slope, ofConstant, show (∅ : SortedMap Symbol Rat).entries = [] from rfl]

theorem slope_alter (r : Row Rat) (y : Symbol) (f : Option Rat → Option Rat) :
    slope σ { r with cells := r.cells.alter y f } =
      r.slope σ + ((f (r.cells.get? y)).getD 0 - r.coefficient y) * σ y := by
  have h : ∀ o : Option Rat, (o.elim 0 fun c => c * σ y) = o.getD 0 * σ y := by
    rintro (_ | c) <;> simp
  rw [slope, SortedMap.sum_alter (fun x c => c * σ x), h, h, coefficient, slope]
  ring

@[simp] theorem eval_insertSymbol (r : Row Rat) (y : Symbol) (c : Rat) :
    (r.insertSymbol y c).eval σ = r.eval σ + c * σ y := by
  have h := slope_alter σ r y fun old =>
    let c := old.getD 0 + c
    if Scalar.nearZero c then none else some c
  have hc : ((let k := (r.cells.get? y).getD 0 + c
      if Scalar.nearZero k then none else some k).getD 0 : Rat) = r.coefficient y + c := by
    simp only [nearZero_iff]
    split
    · rename_i h0
      exact h0.symm
    · rfl
  simp only [hc] at h
  simp only [eval, insertSymbol] at h ⊢
  rw [h]
  ring

@[simp] theorem eval_insertRow (r other : Row Rat) (c : Rat) :
    (r.insertRow other c).eval σ = r.eval σ + c * other.eval σ := by
  have key : ∀ (l : List (Symbol × Rat)) (r : Row Rat),
      (l.foldl (fun r e => r.insertSymbol e.1 (e.2 * c)) r).eval σ =
        r.eval σ + c * (l.map fun e => e.2 * σ e.1).sum := by
    intro l
    induction l with
    | nil => simp
    | cons e l ih =>
      intro r
      simp only [List.foldl_cons, ih, eval_insertSymbol, List.map_cons, List.sum_cons]
      ring
  rw [insertRow, key]
  simp only [eval, slope]
  ring

@[simp] theorem eval_remove (r : Row Rat) (y : Symbol) :
    (r.remove y).eval σ = r.eval σ - r.coefficient y * σ y := by
  have h := slope_alter σ r y fun _ => none
  simp only [eval, remove, SortedMap.erase] at h ⊢
  rw [h, Option.getD_none]
  ring

@[simp] theorem eval_scale (r : Row Rat) (k : Rat) : (r.scale k).eval σ = k * r.eval σ := by
  have h : (r.scale k).slope σ = k * r.slope σ := by
    simp only [slope, scale, SortedMap.mapValues, List.map_map, ← List.sum_map_mul_left]
    congr 1
    apply List.map_congr_left
    intro e _
    simp only [Function.comp_apply]
    ring
  simp only [eval, h]
  simp only [scale]
  ring

@[simp] theorem eval_negate (r : Row Rat) : r.negate.eval σ = -r.eval σ := by
  rw [negate_eq_scale, eval_scale]
  ring

@[simp] theorem eval_shift (r : Row Rat) (k : Rat) : (r.shift k).eval σ = r.eval σ + k := by
  simp only [eval, shift, slope]
  ring

theorem eval_solveFor {r : Row Rat} {y : Symbol} (h : r.coefficient y ≠ 0) :
    (r.solveFor y).eval σ = σ y - r.eval σ / r.coefficient y := by
  obtain ⟨c, hc⟩ := uses_of_coefficient_ne h
  rw [coefficient_of_get? hc] at h ⊢
  simp only [solveFor, hc, eval_scale, eval_remove, coefficient_of_get? hc]
  field_simp
  ring

/-- A row solved for a symbol gives the value at which the whole row is zero. -/
theorem eq_eval_solveFor_iff {r : Row Rat} {y : Symbol} (h : r.coefficient y ≠ 0) :
    σ y = (r.solveFor y).eval σ ↔ r.eval σ = 0 := by
  rw [eval_solveFor σ h, eq_comm, sub_eq_self, div_eq_zero_iff]
  simp [h]

theorem coefficient_insertSymbol_of_ne (r : Row Rat) {x y : Symbol} (c : Rat) (h : x ≠ y) :
    (r.insertSymbol y c).coefficient x = r.coefficient x := by
  simp only [coefficient, insertSymbol, SortedMap.get?_alter, h, if_false]

theorem eval_exchange {r : Row Rat} {leaving entering : Symbol}
    (h : r.coefficient entering ≠ 0) (hne : entering ≠ leaving) :
    (r.exchange leaving entering).eval σ =
      σ entering + (σ leaving - r.eval σ) / r.coefficient entering := by
  have hc := coefficient_insertSymbol_of_ne r (-1) hne
  rw [exchange, eval_solveFor σ (by rwa [hc]), eval_insertSymbol, hc]
  ring

/-- A row with two symbols exchanged says the same. -/
theorem eq_eval_exchange_iff {r : Row Rat} {leaving entering : Symbol}
    (h : r.coefficient entering ≠ 0) (hne : entering ≠ leaving) :
    σ entering = (r.exchange leaving entering).eval σ ↔ σ leaving = r.eval σ := by
  rw [eval_exchange σ h hne, eq_comm, add_eq_left, div_eq_zero_iff, sub_eq_zero]
  simp [h]

theorem eval_substitute (r : Row Rat) (y : Symbol) (definition : Row Rat) :
    (r.substitute y definition).eval σ =
      r.eval σ + r.coefficient y * (definition.eval σ - σ y) := by
  unfold substitute
  split
  · rename_i h
    simp [coefficient, h]
  · rename_i c h
    rw [eval_insertRow, eval_remove, coefficient_of_get? h]
    ring

/-- In the place of a symbol stands what it equals. -/
theorem eval_substitute_of_eq {y : Symbol} {definition : Row Rat} (h : σ y = definition.eval σ)
    (r : Row Rat) : (r.substitute y definition).eval σ = r.eval σ := by
  rw [eval_substitute, h]
  ring

/-! ## Rows as linear forms -/

theorem eval_zero (r : Row Rat) : r.eval 0 = r.constant := by
  simp [eval, slope]

theorem eval_congr {σ τ : Symbol → Rat} {r : Row Rat} (h : r.Within fun x => σ x = τ x) :
    r.eval σ = r.eval τ := by
  unfold eval slope
  congr 2
  apply List.map_congr_left
  intro e he
  rw [h e.1 ⟨e.2, (SortedMap.get?_eq_some_iff _).2 he⟩]

theorem slope_add (r : Row Rat) : r.slope (σ + τ) = r.slope σ + r.slope τ := by
  simp only [slope, ← List.sum_map_add, Pi.add_apply, mul_add]

theorem slope_smul (r : Row Rat) (k : Rat) : r.slope (k • σ) = k * r.slope σ := by
  simp only [slope, ← List.sum_map_mul_left, Pi.smul_apply, smul_eq_mul]
  congr 1
  apply List.map_congr_left
  intro e _
  ring

theorem eval_add (r : Row Rat) : r.eval (σ + τ) = r.eval σ + r.slope τ := by
  simp only [eval, slope_add]
  ring

theorem slope_single (r : Row Rat) (y : Symbol) (k : Rat) :
    r.slope (Pi.single y k) = r.coefficient y * k := by
  have h := eval_remove (Pi.single y k) r y
  have hz : (r.remove y).eval (Pi.single y k) = (r.remove y).eval 0 := by
    apply eval_congr
    intro x hx
    simp [(uses_remove.1 hx).1]
  rw [hz, eval_zero] at h
  simp only [eval, Pi.single_eq_same] at h
  simp only [remove] at h
  linarith

/-- One symbol changed changes a row by the symbol's coefficient. -/
theorem eval_update (r : Row Rat) (y : Symbol) (k : Rat) :
    r.eval (Function.update σ y k) = r.eval σ + r.coefficient y * (k - σ y) := by
  have h : Function.update σ y k = σ + Pi.single y (k - σ y) := by
    funext x
    by_cases hx : x = y
    · subst hx; simp
    · simp [hx]
  rw [h, eval_add, slope_single]

theorem eval_update_of_not_uses {r : Row Rat} {y : Symbol} (h : ¬ r.Uses y) (k : Rat) :
    r.eval (Function.update σ y k) = r.eval σ := by
  rw [eval_update, coefficient_of_not_uses h]
  ring

theorem slope_nonneg {σ : Symbol → Rat} {r : Row Rat}
    (h : r.Within fun x => 0 ≤ r.coefficient x * σ x) : 0 ≤ r.slope σ := by
  apply List.sum_nonneg
  intro k hk
  obtain ⟨e, he, rfl⟩ := List.mem_map.1 hk
  have hx := (SortedMap.get?_eq_some_iff _).2 he
  have h : 0 ≤ r.coefficient e.1 * σ e.1 := h e.1 ⟨e.2, hx⟩
  rwa [coefficient_of_get? hx] at h

/-! ## Coefficients -/

/-- The value of a row decides its coefficients. -/
theorem coefficient_eq (r : Row Rat) (y : Symbol) :
    r.coefficient y = r.eval (Pi.single y 1) - r.eval 0 := by
  rw [eval_zero, eval, slope_single]
  ring

/-- Rows without zeros that come to the same are the same. -/
theorem Clean.ext_eval {r r' : Row Rat} (h : r.Clean) (h' : r'.Clean)
    (he : ∀ σ, r.eval σ = r'.eval σ) : r = r' := by
  have hconst : r.constant = r'.constant := by rw [← eval_zero, he, eval_zero]
  have hcoef : ∀ x, r.coefficient x = r'.coefficient x := fun x => by
    rw [coefficient_eq, coefficient_eq, he, he]
  have hcells : r.cells = r'.cells := by
    apply SortedMap.ext_get?
    intro x
    have hx := hcoef x
    unfold coefficient at hx
    cases hr : r.cells.get? x <;> cases hr' : r'.cells.get? x <;>
      rw [hr, hr'] at hx <;> simp only [Option.getD_none, Option.getD_some] at hx
    · exact absurd hx.symm (h' x _ hr')
    · exact absurd hx (h x _ hr)
    · rw [hx]
  cases r
  cases r'
  simp only at hconst hcells
  rw [hconst, hcells]

theorem coefficient_insertSymbol (r : Row Rat) (x y : Symbol) (c : Rat) :
    (r.insertSymbol y c).coefficient x = r.coefficient x + if y = x then c else 0 := by
  simp only [coefficient_eq, eval_insertSymbol, Pi.single_apply, Pi.zero_apply]
  split <;> ring

theorem coefficient_negate (r : Row Rat) (x : Symbol) :
    r.negate.coefficient x = -r.coefficient x := by
  simp only [coefficient_eq, eval_negate]
  ring

theorem constant_substitute (r : Row Rat) (y : Symbol) (definition : Row Rat) :
    (r.substitute y definition).constant =
      r.constant + r.coefficient y * definition.constant := by
  rw [← eval_zero, eval_substitute, eval_zero, eval_zero, Pi.zero_apply]
  ring

theorem coefficient_substitute (r : Row Rat) (x y : Symbol) (definition : Row Rat) :
    (r.substitute y definition).coefficient x =
      (if x = y then 0 else r.coefficient x) + r.coefficient y * definition.coefficient x := by
  by_cases hxy : x = y
  · subst hxy
    simp only [coefficient_eq, eval_substitute, Pi.single_eq_same, Pi.zero_apply, if_true]
    ring
  · simp only [coefficient_eq, eval_substitute, Pi.single_apply, Ne.symm hxy, hxy, if_false,
      Pi.zero_apply]
    ring

theorem constant_solveFor {r : Row Rat} {x : Symbol} (h : r.coefficient x ≠ 0) :
    (r.solveFor x).constant = -r.constant / r.coefficient x := by
  rw [← eval_zero, eval_solveFor _ h, eval_zero, Pi.zero_apply]
  ring

theorem constant_exchange {r : Row Rat} {leaving entering : Symbol}
    (h : r.coefficient entering ≠ 0) (hne : entering ≠ leaving) :
    (r.exchange leaving entering).constant = -r.constant / r.coefficient entering := by
  rw [← eval_zero, eval_exchange _ h hne, eval_zero, Pi.zero_apply, Pi.zero_apply]
  ring

theorem coefficient_exchange {r : Row Rat} {leaving entering : Symbol}
    (h : r.coefficient entering ≠ 0) (hne : entering ≠ leaving) (x : Symbol) :
    (r.exchange leaving entering).coefficient x =
      ((if x = leaving then 1 else 0) - r.coefficient x) / r.coefficient entering +
        if x = entering then 1 else 0 := by
  rw [coefficient_eq, eval_exchange _ h hne, eval_exchange _ h hne, coefficient_eq r x]
  simp only [Pi.single_apply, Pi.zero_apply, eq_comm (a := x)]
  ring

end Row

end Solver

end RegionLayout
