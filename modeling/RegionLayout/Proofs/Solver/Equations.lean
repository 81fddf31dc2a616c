-- Constraints and their symbols. The symbols of a constraint make it an equation: a slack takes
-- up the room that an inequality leaves, and the errors of a constraint that may be violated
-- come to at least its violation.
import RegionLayout.Proofs.Tableau.Primal

namespace RegionLayout

open Solver

/-! ## Expressions -/

namespace Expression

variable {x y : Variable → Rat}

/-- The variable has a coefficient in the expression. -/
def Names (e : Expression Rat) (v : Variable) : Prop := ∃ k, (v, k) ∈ e.terms ∧ k ≠ 0

theorem foldl_terms (x : Variable → Rat) (ts : List (Variable × Rat)) (c : Rat) :
    ts.foldl (fun a t => a + t.2 * x t.1) c = c + (ts.map fun t => t.2 * x t.1).sum := by
  induction ts generalizing c with
  | nil => simp
  | cons t ts ih =>
    rw [List.foldl_cons, ih, List.map_cons, List.sum_cons]
    ring

theorem eval_eq (x : Variable → Rat) (e : Expression Rat) :
    e.eval x = e.constant + (e.terms.map fun t => t.2 * x t.1).sum := foldl_terms x _ _

/-- Only the variables with a coefficient matter. -/
theorem eval_congr {e : Expression Rat} (h : ∀ v, e.Names v → x v = y v) :
    e.eval x = e.eval y := by
  rw [eval_eq, eval_eq]
  congr 2
  apply List.map_congr_left
  rintro ⟨v, k⟩ ht
  by_cases hk : k = 0
  · simp [hk]
  · rw [h v ⟨k, ht, hk⟩]

theorem eval_ofTerm (x : Variable → Rat) (v : Variable) (k : Rat) :
    (ofTerm v k).eval x = k * x v := by
  simp [eval_eq, ofTerm]

end Expression

/-! ## Constraints -/

/-- The number compares with zero as the comparator says. -/
def Comparator.Holds (k : Comparator) (e : Rat) : Prop :=
  match k with
  | .equal => e = 0
  | .atMost => e ≤ 0
  | .atLeast => 0 ≤ e

/-- How far the number is from comparing with zero as the comparator says. -/
def Comparator.violation (k : Comparator) (e : Rat) : Rat :=
  match k with
  | .equal => |e|
  | .atMost => max 0 e
  | .atLeast => max 0 (-e)

instance (k : Comparator) (e : Rat) : Decidable (k.Holds e) :=
  match k with
  | .equal => inferInstanceAs (Decidable (e = 0))
  | .atMost => inferInstanceAs (Decidable (e ≤ 0))
  | .atLeast => inferInstanceAs (Decidable (0 ≤ e))

/-- What stands in the tableau with a minus sign has this one, else a plus sign. -/
def Constraint.sign (c : Constraint Rat) : Rat :=
  match c.comparator with
  | .atMost => 1
  | .atLeast => -1
  | .equal => if c.isRequired then 1 else -1

theorem Constraint.sign_cases (c : Constraint Rat) : c.sign = 1 ∨ c.sign = -1 := by
  unfold sign
  cases c.comparator
  · simp only
    split <;> simp
  · exact Or.inr rfl
  · exact Or.inl rfl

theorem Constraint.sign_mul_sign (c : Constraint Rat) : c.sign * c.sign = 1 := by
  rcases c.sign_cases with h | h <;> simp [h]

theorem Weight.clip_eq (w : Rat) : Weight.clip w = min (max w 0) Weight.required := by
  have hr : (0 : Rat) ≤ Weight.required := by decide
  unfold Weight.clip Scalar.clamp
  simp only
  rcases lt_or_ge w 0 with h | h
  · rw [if_pos h, if_neg (not_lt.2 hr), max_eq_right h.le, min_eq_left hr]
  · rw [if_neg (not_lt.2 h), max_eq_left h]
    split
    · rw [min_eq_right (le_of_lt ‹_›)]
    · rw [min_eq_left (not_lt.1 ‹_›)]

theorem Weight.clip_nonneg (w : Rat) : 0 ≤ Weight.clip w := by
  rw [Weight.clip_eq]
  exact le_min (le_max_right _ _) (by decide)

theorem Weight.clip_clip (w : Rat) : Weight.clip (Weight.clip w) = Weight.clip w := by
  rw [Weight.clip_eq (Weight.clip w), max_eq_left (Weight.clip_nonneg w), Weight.clip_eq]
  exact min_eq_left (min_le_right _ _)

/-- What a strength weighs is within bounds already. -/
theorem Strength.clip_weight (s : Strength) : Weight.clip (s.weight : Rat) = s.weight := by
  cases s <;> decide

theorem Strength.isRequired_clip_iff (s : Strength) :
    Weight.isRequired (Weight.clip (s.weight : Rat)) = true ↔ s = .required := by
  rw [Strength.clip_weight]
  cases s <;> decide

theorem Constraint.isRequired_make_iff (id : ConstraintId) (e : Expression Rat) (k : Comparator)
    (s : Strength) : (Constraint.make id e k s.weight).isRequired = true ↔ s = .required :=
  s.isRequired_clip_iff

theorem Constraint.isRequired_make_required (id : ConstraintId) (e : Expression Rat)
    (k : Comparator) : (Constraint.make id e k Weight.required).isRequired = true :=
  (Constraint.isRequired_make_iff id e k .required).2 rfl

theorem Constraint.isRequired_make_strong (id : ConstraintId) (e : Expression Rat)
    (k : Comparator) : (Constraint.make id e k Weight.strong).isRequired = false :=
  Bool.eq_false_iff.2 fun h => by cases (Constraint.isRequired_make_iff id e k .strong).1 h

theorem Constraint.make_weight_nonneg (id : ConstraintId) (e : Expression Rat) (k : Comparator)
    (w : Rat) : 0 ≤ (Constraint.make id e k w).weight := Weight.clip_nonneg w

/-! ## The symbols of a constraint -/

namespace Solver.Tag

variable {tag : Tag} {c : Constraint Rat} {σ τ : Symbol → Rat} {x : Symbol} {e : Rat}

def symbols (tag : Tag) : List Symbol := tag.marker :: tag.other.toList

def errors (tag : Tag) : List Symbol := tag.symbols.filter fun x => x.kind == .error

/-- What the symbols add to the expression to make it zero. -/
def gap (tag : Tag) (c : Constraint Rat) (σ : Symbol → Rat) : Rat :=
  c.sign * (σ tag.marker - tag.other.elim 0 σ)

/-- What the errors come to. -/
def strain (tag : Tag) (σ : Symbol → Rat) : Rat := (tag.errors.map σ).sum

/-- The symbols are of the kinds that the constraint asks for. -/
structure Fits (tag : Tag) (c : Constraint Rat) : Prop where
  marker : tag.marker.kind =
    if c.comparator = .equal then if c.isRequired then .dummy else .error else .slack
  required : c.isRequired = true → tag.other = none
  soft : c.isRequired = false → ∃ x, tag.other = some x ∧ x.kind = .error ∧ x ≠ tag.marker

theorem marker_mem (tag : Tag) : tag.marker ∈ tag.symbols := List.mem_cons_self

theorem Fits.not_external (h : tag.Fits c) (hx : x ∈ tag.symbols) : x.isExternal = false := by
  rcases List.mem_cons.1 hx with rfl | hx
  · have := h.marker
    unfold Symbol.isExternal
    split at this
    · split at this <;> simp [this]
    · simp [this]
  · cases hr : c.isRequired with
    | true => simp [h.required hr] at hx
    | false =>
      obtain ⟨y, hy, hk, -⟩ := h.soft hr
      obtain rfl : x = y := by simpa [hy] using hx
      simp [Symbol.isExternal, hk]

/-- Only the marker of a required equation is a dummy. -/
theorem Fits.dummy_iff (h : tag.Fits c) (hx : x ∈ tag.symbols) :
    x.isDummy = true ↔ c.isRequired = true ∧ c.comparator = .equal := by
  have hm := h.marker
  cases hr : c.isRequired with
  | true =>
    obtain rfl : x = tag.marker := by simpa [symbols, h.required hr] using hx
    by_cases he : c.comparator = .equal <;> simp [Symbol.isDummy, hm, he, hr]
  | false =>
    obtain ⟨y, hy, hk, -⟩ := h.soft hr
    rcases List.mem_cons.1 hx with rfl | hx
    · by_cases he : c.comparator = .equal <;> simp [Symbol.isDummy, hm, he, hr]
    · obtain rfl : x = y := by simpa [hy] using hx
      simp [Symbol.isDummy, hk]

theorem gap_congr (h : ∀ x ∈ tag.symbols, σ x = τ x) : tag.gap c σ = tag.gap c τ := by
  have ho : tag.other.elim 0 σ = tag.other.elim 0 τ := by
    cases hy : tag.other with
    | none => rfl
    | some y => exact h y (by simp [symbols, hy])
  rw [gap, gap, h _ tag.marker_mem, ho]

theorem strain_congr (h : ∀ x ∈ tag.symbols, σ x = τ x) : tag.strain σ = tag.strain τ := by
  unfold strain
  congr 1
  exact List.map_congr_left fun x hx => h x (List.mem_of_mem_filter hx)

/-- The marker moves the gap one for one. -/
theorem gap_update (h : tag.Fits c) (t : Rat) :
    tag.gap c (Function.update σ tag.marker t) = tag.gap c σ + c.sign * (t - σ tag.marker) := by
  have ho : tag.other.elim 0 (Function.update σ tag.marker t) = tag.other.elim 0 σ := by
    cases hr : c.isRequired with
    | true => simp [h.required hr]
    | false =>
      obtain ⟨y, hy, -, hne⟩ := h.soft hr
      simp [hy, hne]
  rw [gap, gap, ho, Function.update_self]
  ring

theorem strain_of_required (h : tag.Fits c) (hr : c.isRequired = true) : tag.strain σ = 0 := by
  have hm := h.marker
  have : tag.errors = [] := by
    by_cases he : c.comparator = .equal <;> simp [errors, symbols, h.required hr, hm, he, hr]
  simp [strain, this]

/-- The errors of a soft equation are both of its symbols; those of an inequality are the
second. -/
theorem strain_of_soft (h : tag.Fits c) (hr : c.isRequired = false) :
    tag.strain σ = (if c.comparator = .equal then σ tag.marker else 0) + tag.other.elim 0 σ := by
  obtain ⟨y, hy, hk, -⟩ := h.soft hr
  have hm := h.marker
  by_cases he : c.comparator = .equal <;>
    simp [strain, errors, symbols, hy, hk, hm, he, hr]

/-! ## What the symbols say of the constraint -/

/-- Where the gap of a required inequality is filled, it holds; for an equation the marker has
to be zero as well. -/
theorem Fits.holds_iff (h : tag.Fits c) (hr : c.isRequired = true) (hn : 0 ≤ σ tag.marker)
    (he : e + tag.gap c σ = 0) :
    c.comparator.Holds e ↔ (tag.marker.isDummy = true → σ tag.marker = 0) := by
  rw [h.dummy_iff tag.marker_mem]
  simp only [gap, Constraint.sign, h.required hr, hr, Option.elim_none, if_true] at he
  unfold Comparator.Holds
  cases hc : c.comparator <;> simp only [hc] at he ⊢
  · constructor
    · intro h0 _
      linarith
    · intro h0
      have := h0 ⟨hr, trivial⟩
      linarith
  · simp only [reduceCtorEq, and_false, false_implies, iff_true]
    linarith
  · simp only [reduceCtorEq, and_false, false_implies, iff_true]
    linarith

/-- The errors cost at least what the violation does. -/
theorem Fits.violation_le (h : tag.Fits c) (hr : c.isRequired = false) (hn : Nonneg σ)
    (he : e + tag.gap c σ = 0) : c.comparator.violation e ≤ tag.strain σ := by
  obtain ⟨y, hy, -, -⟩ := h.soft hr
  have hm0 := hn _ (h.not_external tag.marker_mem)
  have hy0 := hn y (h.not_external (by simp [symbols, hy]))
  rw [strain_of_soft h hr]
  simp only [gap, Constraint.sign, hr, hy, Option.elim_some] at he ⊢
  unfold Comparator.violation
  cases hc : c.comparator <;> simp only [hc, if_true, Bool.false_eq_true, if_false,
    reduceCtorEq] at he ⊢
  · rw [abs_le]
    constructor <;> linarith
  · rw [zero_add, max_le_iff]
    constructor <;> linarith
  · rw [zero_add, max_le_iff]
    constructor <;> linarith

/-- The least values that fill the gap of a constraint whose expression comes to `e`. -/
def settle (tag : Tag) (c : Constraint Rat) (e : Rat) (x : Symbol) : Rat :=
  if x = tag.marker then max 0 (-(c.sign * e)) else max 0 (c.sign * e)

theorem settle_nonneg (tag : Tag) (c : Constraint Rat) (e : Rat) (x : Symbol) :
    0 ≤ tag.settle c e x := by
  unfold settle
  split <;> exact le_max_left _ _

theorem max_sub_max (a : Rat) : max 0 (-a) - max 0 a = -a := by
  rcases le_total 0 a with h | h
  · rw [max_eq_left (by linarith), max_eq_right h]
    ring
  · rw [max_eq_right (by linarith), max_eq_left h]
    ring

theorem Fits.settle_dummy (h : tag.Fits c) (hx : x ∈ tag.symbols) (hd : x.isDummy = true)
    (hh : c.isRequired = true → c.comparator.Holds e) : tag.settle c e x = 0 := by
  obtain ⟨hr, hc⟩ := (h.dummy_iff hx).1 hd
  have he : e = 0 := by
    have := hh hr
    rwa [hc] at this
  simp [settle, he]

theorem Fits.gap_settle (h : tag.Fits c) (hh : c.isRequired = true → c.comparator.Holds e) :
    e + tag.gap c (tag.settle c e) = 0 := by
  cases hr : c.isRequired with
  | true =>
    have hh := hh hr
    simp only [gap, h.required hr, Option.elim_none, settle, if_true, sub_zero]
    unfold Comparator.Holds at hh
    unfold Constraint.sign
    cases hc : c.comparator <;> simp only [hc, hr, if_true, one_mul, neg_mul, neg_neg] at hh ⊢
    · simp [hh]
    · rw [max_eq_right hh]
      ring
    · rw [max_eq_right (by linarith)]
      ring
  | false =>
    obtain ⟨y, hy, -, hne⟩ := h.soft hr
    simp only [gap, hy, Option.elim_some, settle, if_true, hne, if_false, max_sub_max]
    have := c.sign_mul_sign
    linear_combination (-e) * this

/-- Errors that are no larger than they have to be cost what the violation does. -/
theorem Fits.strain_settle (h : tag.Fits c) (hr : c.isRequired = false) :
    tag.strain (tag.settle c e) = c.comparator.violation e := by
  obtain ⟨y, hy, -, hne⟩ := h.soft hr
  rw [strain_of_soft h hr]
  simp only [hy, Option.elim_some, settle, if_true, hne, if_false]
  unfold Comparator.violation Constraint.sign
  cases hc : c.comparator <;> simp only [hr, if_true, Bool.false_eq_true, if_false,
    reduceCtorEq, neg_mul, one_mul, neg_neg, zero_add]
  rcases le_total 0 e with h0 | h0
  · rw [max_eq_right h0, max_eq_left (by linarith), abs_of_nonneg h0, add_zero]
  · rw [max_eq_left h0, max_eq_right (by linarith), abs_of_nonpos h0, zero_add]

end Solver.Tag

end RegionLayout
