-- What an expression is worth. Its value is read off the tree, and the units count at the
-- literals; the linear form has the same value wherever it exists. It exists unless the tree
-- divides by zero: a statement that was read has nothing else in it that is not linear.
import RegionLayout.Proofs.Model.Layouts
import RegionLayout.Proofs.Statement.Reading

namespace RegionLayout

variable {density : Rat} {ρ : AttributeRef → Rat}

/-! ## Linear forms -/

namespace LinearExpr

@[simp] theorem eval_ofConstant (c : Rat) : (ofConstant c).eval ρ = c := by
  simp [eval, ofConstant]

@[simp] theorem eval_ofRef (r : AttributeRef) : (ofRef r : LinearExpr Rat).eval ρ = ρ r := by
  simp [eval, ofRef, SortedMap.insert, SortedMap.alter, SortedMap.alterIn]

/-- A form without terms is its constant. -/
theorem eval_of_isConstant {e : LinearExpr Rat} (h : e.isConstant = true) :
    e.eval ρ = e.constant := by
  have hnil : e.terms.entries = [] := List.isEmpty_iff.1 h
  simp [eval, hnil]

theorem sum_addTerm (ts : SortedMap AttributeRef Rat) (r : AttributeRef) (c : Rat) :
    ((addTerm ts r c).entries.map fun t => t.2 * ρ t.1).sum =
      (ts.entries.map fun t => t.2 * ρ t.1).sum + c * ρ r := by
  unfold addTerm
  rw [SortedMap.sum_alter (fun r c => c * ρ r)]
  have hold : (ts.get? r).elim 0 (fun c => c * ρ r) = (ts.get? r).getD 0 * ρ r := by
    cases ts.get? r <;> simp
  rw [hold]
  by_cases hc : Scalar.cancels ((ts.get? r).getD 0 + c)
  · have hz : (ts.get? r).getD 0 + c = 0 := by simpa [Scalar.cancels] using hc
    rw [if_pos hc, Option.elim_none]
    linear_combination (-(ρ r)) * hz
  · rw [if_neg hc, Option.elim_some]
    ring

theorem eval_add (a b : LinearExpr Rat) (sign : Rat) :
    (a.add b sign).eval ρ = a.eval ρ + b.eval ρ * sign := by
  have hsum : ∀ (l : List (AttributeRef × Rat)) (ts : SortedMap AttributeRef Rat),
      ((l.foldl (fun ts t => addTerm ts t.1 (t.2 * sign)) ts).entries.map
        fun t => t.2 * ρ t.1).sum =
      (ts.entries.map fun t => t.2 * ρ t.1).sum + (l.map fun t => t.2 * ρ t.1).sum * sign := by
    intro l
    induction l with
    | nil => simp
    | cons t l ih =>
      intro ts
      rw [List.foldl_cons, ih, sum_addTerm, List.map_cons, List.sum_cons]
      ring
  unfold eval add
  rw [hsum]
  ring

theorem eval_scale (e : LinearExpr Rat) (factor : Rat) :
    (e.scale factor).eval ρ = e.eval ρ * factor := by
  have hsum : ∀ l : List (AttributeRef × Rat),
      (((l.map fun t => (t.1, t.2 * factor)).filter fun t => Scalar.survives t.2).map
        fun t => t.2 * ρ t.1).sum = (l.map fun t => t.2 * ρ t.1).sum * factor := by
    intro l
    induction l with
    | nil => simp
    | cons t l ih =>
      rw [List.map_cons, List.filter_cons]
      by_cases hs : Scalar.survives (t.2 * factor)
      · rw [if_pos hs, List.map_cons, List.sum_cons, ih, List.map_cons, List.sum_cons]
        ring
      · have hz : t.2 * factor = 0 := by
          by_contra hz
          exact hs (by simpa [Scalar.survives] using hz)
        rw [if_neg hs, ih, List.map_cons, List.sum_cons]
        linear_combination (-(ρ t.1)) * hz
  unfold eval scale
  dsimp only [SortedMap.filter, SortedMap.mapValues]
  rw [hsum]
  ring

theorem isConstant_add {a b : LinearExpr Rat} (ha : a.isConstant = true)
    (hb : b.isConstant = true) (sign : Rat) : (a.add b sign).isConstant = true := by
  have hnil : b.terms.entries = [] := List.isEmpty_iff.1 hb
  unfold isConstant add
  rw [hnil]
  exact ha

theorem isConstant_scale {e : LinearExpr Rat} (h : e.isConstant = true) (factor : Rat) :
    (e.scale factor).isConstant = true := by
  have hnil : e.terms.entries = [] := List.isEmpty_iff.1 h
  simp [isConstant, SortedMap.isEmpty, scale, SortedMap.filter, SortedMap.mapValues, hnil]

end LinearExpr

/-! ## Values of expressions -/

/-- What an operator makes of two numbers. -/
def Operator.apply : Operator → Rat → Rat → Rat
  | add, x, y => x + y
  | sub, x, y => x - y
  | mul, x, y => x * y
  | div, x, y => x / y

namespace Expr

/-- The value of an expression where each attribute has a value. A literal in `dp` counts
`density` times; every other number is what it says. -/
def value (density : Rat) (ρ : AttributeRef → Rat) : Expr → Rat
  | literal v .dp => Scalar.ofDecimal v * density
  | literal v .px | literal v .bare => Scalar.ofDecimal v
  | ref r => ρ r
  | neg e => -e.value density ρ
  | binary op l r => op.apply (l.value density ρ) (r.value density ρ)

/-- What an expression divides by, anywhere in it. -/
def divisors : Expr → List Expr
  | literal .. | ref _ => []
  | neg e => e.divisors
  | binary .div l r => r :: (l.divisors ++ r.divisors)
  | binary _ l r => l.divisors ++ r.divisors

/-- The operands of an operation may divide by zero, whatever the operation is. -/
theorem mem_divisors_binary {op : Operator} {l r d : Expr}
    (h : d ∈ l.divisors ++ r.divisors) : d ∈ (binary op l r).divisors := by
  cases op with
  | div => exact List.mem_cons_of_mem _ h
  | add | sub | mul => exact h

theorem divisors_binary {op : Operator} (h : op ≠ .div) (l r : Expr) :
    (binary op l r).divisors = l.divisors ++ r.divisors := by
  cases op with
  | div => exact absurd rfl h
  | add | sub | mul => rfl

/-- What it comes to, to make an expression linear: a form with its value, or a division by
zero. -/
inductive Linearized (density : Rat) (e : Expr) : Except Unsupported (LinearExpr Rat) → Prop
  | linear (l : LinearExpr Rat) (hv : ∀ ρ, l.eval ρ = e.value density ρ)
      (hc : e.isConstant = true → l.isConstant = true)
      (hd : ∀ ρ, ∀ d ∈ e.divisors, d.value density ρ ≠ 0) : Linearized density e (.ok l)
  | zeroDivisor (h : ∃ d ∈ e.divisors, ∀ ρ, d.value density ρ = 0) :
      Linearized density e (.error .zeroDivisor)

theorem linearized_literal (v : Number.Decimal) (unit : LengthUnit) :
    Linearized density (literal v unit) ((literal v unit).linear density) := by
  refine .linear _ (fun ρ => ?_) (fun _ => rfl) (by simp [divisors])
  cases unit with
  | dp => simp [value, LengthUnit.scale]
  | px => simp [value, LengthUnit.scale]
  | bare => simp [value, LengthUnit.scale]

theorem linearized_neg {e : Expr} {l : LinearExpr Rat} (hv : ∀ ρ, l.eval ρ = e.value density ρ)
    (hc : e.isConstant = true → l.isConstant = true)
    (hd : ∀ ρ, ∀ d ∈ e.divisors, d.value density ρ ≠ 0) :
    Linearized density (neg e) (.ok (l.scale (-1))) := by
  refine .linear _ (fun ρ => ?_) (fun h => LinearExpr.isConstant_scale (hc h) _) hd
  rw [LinearExpr.eval_scale, hv, value]
  ring

section Binary

variable {l r : Expr} {a b : LinearExpr Rat} (hl : ∀ ρ, a.eval ρ = l.value density ρ)
  (hr : ∀ ρ, b.eval ρ = r.value density ρ) (hlc : l.isConstant = true → a.isConstant = true)
  (hrc : r.isConstant = true → b.isConstant = true)
  (hd : ∀ ρ, ∀ d ∈ l.divisors ++ r.divisors, d.value density ρ ≠ 0)

include hl hr hlc hrc hd

/-- A sum and a difference differ in how often the second operand counts. -/
theorem linearized_sum {op : Operator} {sign : Rat} (hop : ∀ x y, op.apply x y = x + y * sign)
    (hdiv : op ≠ .div) : Linearized density (binary op l r) (.ok (a.add b sign)) := by
  refine .linear _ (fun ρ => ?_) (fun h => ?_) (divisors_binary hdiv l r ▸ hd)
  · rw [LinearExpr.eval_add, hl, hr, value, hop]
  · rw [isConstant, Bool.and_eq_true] at h
    exact LinearExpr.isConstant_add (hlc h.1) (hrc h.2) _

/-- Of a product that was read, one side has no attributes, so its form is a constant. -/
theorem linearized_mul (hn : l.isConstant = true ∨ r.isConstant = true) :
    Linearized density (binary .mul l r)
      (if a.isConstant then .ok (b.scale a.constant)
        else if b.isConstant then .ok (a.scale b.constant)
        else .error .linearProduct) := by
  by_cases ha : a.isConstant = true
  · rw [if_pos ha]
    refine .linear _ (fun ρ => ?_) (fun h => ?_) hd
    · rw [LinearExpr.eval_scale, ← LinearExpr.eval_of_isConstant (ρ := ρ) ha, hl, hr, value,
        Operator.apply]
      ring
    · rw [isConstant, Bool.and_eq_true] at h
      exact LinearExpr.isConstant_scale (hrc h.2) _
  · have hb : b.isConstant = true := by
      rcases hn with h | h
      · exact absurd (hlc h) ha
      · exact hrc h
    rw [if_neg ha, if_pos hb]
    refine .linear _ (fun ρ => ?_) (fun h => ?_) hd
    · rw [LinearExpr.eval_scale, ← LinearExpr.eval_of_isConstant (ρ := ρ) hb, hl, hr, value,
        Operator.apply]
    · rw [isConstant, Bool.and_eq_true] at h
      exact absurd (hlc h.1) ha

/-- A divisor has no attributes, so it is zero under every assignment or under none. -/
theorem linearized_div (hn : r.isConstant = true) :
    Linearized density (binary .div l r)
      (if !b.isConstant then .error .linearDivisor
        else if b.constant == 0 then .error .zeroDivisor
        else .ok (a.scale (1 / b.constant))) := by
  have hb := hrc hn
  have hvalue : ∀ ρ, r.value density ρ = b.constant := by
    intro ρ
    rw [← hr, LinearExpr.eval_of_isConstant hb]
  rw [if_neg (by simp [hb])]
  by_cases h0 : b.constant = 0
  · rw [if_pos (by simpa using h0)]
    exact .zeroDivisor ⟨r, List.mem_cons_self, fun ρ => (hvalue ρ).trans h0⟩
  · rw [if_neg (by simpa using h0)]
    refine .linear _ (fun ρ => ?_) (fun h => ?_) fun ρ d hm => ?_
    · rw [LinearExpr.eval_scale, hl, value, Operator.apply, hvalue]
      ring
    · rw [isConstant, Bool.and_eq_true] at h
      exact LinearExpr.isConstant_scale (hlc h.1) _
    · rcases List.mem_cons.1 hm with rfl | hm
      · rw [hvalue]
        exact h0
      · exact hd ρ d hm

end Binary

/-- One case for each node: its operands come first, and the first of them to fail decides. -/
theorem linearized_linear (density : Rat) {e : Expr} (h : Statement.nonlinear? e = none) :
    Linearized density e (e.linear density) := by
  induction e with
  | literal v unit => exact linearized_literal v unit
  | ref r => exact .linear _ (fun ρ => by simp [value]) (by simp [isConstant]) (by simp [divisors])
  | neg e ih =>
    have he := ih h
    unfold linear
    generalize e.linear density = out at he
    cases he with
    | linear l hv hc hd => exact linearized_neg hv hc hd
    | zeroDivisor hz => exact .zeroDivisor hz
  | binary op l r ihl ihr =>
    simp only [Statement.nonlinear?, Option.or_eq_none_iff] at h
    obtain ⟨hnl, hnr, hop⟩ := h
    have hl := ihl hnl
    have hr := ihr hnr
    unfold linear
    generalize l.linear density = outl at hl
    generalize r.linear density = outr at hr
    cases hl with
    | zeroDivisor hz =>
      obtain ⟨d, hm, hz⟩ := hz
      exact .zeroDivisor ⟨d, mem_divisors_binary (List.mem_append_left _ hm), hz⟩
    | linear a hva hca hda =>
      cases hr with
      | zeroDivisor hz =>
        obtain ⟨d, hm, hz⟩ := hz
        exact .zeroDivisor ⟨d, mem_divisors_binary (List.mem_append_right _ hm), hz⟩
      | linear b hvb hcb hdb =>
        have hd : ∀ ρ, ∀ d ∈ l.divisors ++ r.divisors, d.value density ρ ≠ 0 := by
          intro ρ d hm
          rcases List.mem_append.1 hm with hm | hm
          · exact hda ρ d hm
          · exact hdb ρ d hm
        cases op with
        | add =>
          refine linearized_sum hva hvb hca hcb hd (fun x y => ?_) (by decide)
          simp [Operator.apply]
        | sub =>
          refine linearized_sum hva hvb hca hcb hd (fun x y => ?_) (by decide)
          simp [Operator.apply, sub_eq_add_neg]
        | mul =>
          refine linearized_mul hva hvb hca hcb hd ?_
          by_contra hno
          simp_all
        | div =>
          refine linearized_div hva hvb hca hcb hd ?_
          by_contra hno
          simp_all

end Expr

/-! ## Relations of statements -/

/-- Statements are read one by one. -/
theorem mapM_eq_ok_iff {ε α β : Type} {f : α → Except ε β} {xs : List α} {ys : List β} :
    xs.mapM f = .ok ys ↔ List.Forall₂ (fun x y => f x = .ok y) xs ys := by
  induction xs generalizing ys with
  | nil => simp [pure, Except.pure, eq_comm]
  | cons x xs ih =>
    simp only [List.forall₂_cons_left_iff, ← ih, List.mapM_cons]
    cases f x <;> cases xs.mapM f <;> simp [bind, Except.bind, pure, Except.pure, eq_comm]

/-- What was read has only linear operations in it. -/
theorem Statement.nonlinear?_of_parse {text : String} {s : Statement}
    (h : Statement.parse text = .ok s) : Statement.nonlinear? s.expr = none := by
  have hsupported := (Statement.read_of_parse h).2
  unfold unsupported? at hsupported
  split at hsupported
  · simp at hsupported
  · exact hsupported

/-- A statement that was read has a relation at a density unless it divides by zero there, and
nothing else is ever wrong with it. The right side of the relation has the value of the
expression, whatever the attributes are. -/
theorem relation_keeps_value {text : String} {s : Statement} (h : Statement.parse text = .ok s)
    (density : Rat) (ρ : AttributeRef → Rat) :
    ((∃ e, s.relation density = .error e) ↔
      ∃ d ∈ s.expr.divisors, d.value density ρ = 0) ∧
    (∀ r, s.relation density = .ok r → r.rhs.eval ρ = s.expr.value density ρ) ∧
    ∀ e, s.relation density = .error e → e = .unsupported s.text .zeroDivisor := by
  have hlin := Expr.linearized_linear density (Statement.nonlinear?_of_parse h)
  unfold Statement.relation
  generalize s.expr.linear density = out at hlin
  cases hlin with
  | linear l hv hc hd =>
    refine ⟨⟨by simp, ?_⟩, ?_, by simp⟩
    · rintro ⟨d, hm, hz⟩
      exact absurd hz (hd ρ d hm)
    · intro r hr
      obtain rfl := Except.ok.inj hr
      exact hv ρ
  | zeroDivisor hz =>
    obtain ⟨d, hm, hz⟩ := hz
    exact ⟨⟨fun _ => ⟨d, hm, hz ρ⟩, fun _ => ⟨_, rfl⟩⟩, by simp,
      fun e he => (Except.error.inj he).symm⟩

/-- Half of a width and a gap, in two units and at density three. -/
theorem relation_keeps_value_of_gap : ∃ s,
    Statement.parse "a.x == (b.width + 6dp) / (4px - 2)" = .ok s ∧
      ∃ r, s.relation (3 : Rat) = .ok r ∧
        ∀ ρ, r.rhs.eval ρ = (ρ ⟨"b", .width⟩ + 18) / 2 := by
  have h : Statement.parse "a.x == (b.width + 6dp) / (4px - 2)" = .ok
      { text := "a.x == (b.width + 6dp) / (4px - 2)", target := ⟨"a", .left⟩,
        comparator := .equal, strength := .required,
        expr := .binary .div (.binary .add (.ref ⟨"b", .width⟩) (.literal ⟨6, 0⟩ .dp))
          (.binary .sub (.literal ⟨4, 0⟩ .px) (.literal ⟨2, 0⟩ .bare)) } := by decide +kernel
  refine ⟨_, h, ?_⟩
  have hspec := relation_keeps_value h 3
  generalize Statement.relation _ (3 : Rat) = out at hspec
  cases out with
  | error e =>
    obtain ⟨d, hm, hz⟩ := (hspec fun _ => 0).1.1 ⟨e, rfl⟩
    obtain rfl : d = .binary .sub (.literal ⟨4, 0⟩ .px) (.literal ⟨2, 0⟩ .bare) := by
      simpa [Expr.divisors] using hm
    norm_num [Expr.value, Operator.apply, Scalar.ofDecimal] at hz
  | ok r =>
    refine ⟨r, rfl, fun ρ => ?_⟩
    rw [(hspec ρ).2.1 r rfl]
    norm_num [Expr.value, Operator.apply, Scalar.ofDecimal]

end RegionLayout
