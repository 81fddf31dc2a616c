-- What the reader makes of a text whose shape is known. The shapes are those that a relation is
-- written in: factors, products of two factors and sums of products, each part followed by the
-- end of the text or by a blank. The reader takes a part as far as it goes and gives its tree
-- and what follows it. In the other direction, every region that a statement names has a name
-- that the reader would take whole.
import RegionLayout.Proofs.Number.Writing
import RegionLayout.Statement.Parser

namespace RegionLayout.Statement

open Number

variable {α β : Type} {s s' rest : List Char} {p : Char → Bool} {e e' : Expr}

/-! ## Where a word ends -/

/-- What follows starts with no character that passes `p`. -/
def Stops (p : Char → Bool) (rest : List Char) : Prop := ∀ c ∈ rest.head?, p c = false

/-- The text is over, or a blank follows. -/
inductive Ended : List Char → Prop
  | nil : Ended []
  | blank (rest : List Char) : Ended (' ' :: rest)

theorem Ended.stops (h : Ended rest) (hp : p ' ' = false) : Stops p rest := by
  cases h with
  | nil => simp [Stops]
  | blank => simpa [Stops] using hp

theorem Stops.cons {c : Char} (hc : p c = false) : Stops p (c :: rest) := by simpa [Stops] using hc

theorem takeWhile_append (hs : ∀ c ∈ s, p c = true) (h : Stops p rest) :
    (s ++ rest).takeWhile p = s := by
  rw [List.takeWhile_append_of_pos hs]
  cases rest with
  | nil => simp
  | cons c r => rw [List.takeWhile_cons_of_neg (by simp [h c rfl]), List.append_nil]

theorem dropWhile_append (hs : ∀ c ∈ s, p c = true) (h : Stops p rest) :
    (s ++ rest).dropWhile p = rest := by
  rw [List.dropWhile_append_of_pos hs]
  cases rest with
  | nil => rfl
  | cons c r => exact List.dropWhile_cons_of_neg (by simp [h c rfl])

theorem skipBlanks_cons {c : Char} (hc : isBlank c = false) : skipBlanks (c :: rest) = c :: rest :=
  List.dropWhile_cons_of_neg (by simp [hc])

@[simp] theorem skipBlanks_blank : skipBlanks (' ' :: rest) = skipBlanks rest := rfl

@[simp] theorem skipBlanks_skipBlanks (s : List Char) : skipBlanks (skipBlanks s) = skipBlanks s :=
  List.dropWhile_idempotent isBlank s

/-! ## Readers one after another -/

theorem bind_of_ok {r : Reader α} {f : α → Reader β} {a : α} (h : r s = .ok (a, rest)) :
    (r >>= f) s = f a rest := by
  simp [bind, StateT.bind, Except.bind, h]

theorem within_of_ok {x : Expectation} {r : Reader α} {a : α} (h : r s = .ok (a, rest)) :
    within x r s = .ok (a, rest) := by
  simp [within, h]

/-! ## Names -/

/-- What the reader takes as a name. -/
def IsName (n : String) : Prop :=
  ∃ c cs, n.toList = c :: cs ∧ isNameStart c = true ∧ ∀ d ∈ cs, isNameChar d = true

theorem name?_append {n : String} (h : IsName n) (hr : Stops isNameChar rest) :
    name? (n.toList ++ rest) = some (n, rest) := by
  obtain ⟨c, cs, hn, hc, hcs⟩ := h
  rw [hn, List.cons_append, name?, if_pos hc, takeWhile_append hcs hr, dropWhile_append hcs hr,
    ← hn, String.ofList_toList]

theorem isName_of_name? {n : String} (h : name? s = some (n, rest)) : IsName n := by
  unfold name? at h
  split at h
  · simp at h
  · rename_i c r
    split at h
    · rename_i hc
      simp only [Option.some.injEq, Prod.mk.injEq] at h
      refine ⟨c, r.takeWhile isNameChar, ?_, hc, fun d hd => List.mem_takeWhile_imp hd⟩
      rw [← h.1, String.toList_ofList]
    · simp at h

theorem isName_attribute (a : Attribute) : IsName a.name := by
  have h : name? a.name.toList = some (a.name, []) := by cases a <;> rfl
  exact isName_of_name? h

theorem nameOf_append {f : String → Option α} {n : String} {a : α} (h : IsName n)
    (hf : f n = some a) (hr : Stops isNameChar rest) :
    nameOf f (n.toList ++ rest) = .ok (a, rest) := by
  simp [nameOf, name?_append h hr, hf]

theorem term_append {r : AttributeRef} (h : IsName r.region) (hr : Stops isNameChar rest) :
    term (r.text.toList ++ rest) = .ok (r, rest) := by
  have htext : r.text.toList ++ rest = r.region.toList ++ '.' :: (r.attr.name.toList ++ rest) := by
    simp [AttributeRef.text]
  have hname : name (r.region.toList ++ '.' :: (r.attr.name.toList ++ rest)) =
      .ok (r.region, '.' :: (r.attr.name.toList ++ rest)) := by
    have hpoint : Stops isNameChar ('.' :: (r.attr.name.toList ++ rest)) := Stops.cons (by decide)
    simp [name, name?_append h hpoint]
  have hattr := nameOf_append (isName_attribute r.attr) (Attribute.ofName?_name r.attr) hr
  unfold term
  rw [htext, bind_of_ok hname]
  rw [bind_of_ok (show char '.' ('.' :: (r.attr.name.toList ++ rest)) = _ from rfl)]
  rw [bind_of_ok (within_of_ok hattr)]
  rfl

/-! ## Numbers -/

theorem numeral_mem {v : Decimal} (h : Numeral s v) : ∀ c ∈ s, c.isDigit = true ∨ c = '.' := by
  intro c hc
  cases h with
  | whole _ hds => exact .inl (hds c hc)
  | point _ hds _ hfs =>
    rcases List.mem_append.1 hc with hc | hc
    · exact .inl (hds c hc)
    · exact (List.mem_cons.1 hc).elim .inr fun hc => .inl (hfs c hc)

theorem numeral_push {v : Decimal} {c : Char} (h : Numeral s v) (hc : c.isDigit = true) :
    ∃ v', Numeral (s ++ [c]) v' := by
  have hmore {ds : List Char} (hds : ∀ d ∈ ds, d.isDigit = true) :
      ∀ d ∈ ds ++ [c], d.isDigit = true := by
    simpa [or_imp, forall_and] using ⟨hds, hc⟩
  cases h with
  | whole _ hds => exact ⟨_, .whole (by simp) (hmore hds)⟩
  | @point ds fs hne hds _ hfs =>
    refine ⟨Decimal.ofParts ds (fs ++ [c]), ?_⟩
    rw [List.append_assoc, List.cons_append]
    exact .point hne hds (by simp) (hmore hfs)

/-- A numeral is taken whole where no longer one is written. -/
theorem number?_longest {v : Decimal} (h : Numeral s v)
    (hl : ∀ u v', Numeral (s ++ u) v' → u <+: rest → u = []) :
    number? (s ++ rest) = some (v, rest) := by
  have hd : Stops Char.isDigit rest := by
    intro c hc
    obtain ⟨r, rfl⟩ : ∃ r, rest = c :: r := List.head?_eq_some_iff.1 hc
    by_contra hdigit
    obtain ⟨v', hmore⟩ := numeral_push h (by simpa using hdigit)
    exact List.cons_ne_nil c [] (hl [c] v' hmore ⟨r, rfl⟩)
  cases h with
  | whole hne hds =>
    unfold number?
    rw [takeWhile_append hds hd, dropWhile_append hds hd]
    dsimp only
    rw [if_neg (by simpa using hne)]
    split
    · rename_i r
      have hr : r.takeWhile Char.isDigit = [] := by
        cases r with
        | nil => rfl
        | cons d r =>
          refine List.takeWhile_cons_of_neg fun hdigit => ?_
          have hmore : Numeral (s ++ ['.', d]) (Decimal.ofParts s [d]) :=
            .point hne hds (by simp) (by simpa using hdigit)
          exact List.cons_ne_nil '.' [d] (hl ['.', d] _ hmore ⟨r, rfl⟩)
      simp [hr]
    · rfl
  | @point ds fs hne hds hne' hfs =>
    have hpoint : Stops Char.isDigit ('.' :: (fs ++ rest)) := Stops.cons (by decide)
    unfold number?
    rw [List.append_assoc, List.cons_append, takeWhile_append hds hpoint,
      dropWhile_append hds hpoint]
    dsimp only
    rw [if_neg (by simpa using hne)]
    simp [takeWhile_append hfs hd, dropWhile_append hfs hd, hne']

theorem number?_append {v : Decimal} (h : Numeral s v) (hd : Stops Char.isDigit rest)
    (hp : Stops (· == '.') rest) : number? (s ++ rest) = some (v, rest) := by
  refine number?_longest h fun u v' hu hpre => ?_
  cases u with
  | nil => rfl
  | cons c u =>
    obtain ⟨r, rfl⟩ := hpre
    rcases numeral_mem hu c (by simp) with hc | rfl
    · exact absurd hc (by simp [hd c rfl])
    · exact absurd (hp '.' rfl) (by decide)

/-- A numeral starts with a digit. -/
theorem numeral_cons {v : Decimal} (h : Numeral s v) : ∃ c cs, s = c :: cs ∧ c.isDigit = true := by
  cases h with
  | @whole ds hne hds =>
    obtain ⟨c, cs, rfl⟩ := List.exists_cons_of_ne_nil hne
    exact ⟨c, cs, rfl, hds c List.mem_cons_self⟩
  | @point ds fs hne hds =>
    obtain ⟨c, cs, rfl⟩ := List.exists_cons_of_ne_nil hne
    exact ⟨c, cs ++ '.' :: fs, rfl, hds c List.mem_cons_self⟩

/-! ## Factors -/

/-- A reference or a number with its unit, after any number of minus signs, and its tree. -/
inductive Factor : List Char → Expr → Prop
  | ref {r : AttributeRef} (h : IsName r.region) : Factor r.text.toList (.ref r)
  | number {ds : List Char} {v : Decimal} (h : Numeral ds v) (unit : LengthUnit) :
      Factor (ds ++ unit.name.toList) (.literal v unit)
  | minus {s : List Char} {e : Expr} (h : Factor s e) : Factor ('-' :: s) (.neg e)

/-- Whether a number or a name starts with it. -/
def opens (c : Char) : Bool := c.isDigit || isNameStart c

theorem ne_of_opens {c d : Char} (hc : opens c = true) (hd : opens d = false) : c ≠ d := by
  rintro rfl
  simp [hd] at hc

theorem isBlank_of_opens {c : Char} (hc : opens c = true) : isBlank c = false := by
  simp [isBlank, ne_of_opens hc (show opens ' ' = false by decide),
    ne_of_opens hc (show opens '\t' = false by decide),
    ne_of_opens hc (show opens '\r' = false by decide),
    ne_of_opens hc (show opens '\n' = false by decide)]

/-- What starts like an operand is read as one. -/
theorem unary_of_opens {inner : Reader Expr} {c : Char} (hc : opens c = true) :
    unary inner (c :: s) = operand (c :: s) := by
  have hblank := isBlank_of_opens hc
  unfold unary primary
  rw [if_neg (by simp [hblank]), if_neg (ne_of_opens hc (by decide)), skipBlanks_cons hblank]
  split
  · rename_i h
    exact absurd (List.cons.inj h).1 (ne_of_opens hc (by decide))
  · rfl

theorem unitOf_append (unit : LengthUnit) (h : Ended rest) :
    unitOf (unit.name.toList ++ rest) = (unit, rest) := by
  cases unit <;> cases h <;> rfl

/-- A unit is no part of the number before it. -/
theorem stops_unit (unit : LengthUnit) (h : Ended rest) (hd : p 'd' = false) (hp : p 'p' = false)
    (hs : p ' ' = false) : Stops p (unit.name.toList ++ rest) := by
  cases unit with
  | dp => exact Stops.cons hd
  | px => exact Stops.cons hp
  | bare => exact h.stops hs

theorem operand_numeral {v : Decimal} (h : Numeral s v) (unit : LengthUnit) (hr : Ended rest) :
    operand (s ++ (unit.name.toList ++ rest)) = .ok (.literal v unit, rest) := by
  have hnumber := number?_append h (stops_unit unit hr (by decide) (by decide) (by decide))
    (stops_unit unit hr (by decide) (by decide) (by decide))
  exact within_of_ok (by simp [hnumber, unitOf_append unit hr])

theorem unary_numeral {inner : Reader Expr} {v : Decimal} (h : Numeral s v) (unit : LengthUnit)
    (hr : Ended rest) :
    unary inner (s ++ unit.name.toList ++ rest) = .ok (.literal v unit, rest) := by
  have hread := operand_numeral h unit hr
  obtain ⟨c, cs, rfl, hc⟩ := numeral_cons h
  rwa [List.append_assoc, List.cons_append, unary_of_opens (by simp [opens, hc])]

theorem isDigit_of_isNameStart {c : Char} (hc : isNameStart c = true) : c.isDigit = false := by
  simp only [isNameStart, Bool.or_eq_true, beq_iff_eq] at hc
  rcases hc with hc | rfl
  · grind [Char.isDigit, Char.isAlpha, Char.isUpper, Char.isLower]
  · rfl

/-- No number starts like a name. -/
theorem number?_of_isNameStart {c : Char} (hc : isNameStart c = true) :
    number? (c :: s) = none := by
  simp [number?, isDigit_of_isNameStart hc]

theorem operand_of_term {r : AttributeRef} {c : Char} (hc : isNameStart c = true)
    (h : term (c :: s) = .ok (r, rest)) : operand (c :: s) = .ok (.ref r, rest) := by
  apply within_of_ok
  simp only [number?_of_isNameStart hc]
  simp [Functor.map, StateT.map, h, bind, Except.bind, pure, Except.pure]

/-- A reference starts with a letter or an underscore. -/
theorem ref_cons {r : AttributeRef} (h : IsName r.region) :
    ∃ c cs, r.text.toList = c :: cs ∧ isNameStart c = true := by
  obtain ⟨c, cs, hn, hc, -⟩ := h
  exact ⟨c, cs ++ '.' :: r.attr.name.toList, by simp [AttributeRef.text, hn], hc⟩

theorem unary_ref {inner : Reader Expr} {r : AttributeRef} (h : IsName r.region)
    (hr : Stops isNameChar rest) : unary inner (r.text.toList ++ rest) = .ok (.ref r, rest) := by
  have hterm := term_append h hr
  obtain ⟨c, cs, htext, hc⟩ := ref_cons h
  rw [htext, List.cons_append] at hterm ⊢
  rw [unary_of_opens (by simp [opens, hc])]
  exact operand_of_term hc hterm

theorem unary_factor {inner : Reader Expr} (h : Factor s e) (hr : Ended rest) :
    unary inner (s ++ rest) = .ok (e, rest) := by
  induction h with
  | ref h => exact unary_ref h (hr.stops (by decide))
  | number h unit => exact unary_numeral h unit hr
  | @minus s e h ih =>
    change unary inner ('-' :: (s ++ rest)) = _
    unfold unary
    rw [if_neg (by decide), if_pos rfl, ih]
    rfl

/-! ## Products -/

/-- A factor or two, and the tree. -/
inductive Product : List Char → Expr → Prop
  | factor {s : List Char} {e : Expr} (h : Factor s e) : Product s e
  | times {s s' : List Char} {e e' : Expr} (h : Factor s e) (h' : Factor s' e') :
      Product (s ++ ' ' :: '*' :: ' ' :: s') (.binary .mul e e')

theorem chain_of_ok {op? : List Char → Option (Operator × List Char)} {next : Reader Expr}
    (h : next s = .ok (e, rest)) :
    chain op? next s = chainTail op? next (rest.length + 1) e rest := by
  simp [chain, h]

theorem chainTail_of_none {op? : List Char → Option (Operator × List Char)} {next : Reader Expr}
    {turns : ℕ} (h : op? (skipBlanks s) = none) :
    chainTail op? next (turns + 1) e s = .ok (e, skipBlanks s) := by
  simp [chainTail, h]

theorem chainTail_of_some {op? : List Char → Option (Operator × List Char)} {next : Reader Expr}
    {turns : ℕ} {op : Operator} (h : op? (skipBlanks s) = some (op, s'))
    (hn : next s' = .ok (e', rest)) :
    chainTail op? next (turns + 1) e s = chainTail op? next turns (.binary op e e') rest := by
  simp [chainTail, h, hn]

theorem product_append {inner : Reader Expr} (h : Product s e) (hr : Ended rest)
    (hm : multiplicative? (skipBlanks rest) = none) :
    chain multiplicative? (unary inner) (s ++ rest) = .ok (e, skipBlanks rest) := by
  cases h with
  | factor h => rw [chain_of_ok (unary_factor h hr), chainTail_of_none hm]
  | @times s s' e e' h h' =>
    have htimes : multiplicative? (skipBlanks (' ' :: '*' :: ' ' :: (s' ++ rest))) =
        some (.mul, ' ' :: (s' ++ rest)) := rfl
    have hnext : unary inner (' ' :: (s' ++ rest)) = .ok (e', rest) := unary_factor h' hr
    rw [List.append_assoc, List.cons_append, List.cons_append, List.cons_append,
      chain_of_ok (unary_factor h (.blank _)), chainTail_of_some htimes hnext]
    exact chainTail_of_none hm

/-! ## Sums -/

/-- Products joined by plus signs, and the tree, grouped from the left. -/
inductive Sum : List Char → Expr → Prop
  | product {s : List Char} {e : Expr} (h : Product s e) : Sum s e
  | plus {s s' : List Char} {e e' : Expr} (h : Sum s e) (h' : Product s' e') :
      Sum (s ++ ' ' :: '+' :: ' ' :: s') (.binary .add e e')

/-- The reader comes to the end of a sum with turns left for what follows. -/
theorem chain_sum (inner : Reader Expr) (h : Sum s e) (hr : Ended rest)
    (hm : multiplicative? (skipBlanks rest) = none) :
    ∃ turns, (skipBlanks rest).length < turns ∧
      chain additive? (chain multiplicative? (unary inner)) (s ++ rest) =
        chainTail additive? (chain multiplicative? (unary inner)) turns e (skipBlanks rest) := by
  induction h generalizing rest with
  | product h => exact ⟨_, Nat.lt_succ_self _, chain_of_ok (product_append h hr hm)⟩
  | @plus s s' e e' h h' ih =>
    obtain ⟨turns, hlt, heq⟩ := ih (.blank ('+' :: ' ' :: (s' ++ rest))) rfl
    have hnext : chain multiplicative? (unary inner) (' ' :: (s' ++ rest)) =
        .ok (e', skipBlanks rest) := product_append h' hr hm
    cases turns with
    | zero => exact absurd hlt (Nat.not_lt_zero _)
    | succ turns =>
      refine ⟨turns, ?_, ?_⟩
      · -- the plus sign that this turn takes off pays for the turn
        have hskip : (skipBlanks rest).length ≤ rest.length := List.length_dropWhile_le ..
        rw [skipBlanks_blank, skipBlanks_cons (by decide)] at hlt
        simp only [List.length_cons, List.length_append] at hlt
        omega
      · rw [List.append_assoc, List.cons_append, List.cons_append, List.cons_append, heq]
        exact chainTail_of_some rfl hnext

theorem sum_append {depth : ℕ} (h : Sum s e) (hr : Ended rest)
    (hm : multiplicative? (skipBlanks rest) = none) (ha : additive? (skipBlanks rest) = none) :
    sum (depth + 1) (s ++ rest) = .ok (e, skipBlanks rest) := by
  obtain ⟨turns, hlt, heq⟩ := chain_sum (sum depth) h hr hm
  cases turns with
  | zero => exact absurd hlt (Nat.not_lt_zero _)
  | succ turns =>
    change chain additive? _ (s ++ rest) = _
    rw [heq, chainTail_of_none (by rwa [skipBlanks_skipBlanks]), skipBlanks_skipBlanks]

/-! ## Statements -/

/-- How a strength is written after the expression. -/
def mark : Strength → String
  | .required => ""
  | w => " !" ++ w.name

theorem ended_mark (w : Strength) : Ended (mark w).toList := by
  cases w with
  | required => exact .nil
  | strong | medium | weak => exact .blank _

theorem strengthMark_mark (w : Strength) :
    strengthMark (skipBlanks (mark w).toList) = .ok (w, []) := by
  cases w <;> rfl

theorem comparison_append (c : Comparator) :
    comparison (c.symbol.toList ++ rest) = .ok (c, rest) := by
  cases c <;> rfl

theorem blanks_eq (s : List Char) : blanks s = .ok ((), skipBlanks s) := rfl

theorem skipBlanks_ref {r : AttributeRef} (h : IsName r.region) :
    skipBlanks (r.text.toList ++ rest) = r.text.toList ++ rest := by
  obtain ⟨c, cs, htext, hc⟩ := ref_cons h
  rw [htext, List.cons_append]
  exact skipBlanks_cons (isBlank_of_opens (by simp [opens, hc]))

theorem skipBlanks_symbol (c : Comparator) :
    skipBlanks (c.symbol.toList ++ rest) = c.symbol.toList ++ rest := by
  cases c <;> rfl

/-- The parts of a statement, one blank apart. -/
def layOut (target : AttributeRef) (c : Comparator) (s : List Char) (w : Strength) : List Char :=
  target.text.toList ++ ' ' :: (c.symbol.toList ++ ' ' :: (s ++ (mark w).toList))

theorem body_layOut {target : AttributeRef} (hn : IsName target.region) (c : Comparator)
    (h : Sum s e) (w : Strength) (depth : ℕ) :
    body (depth + 1) (layOut target c s w) = .ok ((target, c, e, w), []) := by
  have hterm (r : List Char) : term (target.text.toList ++ ' ' :: r) = .ok (target, ' ' :: r) :=
    term_append hn (Ended.stops (.blank r) (by decide))
  have hsum : sum (depth + 1) (' ' :: (s ++ (mark w).toList)) =
      .ok (e, skipBlanks (mark w).toList) := by
    apply sum_append h (ended_mark w)
    · cases w <;> rfl
    · cases w <;> rfl
  unfold body layOut
  rw [bind_of_ok (blanks_eq _), skipBlanks_ref hn, bind_of_ok (within_of_ok (hterm _))]
  rw [bind_of_ok (blanks_eq _), skipBlanks_blank, skipBlanks_symbol]
  rw [bind_of_ok (comparison_append c), bind_of_ok hsum, bind_of_ok (blanks_eq _),
    skipBlanks_skipBlanks, bind_of_ok (strengthMark_mark w)]
  rfl

/-- A written statement is read as what was written. -/
theorem parse_written {text : String} {target : AttributeRef} {c : Comparator} {w : Strength}
    (hn : IsName target.region) (hi : target.attr.isIntrinsic = false) (h : Sum s e)
    (hl : nonlinear? e = none) (ht : text.toList = layOut target c s w) :
    parse text = .ok { text, target, comparator := c, expr := e, strength := w } := by
  have hread : read text = .ok { text, target, comparator := c, expr := e, strength := w } := by
    unfold read
    rw [ht]
    simp only [body_layOut hn c h w]
  have hsupported :
      unsupported? { text, target, comparator := c, expr := e, strength := w } = none := by
    simp [unsupported?, hi, hl]
  unfold parse
  simp [hread, bind, Except.bind, hsupported, pure, Except.pure]

/-- What is accepted was read, and it asks for nothing that is not linear. -/
theorem read_of_parse {text : String} {t : Statement} (h : parse text = .ok t) :
    read text = .ok t ∧ unsupported? t = none := by
  unfold parse at h
  cases hr : read text with
  | error stop => simp [hr, bind, Except.bind] at h
  | ok t' =>
    simp only [hr, bind, Except.bind] at h
    split at h
    · simp [throw, throwThe, MonadExceptOf.throw] at h
    · rename_i hu
      obtain rfl := Except.ok.inj h
      exact ⟨rfl, hu⟩

/-! ## Names in what was read -/

/-- Whatever the reader gives, it has the property. -/
def Gives (r : Reader α) (P : α → Prop) : Prop := ∀ s v rest, r s = .ok (v, rest) → P v

theorem Gives.bind {r : Reader α} {f : α → Reader β} {P : α → Prop} {Q : β → Prop}
    (h : Gives r P) (hf : ∀ a, P a → Gives (f a) Q) : Gives (r >>= f) Q := by
  intro s v rest hv
  cases hr : r s with
  | error stop => simp [Bind.bind, StateT.bind, Except.bind, hr] at hv
  | ok x =>
    rw [bind_of_ok hr] at hv
    exact hf _ (h _ _ _ hr) _ _ _ hv

theorem Gives.any (r : Reader α) : Gives r fun _ => True := fun _ _ _ _ => trivial

theorem Gives.pure {a : α} {P : α → Prop} (h : P a) : Gives (Pure.pure a) P := by
  intro s v rest hv
  obtain ⟨rfl, -⟩ := Prod.mk.inj (Except.ok.inj hv)
  exact h

theorem Gives.within {x : Expectation} {r : Reader α} {P : α → Prop} (h : Gives r P) :
    Gives (within x r) P := by
  intro s v rest hv
  cases hr : r s with
  | error stop => simp [Statement.within, hr] at hv
  | ok y => exact h s v rest (by simpa [Statement.within, hr] using hv)

theorem gives_name : Gives name IsName := by
  intro s n rest h
  unfold name at h
  split at h
  · rename_i hn
    obtain ⟨rfl, -⟩ := Prod.mk.inj (Except.ok.inj h)
    exact isName_of_name? hn
  · simp at h

theorem gives_term : Gives term fun r => IsName r.region := by
  unfold term
  refine gives_name.bind fun n hn => ?_
  refine (Gives.any _).bind fun _ _ => ?_
  refine (Gives.any _).bind fun a _ => ?_
  exact Gives.pure hn

/-- Every region in the expression has a name that the reader takes whole. -/
def Named (e : Expr) : Prop := ∀ r ∈ e.refs, IsName r.region

theorem named_binary {op : Operator} (h : Named e) (h' : Named e') : Named (.binary op e e') := by
  intro r hr
  exact (List.mem_append.1 hr).elim (h r) (h' r)

theorem gives_operand : Gives operand Named := by
  apply Gives.within
  intro s e rest h
  dsimp only at h
  split at h
  · obtain ⟨rfl, -⟩ := Prod.mk.inj (Except.ok.inj h)
    simp [Named, Expr.refs]
  · cases ht : term s with
    | error stop => simp [Functor.map, StateT.map, bind, Except.bind, ht] at h
    | ok x =>
      obtain ⟨r, rest'⟩ := x
      simp only [Functor.map, StateT.map, bind, Except.bind, ht, pure, Except.pure] at h
      obtain ⟨rfl, -⟩ := Prod.mk.inj (Except.ok.inj h)
      simpa [Named, Expr.refs] using gives_term _ _ _ ht

section Named

variable {inner next : Reader Expr} {op? : List Char → Option (Operator × List Char)}

theorem gives_primary (h : Gives inner Named) : Gives (primary inner) Named := by
  intro s e rest he
  unfold primary at he
  split at he
  · have hparen : Gives (do
        let e ← inner
        blanks
        within .closingParenthesis (char ')')
        return e : Reader Expr) Named := by
      refine h.bind fun e he => ?_
      refine (Gives.any _).bind fun _ _ => ?_
      refine (Gives.any _).bind fun _ _ => ?_
      exact Gives.pure he
    exact hparen _ _ _ he
  · exact gives_operand _ _ _ he

theorem gives_unary (h : Gives inner Named) : Gives (unary inner) Named := by
  intro s
  induction s with
  | nil => exact gives_primary h []
  | cons c r ih =>
    intro e rest he
    unfold unary at he
    split at he
    · exact ih e rest he
    · split at he
      · cases hr : unary inner r with
        | error stop => simp [Functor.map, Except.map, hr] at he
        | ok x =>
          simp only [Functor.map, Except.map, hr] at he
          obtain ⟨rfl, -⟩ := Prod.mk.inj (Except.ok.inj he)
          have hnamed : Named x.1 := ih _ _ hr
          exact hnamed
      · exact gives_primary h _ _ _ he

theorem gives_chainTail (h : Gives next Named) (turns : ℕ) {acc : Expr} (ha : Named acc) :
    Gives (chainTail op? next turns acc) Named := by
  induction turns generalizing acc with
  | zero => exact Gives.pure ha
  | succ turns ih =>
    intro s e rest he
    unfold chainTail at he
    split at he
    · obtain ⟨rfl, -⟩ := Prod.mk.inj (Except.ok.inj he)
      exact ha
    · split at he
      · rename_i hn
        exact ih (named_binary ha (h _ _ _ hn)) _ _ _ he
      · simp at he

theorem gives_chain (h : Gives next Named) : Gives (chain op? next) Named := by
  intro s e rest he
  unfold chain at he
  split at he
  · rename_i hn
    exact gives_chainTail h _ (h _ _ _ hn) _ _ _ he
  · simp at he

theorem gives_sum (depth : ℕ) : Gives (sum depth) Named := by
  induction depth with
  | zero => exact fun _ _ _ h => by simp [sum, stop] at h
  | succ depth ih => exact gives_chain (gives_chain (gives_unary ih))

end Named

/-- The target and everything on the right side of a statement that was read are named. -/
theorem named_of_read {text : String} {t : Statement} (h : read text = .ok t) :
    IsName t.target.region ∧ Named t.expr := by
  have hbody : Gives (body (text.toList.length + 1))
      fun x => IsName x.1.region ∧ Named x.2.2.1 := by
    unfold body
    refine (Gives.any _).bind fun _ _ => ?_
    refine gives_term.within.bind fun target htarget => ?_
    refine (Gives.any _).bind fun _ _ => ?_
    refine (Gives.any _).bind fun c _ => ?_
    refine (gives_sum _).bind fun e he => ?_
    refine (Gives.any _).bind fun _ _ => ?_
    refine (Gives.any _).bind fun w _ => ?_
    refine (Gives.any _).bind fun _ _ => ?_
    exact Gives.pure ⟨htarget, he⟩
  unfold read at h
  dsimp only at h
  split at h
  · simp at h
  · rename_i hb
    obtain rfl := Except.ok.inj h
    exact hbody _ _ _ hb
  · simp at h

end RegionLayout.Statement
