-- The grammar of statements, and the reader held against it. The tokens of a statement derive
-- one tree, in which products bind tighter than sums, both group from the left, and a minus sign
-- binds tightest. The reader takes a text just when its tokens derive a statement, and what it
-- gives is that statement.
import RegionLayout.Proofs.Statement.Tokens

namespace RegionLayout

open Number

/-! ## What is not linear -/

namespace Expr

/-- The expression and the operands in it, however deep. -/
def subtrees : Expr → List Expr
  | literal v unit => [literal v unit]
  | ref r => [ref r]
  | neg e => neg e :: e.subtrees
  | binary op l r => binary op l r :: (l.subtrees ++ r.subtrees)

/-- It has a product of two operands that both name attributes, or a divisor that names one. -/
def Nonlinear (e : Expr) : Prop :=
  (∃ l r, binary .mul l r ∈ e.subtrees ∧ l.refs ≠ [] ∧ r.refs ≠ []) ∨
    ∃ l r, binary .div l r ∈ e.subtrees ∧ r.refs ≠ []

theorem not_nonlinear_literal (v : Decimal) (unit : LengthUnit) :
    ¬ (literal v unit).Nonlinear := by
  simp [Nonlinear, subtrees]

theorem not_nonlinear_ref (r : AttributeRef) : ¬ (ref r).Nonlinear := by
  simp [Nonlinear, subtrees]

theorem nonlinear_neg (e : Expr) : (neg e).Nonlinear ↔ e.Nonlinear := by
  simp [Nonlinear, subtrees]

theorem nonlinear_binary (op : Operator) (l r : Expr) : (binary op l r).Nonlinear ↔
    l.Nonlinear ∨ r.Nonlinear ∨
      (op = .mul ∧ l.refs ≠ [] ∧ r.refs ≠ []) ∨ (op = .div ∧ r.refs ≠ []) := by
  simp only [Nonlinear, subtrees, List.mem_cons, List.mem_append, binary.injEq]
  constructor
  · rintro (⟨l', r', (⟨rfl, rfl, rfl⟩ | h | h), hrefs⟩ | ⟨l', r', (⟨rfl, rfl, rfl⟩ | h | h), hrefs⟩)
    · exact .inr (.inr (.inl ⟨rfl, hrefs⟩))
    · exact .inl (.inl ⟨l', r', h, hrefs⟩)
    · exact .inr (.inl (.inl ⟨l', r', h, hrefs⟩))
    · exact .inr (.inr (.inr ⟨rfl, hrefs⟩))
    · exact .inl (.inr ⟨l', r', h, hrefs⟩)
    · exact .inr (.inl (.inr ⟨l', r', h, hrefs⟩))
  · rintro ((⟨l', r', h, hrefs⟩ | ⟨l', r', h, hrefs⟩) | (⟨l', r', h, hrefs⟩ | ⟨l', r', h, hrefs⟩) |
      ⟨rfl, hrefs⟩ | ⟨rfl, hrefs⟩)
    · exact .inl ⟨l', r', .inr (.inl h), hrefs⟩
    · exact .inr ⟨l', r', .inr (.inl h), hrefs⟩
    · exact .inl ⟨l', r', .inr (.inr h), hrefs⟩
    · exact .inr ⟨l', r', .inr (.inr h), hrefs⟩
    · exact .inl ⟨l, r, .inl ⟨rfl, rfl, rfl⟩, hrefs⟩
    · exact .inr ⟨l, r, .inl ⟨rfl, rfl, rfl⟩, hrefs⟩

end Expr

namespace Statement

theorem nonlinear?_isSome (e : Expr) : (nonlinear? e).isSome = true ↔ e.Nonlinear := by
  induction e with
  | literal v unit => simp [nonlinear?, Expr.not_nonlinear_literal]
  | ref r => simp [nonlinear?, Expr.not_nonlinear_ref]
  | neg e ih => rw [Expr.nonlinear_neg, ← ih, nonlinear?]
  | binary op l r hl hr =>
    have hconst (e : Expr) : e.isConstant = false ↔ e.refs ≠ [] := by
      rw [Ne, ← Expr.isConstant_iff_refs, Bool.not_eq_true]
    rw [Expr.nonlinear_binary, ← hl, ← hr, ← hconst, ← hconst]
    cases op <;> simp [nonlinear?]

/-! ## The grammar -/

/-- How tightly the outermost operation of an expression binds, the loosest first. -/
inductive Rank where
  | sum
  | product
  | unary
  | primary

/-- The rank of the expressions that an operator makes of two others. -/
def rankOf : Operator → Rank
  | .add | .sub => .sum
  | .mul | .div => .product

/-- The tokens are an expression of the rank, and the tree is how it groups. -/
inductive Derives : Rank → List Token → Expr → Prop
  | term {ts : List Token} {e : Expr} (h : Derives .product ts e) : Derives .sum ts e
  | plus {ls rs : List Token} {l r : Expr} {o : Operator} (ho : rankOf o = .sum)
      (hl : Derives .sum ls l) (hr : Derives .product rs r) :
      Derives .sum (ls ++ .operator o :: rs) (.binary o l r)
  | factor {ts : List Token} {e : Expr} (h : Derives .unary ts e) : Derives .product ts e
  | times {ls rs : List Token} {l r : Expr} {o : Operator} (ho : rankOf o = .product)
      (hl : Derives .product ls l) (hr : Derives .unary rs r) :
      Derives .product (ls ++ .operator o :: rs) (.binary o l r)
  | minus {ts : List Token} {e : Expr} (h : Derives .unary ts e) :
      Derives .unary (.operator .sub :: ts) (.neg e)
  | plain {ts : List Token} {e : Expr} (h : Derives .primary ts e) : Derives .unary ts e
  | parenthesis {ts : List Token} {e : Expr} (h : Derives .sum ts e) :
      Derives .primary (.opening :: (ts ++ [.closing])) e
  | literal (v : Decimal) (unit : LengthUnit) :
      Derives .primary [.number v unit] (.literal v unit)
  | reference (n : String) {a : String} {attr : Attribute}
      (ha : Attribute.ofName? a = some attr) : Derives .primary [.reference n a] (.ref ⟨n, attr⟩)

/-- The mark of a strength, where there is one. -/
inductive Marked : List Token → Strength → Prop
  | none : Marked [] .required
  | mark {n : String} {w : Strength} (h : Strength.ofName? n = some w) : Marked [.mark n] w

/-- The text is a statement of the grammar, and `t` is how it is understood. -/
def Derivable (text : String) (t : Statement) : Prop :=
  ∃ a ts us, Lexed text.toList
      (.reference t.target.region a :: .comparator t.comparator :: (ts ++ us)) ∧
    Attribute.ofName? a = some t.target.attr ∧ Derives .sum ts t.expr ∧ Marked us t.strength ∧
    t.text = text

variable {α β : Type} {s r r' rest : List Char} {c : Char} {n a : String} {e e' : Expr}
  {ts ts' us : List Token} {t : Token} {o : Operator} {d turns : ℕ} {k k' : Rank}
  {inner next : Reader Expr} {op? : List Char → Option (Operator × List Char)}

/-! ## What a reader took -/

theorem bind_eq_ok {m : Reader α} {f : α → Reader β} {b : β} :
    (m >>= f) s = .ok (b, rest) ↔ ∃ a r, m s = .ok (a, r) ∧ f a r = .ok (b, rest) := by
  cases hm : m s with
  | error stop => simp [bind, StateT.bind, Except.bind, hm]
  | ok x =>
    obtain ⟨a, r⟩ := x
    simp [bind, StateT.bind, Except.bind, hm]

theorem pure_eq_ok {b b' : β} : (pure b' : Reader β) s = .ok (b, rest) ↔ b' = b ∧ s = rest := by
  simp [pure, StateT.pure, Except.pure]

theorem within_eq_ok {x : Expectation} {m : Reader α} {b : α} :
    within x m s = .ok (b, rest) ↔ m s = .ok (b, rest) := by
  unfold within
  split <;> simp_all

theorem char_eq_ok {u : Unit} : char c s = .ok (u, rest) ↔ s = c :: rest := by
  unfold char
  split
  · simp
  · split <;> simp_all

theorem name_eq_ok : name s = .ok (n, rest) ↔ name? s = some (n, rest) := by
  unfold name
  split <;> simp_all

theorem nameOf_eq_ok {f : String → Option α} {b : α} :
    nameOf f s = .ok (b, rest) ↔ ∃ n, name? s = some (n, rest) ∧ f n = some b := by
  unfold nameOf
  cases hn : name? s with
  | none => simp
  | some x =>
    obtain ⟨m, r⟩ := x
    cases hf : f m with
    | none => simp_all
    | some b' => simp [hf, and_comm]

theorem term_eq_ok {x : AttributeRef} : term s = .ok (x, rest) ↔
    ∃ a, Cut s (.reference x.region a) rest ∧ Attribute.ofName? a = some x.attr := by
  obtain ⟨n, attr⟩ := x
  simp only [term, bind_eq_ok, pure_eq_ok, within_eq_ok, nameOf_eq_ok, name_eq_ok,
    char_eq_ok, cut_reference]
  constructor
  · rintro ⟨n', r, hn, -, r', rfl, attr', r'', ⟨a, ha, hattr⟩, hx, rfl⟩
    cases hx
    exact ⟨a, ⟨r', hn, ha⟩, hattr⟩
  · rintro ⟨a, ⟨r, hn, ha⟩, hattr⟩
    exact ⟨n, _, hn, (), r, rfl, attr, rest, ⟨a, ha, hattr⟩, rfl, rfl⟩

theorem number?_of_cut_reference (h : Cut s (.reference n a) rest) : number? s = none := by
  obtain ⟨r, hn, -⟩ := cut_reference.1 h
  obtain ⟨c, cs, hlist, hc, -⟩ := isName_of_name? hn
  rw [toList_of_name? hn, hlist, List.cons_append]
  exact number?_of_isNameStart hc

theorem operand_eq_ok : operand s = .ok (e, rest) ↔
    (∃ v unit, Cut s (.number v unit) rest ∧ e = .literal v unit) ∨
      ∃ n a attr, Cut s (.reference n a) rest ∧ Attribute.ofName? a = some attr ∧
        e = .ref ⟨n, attr⟩ := by
  unfold operand
  rw [within_eq_ok]
  constructor
  · intro h
    dsimp only at h
    split at h
    · rename_i v r hn
      cases h
      exact .inl ⟨v, _, cut_number.2 ⟨r, hn, rfl⟩, rfl⟩
    · rw [map_eq_pure_bind, bind_eq_ok] at h
      obtain ⟨⟨n, attr⟩, r, hterm, he⟩ := h
      cases he
      obtain ⟨a, hcut, hattr⟩ := term_eq_ok.1 hterm
      exact .inr ⟨n, a, attr, hcut, hattr, rfl⟩
  · rintro (⟨v, unit, hcut, rfl⟩ | ⟨n, a, attr, hcut, hattr, rfl⟩)
    · obtain ⟨r, hn, hunit⟩ := cut_number.1 hcut
      simp [hn, hunit]
    · simp only [number?_of_cut_reference hcut]
      rw [map_eq_pure_bind, bind_eq_ok]
      exact ⟨⟨n, attr⟩, rest, term_eq_ok.2 ⟨a, hcut, hattr⟩, rfl⟩

theorem comparison_eq_ok {k : Comparator} :
    comparison s = .ok (k, rest) ↔ s = k.symbol.toList ++ rest := by
  refine ⟨fun h => ?_, fun h => h ▸ comparison_append k⟩
  unfold comparison at h
  split at h <;> cases h <;> rfl

theorem strengthMark_eq_ok {w : Strength} : strengthMark s = .ok (w, rest) ↔
    (∃ n, Cut s (.mark n) rest ∧ Strength.ofName? n = some w) ∨
      s.head? ≠ some '!' ∧ w = .required ∧ rest = s := by
  unfold strengthMark
  split
  · simp only [within_eq_ok, nameOf_eq_ok, cut_mark, List.cons.injEq, true_and]
    simp
  · rename_i hs
    have hhead : s.head? ≠ some '!' := by
      cases s with
      | nil => simp
      | cons c r => simpa using fun hc : c = '!' => hs r (by rw [hc])
    simp only [cut_mark, hhead, ne_eq, not_false_eq_true, true_and, Except.ok.injEq,
      Prod.mk.injEq]
    constructor
    · rintro ⟨rfl, rfl⟩
      exact .inr ⟨rfl, rfl⟩
    · rintro (⟨n, ⟨r, rfl, -⟩, -⟩ | ⟨rfl, rfl⟩)
      · exact absurd rfl hhead
      · exact ⟨rfl, rfl⟩

theorem parenthesis_eq_ok :
    (do let e ← inner; blanks; within .closingParenthesis (char ')'); return e : Reader Expr) s =
        .ok (e, rest) ↔ ∃ r, inner s = .ok (e, r) ∧ skipBlanks r = ')' :: rest := by
  simp only [bind_eq_ok, pure_eq_ok, within_eq_ok, char_eq_ok, blanks_eq]
  constructor
  · rintro ⟨e', r, hinner, u, r', hr, u', rest', hclose, rfl, rfl⟩
    cases hr
    exact ⟨r, hinner, hclose⟩
  · rintro ⟨r, hinner, hclose⟩
    exact ⟨e, r, hinner, (), _, rfl, (), rest, hclose, rfl, rfl⟩

/-! ## Blanks before an operand -/

theorem primary_skipBlanks : primary inner (skipBlanks s) = primary inner s := by
  unfold primary
  rw [skipBlanks_skipBlanks]

theorem primary_opening (h : skipBlanks s = '(' :: r) : primary inner s = .ok (e, rest) ↔
    ∃ r', inner r = .ok (e, r') ∧ skipBlanks r' = ')' :: rest := by
  unfold primary
  rw [h]
  exact parenthesis_eq_ok

theorem primary_operand (h : (skipBlanks s).head? ≠ some '(') :
    primary inner s = operand (skipBlanks s) := by
  unfold primary
  split
  · rename_i hs
    exact absurd (by rw [hs]; rfl) h
  · rfl

theorem unary_skipBlanks : unary inner (skipBlanks s) = unary inner s := by
  induction s with
  | nil => rfl
  | cons c s ih =>
    cases hc : isBlank c with
    | false => rw [skipBlanks_cons hc]
    | true => rw [skipBlanks, List.dropWhile_cons_of_pos hc, unary, if_pos hc]; exact ih

theorem unary_minus (h : skipBlanks s = '-' :: r) : unary inner s = .ok (e, rest) ↔
    ∃ e', unary inner r = .ok (e', rest) ∧ e = .neg e' := by
  rw [← unary_skipBlanks, h, unary, if_neg (by decide), if_pos rfl]
  cases unary inner r with
  | error stop => simp [Functor.map, Except.map]
  | ok x =>
    obtain ⟨e', r'⟩ := x
    simp only [Functor.map, Except.map, Except.ok.injEq, Prod.mk.injEq]
    constructor
    · rintro ⟨rfl, rfl⟩
      exact ⟨e', ⟨rfl, rfl⟩, rfl⟩
    · rintro ⟨_, ⟨rfl, rfl⟩, rfl⟩
      exact ⟨rfl, rfl⟩

theorem unary_primary (h : (skipBlanks s).head? ≠ some '-') : unary inner s = primary inner s := by
  rw [← unary_skipBlanks, ← primary_skipBlanks]
  cases hs : skipBlanks s with
  | nil => rfl
  | cons c r =>
    rw [hs] at h
    rw [unary, if_neg (by simp [isBlank_of_skipBlanks hs]), if_neg (by simpa using h)]

/-! ## Operators -/

def signOf : Operator → Char
  | .add => '+'
  | .sub => '-'
  | .mul => '*'
  | .div => '/'

theorem ofSign?_signOf (o : Operator) : Token.ofSign? (signOf o) = some (.operator o) := by
  cases o <;> rfl

/-- It takes the operators of the rank, and no others. -/
def Takes (op? : List Char → Option (Operator × List Char)) (k : Rank) : Prop :=
  ∀ s o r, op? s = some (o, r) ↔ rankOf o = k ∧ s = signOf o :: r

theorem takes_additive? : Takes additive? .sum := by
  intro s o r
  unfold additive?
  split
  · cases o <;> simp [rankOf, signOf]
  · cases o <;> simp [rankOf, signOf]
  · rename_i hadd hsub
    cases o <;> simp_all [rankOf, signOf]

theorem takes_multiplicative? : Takes multiplicative? .product := by
  intro s o r
  unfold multiplicative?
  split
  · cases o <;> simp [rankOf, signOf]
  · cases o <;> simp [rankOf, signOf]
  · rename_i hmul hdiv
    cases o <;> simp_all [rankOf, signOf]

/-- A text that goes on with a sign has its token next. -/
theorem lexed_sign (hc : Token.ofSign? c = some t) (hs : skipBlanks s = c :: rest) :
    Lexed s ts ↔ ∃ ts', ts = t :: ts' ∧ Lexed rest ts' := by
  constructor
  · intro h
    cases ts with
    | nil => exact absurd (lexed_nil.1 h) (by simp [hs])
    | cons t' ts' =>
      obtain ⟨r, hcut, hr⟩ := lexed_cons.1 h
      rw [hs] at hcut
      obtain rfl := hcut.leads.sign hc
      rw [cut_sign hc, List.cons.injEq] at hcut
      rw [hcut.2]
      exact ⟨ts', rfl, hr⟩
  · rintro ⟨ts', rfl, hr⟩
    exact lexed_cons.2 ⟨rest, (cut_sign hc).2 hs, hr⟩

theorem lexed_cons_sign (hc : Token.ofSign? c = some t) (h : Lexed s (t :: ts)) :
    ∃ r, skipBlanks s = c :: r ∧ Lexed r ts := by
  obtain ⟨r, hcut, hr⟩ := lexed_cons.1 h
  exact ⟨r, (cut_sign hc).1 hcut, hr⟩

/-- Nothing is taken where the next token is no operator of the rank. -/
theorem Takes.eq_none (hop : Takes op? k) (h : Lexed s ts)
    (hts : ∀ o ts', ts = .operator o :: ts' → rankOf o ≠ k) : op? (skipBlanks s) = none := by
  cases hs : op? (skipBlanks s) with
  | none => rfl
  | some x =>
    obtain ⟨o, r⟩ := x
    obtain ⟨hrank, hr⟩ := (hop _ _ _).1 hs
    obtain ⟨ts', hcons, -⟩ := (lexed_sign (ofSign?_signOf o) hr).1 h
    exact absurd hrank (hts o ts' hcons)

/-! ## What is read is derived -/

/-- Whatever the reader gives, the tokens that it took derive it. -/
def Sound (k : Rank) (m : Reader Expr) : Prop :=
  ∀ s e r, m s = .ok (e, r) → ∀ ts', Lexed r ts' → ∃ ts, Derives k ts e ∧ Lexed s (ts ++ ts')

theorem Cut.lexed (h : Cut s t rest) (hr : Lexed rest ts) : Lexed s (t :: ts) := by
  obtain ⟨w, rfl, hw, hl⟩ := h
  exact .token hw hl hr

theorem sound_operand : Sound .primary operand := by
  intro s e r h ts' hr
  rcases operand_eq_ok.1 h with ⟨v, unit, hcut, rfl⟩ | ⟨n, a, attr, hcut, hattr, rfl⟩
  · exact ⟨_, .literal v unit, hcut.lexed hr⟩
  · exact ⟨_, .reference n hattr, hcut.lexed hr⟩

theorem sound_primary (hi : Sound .sum inner) : Sound .primary (primary inner) := by
  intro s e r h ts' hr
  by_cases hs : (skipBlanks s).head? = some '('
  · obtain ⟨s', hs⟩ := List.head?_eq_some_iff.1 hs
    obtain ⟨r', hinner, hclose⟩ := (primary_opening hs).1 h
    have hlast : Lexed r' (.closing :: ts') := (lexed_sign rfl hclose).2 ⟨ts', rfl, hr⟩
    obtain ⟨ts, hder, hlex⟩ := hi _ _ _ hinner _ hlast
    refine ⟨_, .parenthesis hder, (lexed_sign rfl hs).2 ⟨_, rfl, ?_⟩⟩
    simpa using hlex
  · rw [primary_operand hs] at h
    obtain ⟨ts, hder, hlex⟩ := sound_operand _ _ _ h ts' hr
    exact ⟨ts, hder, lexed_skipBlanks.1 hlex⟩

theorem sound_unary (hi : Sound .sum inner) : Sound .unary (unary inner) := by
  intro s
  induction hn : s.length using Nat.strong_induction_on generalizing s with
  | _ n ih =>
    intro e r h ts' hr
    by_cases hs : (skipBlanks s).head? = some '-'
    · obtain ⟨s', hs⟩ := List.head?_eq_some_iff.1 hs
      obtain ⟨e', he', rfl⟩ := (unary_minus hs).1 h
      have hlt : s'.length < s.length := by
        have := (skipBlanks_suffix s).length_le
        rw [hs, List.length_cons] at this
        omega
      obtain ⟨ts, hder, hlex⟩ := ih s'.length (hn ▸ hlt) s' rfl e' r he' ts' hr
      exact ⟨_, .minus hder, (lexed_sign rfl hs).2 ⟨_, rfl, hlex⟩⟩
    · rw [unary_primary hs] at h
      obtain ⟨ts, hder, hlex⟩ := sound_primary hi _ _ _ h ts' hr
      exact ⟨ts, .plain hder, hlex⟩

section Chain

variable (hop : Takes op? k) (hn : Sound k' next)
  (hjoin : ∀ {ls rs l r o}, rankOf o = k → Derives k ls l → Derives k' rs r →
    Derives k (ls ++ .operator o :: rs) (.binary o l r))

include hop hn hjoin

/-- A chain goes on from the tokens that derived its value so far. -/
theorem sound_chainTail (h : chainTail op? next turns e s = .ok (e', rest))
    (hr : Lexed rest ts') : ∃ us, Lexed s (us ++ ts') ∧
      ∀ ts, Derives k ts e → Derives k (ts ++ us) e' := by
  induction turns generalizing e s with
  | zero =>
    cases h
    exact ⟨[], hr, fun ts hts => by rwa [List.append_nil]⟩
  | succ turns ih =>
    unfold chainTail at h
    split at h
    · cases h
      exact ⟨[], lexed_skipBlanks.1 hr, fun ts hts => by rwa [List.append_nil]⟩
    · rename_i o r ho
      obtain ⟨hrank, hs⟩ := (hop _ _ _).1 ho
      split at h
      · rename_i rhs r' hnext
        obtain ⟨us, hlex, hder⟩ := ih h
        obtain ⟨rs, hrs, hlex⟩ := hn _ _ _ hnext _ hlex
        refine ⟨.operator o :: (rs ++ us), ?_, fun ts hts => ?_⟩
        · exact (lexed_sign (ofSign?_signOf o) hs).2 ⟨_, rfl, by simpa using hlex⟩
        · have hwhole := hder _ (hjoin hrank hts hrs)
          rwa [List.append_assoc, List.cons_append] at hwhole
      · cases h

theorem sound_chain (hlift : ∀ {ts e}, Derives k' ts e → Derives k ts e) :
    Sound k (chain op? next) := by
  intro s e r h ts' hr
  unfold chain at h
  split at h
  · rename_i first r' hfirst
    obtain ⟨us, hlex, hder⟩ := sound_chainTail hop hn hjoin h hr
    obtain ⟨ts, hts, hlex⟩ := hn _ _ _ hfirst _ hlex
    exact ⟨ts ++ us, hder ts (hlift hts), by rwa [List.append_assoc]⟩
  · cases h

end Chain

theorem sound_sum (d : ℕ) : Sound .sum (sum d) := by
  induction d with
  | zero => exact fun _ _ _ h => by cases h
  | succ d ih =>
    have hproduct : Sound .product (chain multiplicative? (unary (sum d))) :=
      sound_chain takes_multiplicative? (sound_unary ih) .times .factor
    exact sound_chain takes_additive? hproduct .plus .term

/-! ## What is derived is read -/

/-- The chain comes to `rest` with the value `e` and turns left for what follows. -/
def Reaches (op? : List Char → Option (Operator × List Char)) (next : Reader Expr)
    (s : List Char) (e : Expr) (rest : List Char) : Prop :=
  ∃ turns, rest.length < turns ∧ chain op? next s = chainTail op? next turns e rest

theorem Reaches.first (h : next s = .ok (e, rest)) : Reaches op? next s e rest :=
  ⟨rest.length + 1, Nat.lt_succ_self _, chain_of_ok h⟩

/-- What stands behind a sign is shorter by it. -/
theorem suffix_of_skipBlanks (h : skipBlanks s = c :: r) : r <:+ s ∧ r.length < s.length := by
  have hsuffix := skipBlanks_suffix s
  rw [h] at hsuffix
  exact ⟨(List.suffix_cons c r).trans hsuffix, hsuffix.length_le⟩

theorem Reaches.step (hop : Takes op? k) (h : Reaches op? next s e r) (ho : rankOf o = k)
    (hr : skipBlanks r = signOf o :: r') (hn : next r' = .ok (e', rest)) (hrest : rest <:+ r') :
    Reaches op? next s (.binary o e e') rest := by
  obtain ⟨turns, hlt, heq⟩ := h
  have hshorter := (suffix_of_skipBlanks hr).2
  have hle := hrest.length_le
  cases turns with
  | zero => exact absurd hlt (Nat.not_lt_zero _)
  | succ turns =>
    -- the sign that this turn takes off pays for the turn
    refine ⟨turns, by omega, heq.trans (chainTail_of_some ?_ hn)⟩
    exact (hop _ _ _).2 ⟨ho, hr⟩

theorem Reaches.stop (h : Reaches op? next s e r) (ho : op? (skipBlanks r) = none) :
    chain op? next s = .ok (e, skipBlanks r) := by
  obtain ⟨turns, hlt, heq⟩ := h
  cases turns with
  | zero => exact absurd hlt (Nat.not_lt_zero _)
  | succ turns => exact heq.trans (chainTail_of_none ho)

/-- The reader of the rank comes through the text to `rest`, with the tree `e`. -/
def Comes (d : ℕ) : Rank → List Char → Expr → List Char → Prop
  | .sum, s, e, rest => Reaches additive? (chain multiplicative? (unary (sum d))) s e rest
  | .product, s, e, rest => Reaches multiplicative? (unary (sum d)) s e rest
  | .unary, s, e, rest | .primary, s, e, rest => unary (sum d) s = .ok (e, rest)

/-- A sum is not followed by an operator that binds tighter. -/
def Follows (k : Rank) (ts : List Token) : Prop :=
  k = .sum → ∀ o us, ts = .operator o :: us → rankOf o ≠ .product

theorem chain_of_comes (h : Comes d .product s e r) (hr : Lexed r ts) (hf : Follows .sum ts) :
    chain multiplicative? (unary (sum d)) s = .ok (e, skipBlanks r) :=
  Reaches.stop h (takes_multiplicative?.eq_none hr (hf rfl))

theorem sum_of_comes (h : Comes d .sum s e r) (hr : Lexed r ts)
    (hts : ∀ o us, ts ≠ .operator o :: us) : sum (d + 1) s = .ok (e, skipBlanks r) :=
  Reaches.stop h (takes_additive?.eq_none hr fun o us h => absurd h (hts o us))

theorem unary_of_cut (h : Cut (skipBlanks s) t rest) (ht : ∀ c, t.Leads c → opens c = true)
    (hread : operand (skipBlanks s) = .ok (e, rest)) : unary inner s = .ok (e, rest) := by
  rw [← unary_skipBlanks]
  obtain ⟨w, hs, hw, -⟩ := h
  obtain ⟨c, cs, rfl, hc⟩ := hw.leads
  rw [hs] at hread ⊢
  rw [List.cons_append, unary_of_opens (ht c hc)]
  exact hread

/-- What derives an expression is read as it, whatever follows. Parentheses take one from the
depth and two from the text. -/
theorem complete (h : Derives k ts e) (hd : s.length ≤ d) (hs : Lexed s (ts ++ ts'))
    (hf : Follows k ts') : ∃ r, r <:+ s ∧ Lexed r ts' ∧ Comes d k s e r := by
  induction h generalizing d s ts' with
  | term _ ih =>
    obtain ⟨r, hsuffix, hr, hcomes⟩ := ih hd hs (by simp [Follows])
    have hread := chain_of_comes hcomes hr (fun _ => hf rfl)
    exact ⟨_, (skipBlanks_suffix r).trans hsuffix, lexed_skipBlanks.2 hr, Reaches.first hread⟩
  | @plus ls rs l r o ho _ _ ihl ihr =>
    rw [List.append_assoc, List.cons_append] at hs
    have hsum : Follows .sum (.operator o :: (rs ++ ts')) := by
      rintro - o' us hcons
      cases hcons
      simp [ho]
    obtain ⟨s₁, hsuffix₁, hlex₁, hcomes₁⟩ := ihl hd hs hsum
    obtain ⟨s₂, hsign, hlex₂⟩ := lexed_cons_sign (ofSign?_signOf o) hlex₁
    have hsuffix₂ := (suffix_of_skipBlanks hsign).1.trans hsuffix₁
    obtain ⟨s₃, hsuffix₃, hlex₃, hcomes₃⟩ :=
      ihr (hsuffix₂.length_le.trans hd) hlex₂ (by simp [Follows])
    have hread := chain_of_comes hcomes₃ hlex₃ (fun _ => hf rfl)
    have hrest := (skipBlanks_suffix s₃).trans hsuffix₃
    exact ⟨_, hrest.trans hsuffix₂, lexed_skipBlanks.2 hlex₃,
      Reaches.step takes_additive? hcomes₁ ho hsign hread hrest⟩
  | factor _ ih =>
    obtain ⟨r, hsuffix, hr, hcomes⟩ := ih hd hs (by simp [Follows])
    exact ⟨r, hsuffix, hr, Reaches.first hcomes⟩
  | @times ls rs l r o ho _ _ ihl ihr =>
    rw [List.append_assoc, List.cons_append] at hs
    obtain ⟨s₁, hsuffix₁, hlex₁, hcomes₁⟩ := ihl hd hs (by simp [Follows])
    obtain ⟨s₂, hsign, hlex₂⟩ := lexed_cons_sign (ofSign?_signOf o) hlex₁
    have hsuffix₂ := (suffix_of_skipBlanks hsign).1.trans hsuffix₁
    obtain ⟨s₃, hsuffix₃, hlex₃, hread⟩ :=
      ihr (hsuffix₂.length_le.trans hd) hlex₂ (by simp [Follows])
    exact ⟨s₃, hsuffix₃.trans hsuffix₂, hlex₃,
      Reaches.step takes_multiplicative? hcomes₁ ho hsign hread hsuffix₃⟩
  | minus _ ih =>
    obtain ⟨s₁, hsign, hlex₁⟩ := lexed_cons_sign (c := '-') rfl hs
    obtain ⟨hsuffix₁, hlt⟩ := suffix_of_skipBlanks hsign
    obtain ⟨r, hsuffix, hr, hread⟩ := ih (hlt.le.trans hd) hlex₁ (by simp [Follows])
    exact ⟨r, hsuffix.trans hsuffix₁, hr, (unary_minus hsign).2 ⟨_, hread, rfl⟩⟩
  | plain _ ih => exact ih hd hs (by simp [Follows])
  | @parenthesis ts e _ ih =>
    have hcons : Lexed s (.opening :: (ts ++ .closing :: ts')) := by simpa using hs
    obtain ⟨s₁, hopen, hlex₁⟩ := lexed_cons_sign (c := '(') rfl hcons
    obtain ⟨hsuffix₁, hlt⟩ := suffix_of_skipBlanks hopen
    cases d with
    | zero => omega
    | succ d =>
      obtain ⟨r, hsuffix, hr, hcomes⟩ := ih (Nat.le_of_lt_succ (hlt.trans_le hd)) hlex₁
        (by simp [Follows])
      have hread := sum_of_comes hcomes hr (by simp)
      obtain ⟨r', hclose, hr'⟩ := lexed_cons_sign (c := ')') rfl hr
      have hsuffix' := ((suffix_of_skipBlanks hclose).1.trans hsuffix).trans hsuffix₁
      refine ⟨r', hsuffix', hr', ?_⟩
      have hprimary : primary (sum (d + 1)) s = .ok (e, r') :=
        (primary_opening hopen).2 ⟨_, hread, by rw [skipBlanks_skipBlanks, hclose]⟩
      exact (unary_primary (by simp [hopen])).trans hprimary
  | literal v unit =>
    obtain ⟨r, hcut, hr⟩ := lexed_cons.1 hs
    refine ⟨r, hcut.suffix.trans (skipBlanks_suffix s), hr, ?_⟩
    refine unary_of_cut hcut (fun c hc => ?_) (operand_eq_ok.2 (.inl ⟨v, unit, hcut, rfl⟩))
    simp [opens, show c.isDigit = true from hc]
  | @reference n a attr ha =>
    obtain ⟨r, hcut, hr⟩ := lexed_cons.1 hs
    refine ⟨r, hcut.suffix.trans (skipBlanks_suffix s), hr, ?_⟩
    have hread := operand_eq_ok.2 (.inr ⟨n, a, attr, hcut, ha, rfl⟩)
    refine unary_of_cut hcut (fun c hc => ?_) hread
    simp [opens, show isNameStart c = true from hc]

/-! ## Whole statements -/

theorem body_eq_ok {x : AttributeRef × Comparator × Expr × Strength} :
    body d s = .ok (x, rest) ↔ ∃ r₁ r₂ r₃ r₄, term (skipBlanks s) = .ok (x.1, r₁) ∧
      comparison (skipBlanks r₁) = .ok (x.2.1, r₂) ∧ sum d r₂ = .ok (x.2.2.1, r₃) ∧
      strengthMark (skipBlanks r₃) = .ok (x.2.2.2, r₄) ∧ skipBlanks r₄ = rest := by
  obtain ⟨target, c, e, w⟩ := x
  simp only [body, bind_eq_ok, pure_eq_ok, within_eq_ok, blanks_eq]
  constructor
  · rintro ⟨u, s', hs, target', r₁, ht, u₁, s₁, hs₁, c', r₂, hc, e', r₃, he, u₃, s₃, hs₃, w', r₄,
      hw, u₄, s₄, hs₄, hx, rfl⟩
    cases hs; cases hs₁; cases hs₃; cases hs₄; cases hx
    exact ⟨r₁, r₂, r₃, r₄, ht, hc, he, hw, rfl⟩
  · rintro ⟨r₁, r₂, r₃, r₄, ht, hc, he, hw, rfl⟩
    exact ⟨(), _, rfl, target, r₁, ht, (), _, rfl, c, r₂, hc, e, r₃, he, (), _, rfl, w, r₄, hw, (), _,
      rfl, rfl, rfl⟩

theorem read_eq_ok {text : String} {x : Statement} : read text = .ok x ↔
    body (text.toList.length + 1) text.toList =
      .ok ((x.target, x.comparator, x.expr, x.strength), []) ∧ x.text = text := by
  obtain ⟨text', target, c, e, w⟩ := x
  unfold read
  dsimp only
  split
  · simp_all
  · rename_i hbody
    rw [hbody]
    simp only [Except.ok.injEq, Statement.mk.injEq, Prod.mk.injEq, and_true]
    constructor
    · rintro ⟨rfl, rfl, rfl, rfl, rfl⟩
      exact ⟨⟨rfl, rfl, rfl, rfl⟩, rfl⟩
    · rintro ⟨⟨rfl, rfl, rfl, rfl⟩, rfl⟩
      exact ⟨rfl, rfl, rfl, rfl, rfl⟩
  · rename_i rest hne hbody
    rw [hbody]
    simp only [Except.ok.injEq, Prod.mk.injEq, reduceCtorEq, false_iff]
    rintro ⟨⟨rfl, rfl⟩, -⟩
    exact hne _ _ _ _ rfl rfl

theorem strengthMark_iff_marked {w : Strength} :
    (∃ r, strengthMark (skipBlanks s) = .ok (w, r) ∧ skipBlanks r = []) ↔
      ∃ us, Lexed s us ∧ Marked us w := by
  simp only [strengthMark_eq_ok]
  constructor
  · rintro ⟨r, ⟨n, hcut, hn⟩ | ⟨-, rfl, rfl⟩, hr⟩
    · exact ⟨[.mark n], lexed_cons.2 ⟨r, hcut, lexed_nil.2 hr⟩, .mark hn⟩
    · exact ⟨[], lexed_nil.2 (by rwa [skipBlanks_skipBlanks] at hr), .none⟩
  · rintro ⟨us, hs, hmark⟩
    cases hmark with
    | none =>
      have hend := lexed_nil.1 hs
      exact ⟨[], .inr ⟨by simp [hend], rfl, hend.symm⟩, rfl⟩
    | @mark n w hn =>
      obtain ⟨r, hcut, hr⟩ := lexed_cons.1 hs
      exact ⟨r, .inl ⟨n, hcut, hn⟩, lexed_nil.1 hr⟩

theorem read_iff_derivable (text : String) (x : Statement) :
    read text = .ok x ↔ Derivable text x := by
  rw [read_eq_ok, body_eq_ok]
  constructor
  · rintro ⟨⟨r₁, r₂, r₃, r₄, hterm, hcomparison, hsum, hmark, hr₄⟩, htext⟩
    obtain ⟨a, hcut, ha⟩ := term_eq_ok.1 hterm
    obtain ⟨us, hus, hmarked⟩ := strengthMark_iff_marked.1 ⟨r₄, hmark, hr₄⟩
    obtain ⟨ts, hder, hts⟩ := sound_sum _ _ _ _ hsum us hus
    have hcomparator : Lexed r₁ (.comparator x.comparator :: (ts ++ us)) :=
      lexed_cons.2 ⟨r₂, cut_comparator.2 (comparison_eq_ok.1 hcomparison), hts⟩
    exact ⟨a, ts, us, lexed_cons.2 ⟨r₁, hcut, hcomparator⟩, ha, hder, hmarked, htext⟩
  · rintro ⟨a, ts, us, hlex, ha, hder, hmarked, htext⟩
    obtain ⟨r₁, hcut₁, hlex₁⟩ := lexed_cons.1 hlex
    obtain ⟨r₂, hcut₂, hlex₂⟩ := lexed_cons.1 hlex₁
    have hsuffix₁ := hcut₁.suffix.trans (skipBlanks_suffix _)
    have hsuffix₂ := (hcut₂.suffix.trans (skipBlanks_suffix _)).trans hsuffix₁
    have hus : ∀ o us', us ≠ .operator o :: us' := by
      generalize x.strength = w at hmarked
      cases hmarked <;> simp
    obtain ⟨r₃, -, hlex₃, hcomes⟩ := complete hder hsuffix₂.length_le hlex₂
      (fun _ o us' h => absurd h (hus o us'))
    obtain ⟨r₄, hmark, hr₄⟩ := strengthMark_iff_marked.2 ⟨us, hlex₃, hmarked⟩
    refine ⟨⟨r₁, r₂, skipBlanks r₃, r₄, term_eq_ok.2 ⟨a, hcut₁, ha⟩, ?_, ?_, ?_, hr₄⟩, htext⟩
    · exact comparison_eq_ok.2 (cut_comparator.1 hcut₂)
    · exact sum_of_comes hcomes hlex₃ hus
    · rwa [skipBlanks_skipBlanks]

/-! ## The verdict on a text -/

theorem read_error {text : String} {err : LayoutError} (h : read text = .error err) :
    ∃ t offset problem, err = .malformed t offset problem := by
  unfold read at h
  dsimp only at h
  split at h <;> cases h <;> exact ⟨_, _, _, rfl⟩

theorem parse_of_read {text : String} {x : Statement} (h : read text = .ok x) :
    parse text = match x.unsupported? with
      | some reason => .error (.unsupported text reason)
      | none => .ok x := by
  unfold parse
  simp only [h, bind, Except.bind]
  cases x.unsupported? <;> rfl

theorem unsupported?_isSome (x : Statement) : x.unsupported?.isSome = true ↔
    x.target.attr.isIntrinsic = true ∨ x.expr.Nonlinear := by
  unfold unsupported?
  split
  · simp_all
  · simp_all [nonlinear?_isSome]

/-- A text is malformed just when the grammar derives no statement from it. It derives at most
one. A statement that assigns a measured size or that is not linear is refused as such, and every
other is the result. -/
theorem parse_grammar (text : String) :
    ((∀ t offset problem, parse text ≠ .error (.malformed t offset problem)) ↔
      ∃ x, Derivable text x) ∧
    (∀ x y, Derivable text x → Derivable text y → x = y) ∧
    ((∃ t reason, parse text = .error (.unsupported t reason)) ↔
      ∃ x, Derivable text x ∧ (x.target.attr.isIntrinsic = true ∨ x.expr.Nonlinear)) ∧
    ∀ x, parse text = .ok x ↔
      Derivable text x ∧ ¬ (x.target.attr.isIntrinsic = true ∨ x.expr.Nonlinear) := by
  simp only [← read_iff_derivable, ← unsupported?_isSome]
  cases hread : read text with
  | error err =>
    obtain ⟨t, offset, problem, rfl⟩ := read_error hread
    have hparse : parse text = .error (.malformed t offset problem) := by
      simp [parse, hread, bind, Except.bind]
    simp [hparse]
  | ok x =>
    rw [parse_of_read hread]
    cases hu : x.unsupported? with
    | none => simp [hu]
    | some reason => simp [hu]

end Statement

end RegionLayout
