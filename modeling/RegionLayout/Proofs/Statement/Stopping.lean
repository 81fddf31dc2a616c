-- Where the reader stops. What it has gone over by then is the beginning of what it was to read: a
-- few characters more make that whole, whatever stands there instead. So the text before the
-- offset of a syntax error is the beginning of a statement.
import RegionLayout.Proofs.Statement.Grammar

namespace RegionLayout.Statement

open Number

variable {α β : Type} {s q q' w v rest : List Char} {c : Char} {n a : String} {e acc : Expr}
  {t : Token} {ts ts' us : List Token} {f : Stop} {k k' : Rank} {d turns : ℕ} {x : Expectation}
  {m inner next : Reader Expr} {op? : List Char → Option (Operator × List Char)}

/-! ## Texts before others -/

/-- It starts with no character that makes the word before it longer. -/
def Parted (s : List Char) : Prop := Stops (fun c => isNameChar c || c == '.') s

def Blanks (w : List Char) : Prop := ∀ c ∈ w, isBlank c = true

theorem Parted.stops {p : Char → Bool} (h : Parted s)
    (hp : ∀ c, p c = true → isNameChar c = true ∨ c = '.') : Stops p s := by
  intro c hc
  have hno := h c hc
  by_contra hyes
  rcases hp c (by simpa using hyes) with hname | rfl
  · simp [hname] at hno
  · simp at hno

theorem Parted.append (h : Parted q) (hr : Parted rest) : Parted (q ++ rest) := by
  cases q with
  | nil => exact hr
  | cons c q => exact h

theorem parted_nil : Parted [] := by simp [Parted, Stops]

theorem parted_sign (h : Token.ofSign? c = some t) : Parted (c :: rest) := by
  unfold Token.ofSign? at h
  split at h <;> first | exact Stops.cons (by decide) | cases h

theorem parted_symbol (k : Comparator) : Parted (k.symbol.toList ++ rest) := by
  cases k <;> exact Stops.cons (by decide)

theorem Blanks.parted (h : Blanks w) : Parted w := by
  cases w with
  | nil => exact parted_nil
  | cons c w =>
    have hc := h c List.mem_cons_self
    simp only [isBlank, Bool.or_eq_true, beq_iff_eq] at hc
    rcases hc with ((rfl | rfl) | rfl) | rfl <;> exact Stops.cons (by decide)

theorem exists_blanks (s : List Char) : ∃ w, Blanks w ∧ s = w ++ skipBlanks s :=
  ⟨s.takeWhile isBlank, fun _ hc => List.mem_takeWhile_imp hc,
    List.takeWhile_append_dropWhile.symm⟩

/-- The text is cut into the tokens before anything that does not make its last word longer. -/
def Cuts (q : List Char) (ts : List Token) : Prop :=
  ∀ rest ts', Parted rest → Lexed rest ts' → Lexed (q ++ rest) (ts ++ ts')

theorem Cuts.lexed (h : Cuts q ts) : Lexed q ts := by
  have hend := h [] [] parted_nil .nil
  rwa [List.append_nil, List.append_nil] at hend

theorem cuts_nil : Cuts [] [] := fun _ _ _ h => h

theorem Cuts.append (h : Cuts q ts) (h' : Cuts q' ts') (hp : Parted q') :
    Cuts (q ++ q') (ts ++ ts') := by
  intro rest us hr hus
  rw [List.append_assoc, List.append_assoc]
  exact h _ _ (hp.append hr) (h' rest us hr hus)

theorem Cuts.cons_sign (h : Cuts q ts) (hc : Token.ofSign? c = some t) :
    Cuts (c :: q) (t :: ts) := fun _ _ hr hus => ((cut_sign hc).2 rfl).lexed (h _ _ hr hus)

theorem Cuts.blanks_append (h : Cuts q ts) (hw : Blanks w) : Cuts (w ++ q) ts := by
  induction w with
  | nil => exact h
  | cons c w ih =>
    intro rest us hr hus
    refine .blank (hw c List.mem_cons_self) ?_
    exact ih (fun d hd => hw d (List.mem_cons_of_mem c hd)) rest us hr hus

theorem Cuts.append_blanks (h : Cuts q ts) (hw : Blanks w) : Cuts (q ++ w) ts := by
  have hblanks : Cuts w [] := by simpa using cuts_nil.blanks_append hw
  simpa using h.append hblanks hw.parted

theorem unitOf_parted (unit : LengthUnit) (h : Parted rest) :
    unitOf (unit.name.toList ++ rest) = (unit, rest) := by
  cases unit with
  | dp | px => rfl
  | bare =>
    change unitOf rest = _
    unfold unitOf
    split
    · exact absurd (h 'd' rfl) (by decide)
    · exact absurd (h 'p' rfl) (by decide)
    · rfl

/-- A word is the longest where nothing makes it longer. -/
theorem Spelt.cuts (h : Spelt w t) : Cuts w [t] := by
  intro rest ts' hp hr
  have hname : Stops isNameChar rest := hp.stops fun _ => .inl
  suffices hcut : Cut (w ++ rest) t rest from hcut.lexed hr
  cases h with
  | @number ds _ h unit =>
    have hunit : Parted rest → Stops (fun c => c.isDigit || c == '.') (unit.name.toList ++ rest) := by
      intro hp
      cases unit with
      | dp | px => exact Stops.cons (by decide)
      | bare =>
        refine hp.stops fun c hc => ?_
        rcases Bool.or_eq_true_iff.1 hc with hdigit | hpoint
        · exact .inl (by simp [isNameChar, Char.isAlphanum, hdigit])
        · exact .inr (beq_iff_eq.1 hpoint)
    have hstops := hunit hp
    rw [List.append_assoc]
    refine cut_number.2 ⟨_, number?_append h (fun c hc => ?_) (fun c hc => ?_), unitOf_parted unit hp⟩
    · exact (Bool.or_eq_false_iff.1 (hstops c hc)).1
    · exact (Bool.or_eq_false_iff.1 (hstops c hc)).2
  | @reference n a hn ha =>
    refine cut_reference.2 ⟨a.toList ++ rest, ?_, name?_append ha hname⟩
    rw [List.append_assoc, List.cons_append]
    exact name?_append hn (Stops.cons (by decide))
  | comparator k => exact cut_comparator.2 rfl
  | sign hc => exact (cut_sign hc).2 rfl
  | mark hn => exact cut_mark.2 ⟨_, rfl, name?_append hn hname⟩

/-! ## Expressions and their beginnings -/

/-- The text is an expression of the rank, and the tree is how it groups. -/
def Spells (k : Rank) (q : List Char) (e : Expr) : Prop := ∃ ts, Cuts q ts ∧ Derives k ts e

theorem Spells.lift (h : Spells k q e) (hlift : ∀ {ts}, Derives k ts e → Derives k' ts e) :
    Spells k' q e := by
  obtain ⟨ts, hq, hd⟩ := h
  exact ⟨ts, hq, hlift hd⟩

theorem Spells.blanks_append (h : Spells k q e) (hw : Blanks w) : Spells k (w ++ q) e := by
  obtain ⟨ts, hq, hd⟩ := h
  exact ⟨ts, hq.blanks_append hw, hd⟩

theorem Spells.append_blanks (h : Spells k q e) (hw : Blanks w) : Spells k (q ++ w) e := by
  obtain ⟨ts, hq, hd⟩ := h
  exact ⟨ts, hq.append_blanks hw, hd⟩

theorem Spells.minus (h : Spells .unary q e) : Spells .unary ('-' :: q) (.neg e) := by
  obtain ⟨ts, hq, hd⟩ := h
  exact ⟨_, hq.cons_sign rfl, .minus hd⟩

theorem Spells.parenthesis (h : Spells .sum q e) : Spells .primary ('(' :: (q ++ [')'])) e := by
  obtain ⟨ts, hq, hd⟩ := h
  have hclosing : Cuts [')'] [.closing] := cuts_nil.cons_sign rfl
  exact ⟨_, (hq.append hclosing (parted_sign (c := ')') rfl)).cons_sign rfl, .parenthesis hd⟩

/-- Behind an operand an operator and another operand. -/
theorem Spells.join {o : Operator} {l r : Expr} (hl : Spells k q l) (hr : Spells k' q' r)
    (hjoin : ∀ {ls rs}, Derives k ls l → Derives k' rs r →
      Derives k (ls ++ .operator o :: rs) (.binary o l r)) :
    Spells k (q ++ signOf o :: q') (.binary o l r) := by
  obtain ⟨ls, hq, hl⟩ := hl
  obtain ⟨rs, hq', hr⟩ := hr
  have hsign := ofSign?_signOf o
  exact ⟨_, hq.append (hq'.cons_sign hsign) (parted_sign hsign), hjoin hl hr⟩

theorem spells_reference {attr : Attribute} (h : Spelt w (.reference n a))
    (ha : Attribute.ofName? a = some attr) : Spells .primary w (.ref ⟨n, attr⟩) :=
  ⟨_, h.cuts, .reference n ha⟩

/-- Where a whole operand is still to come a zero will do. -/
theorem spells_zero : Spells .primary ['0'] (.literal (Decimal.ofParts ['0'] []) .bare) := by
  have hzero : Numeral ['0'] (Decimal.ofParts ['0'] []) := .whole (by simp) (by simp)
  exact ⟨_, (Spelt.number hzero .bare).cuts, .literal _ _⟩

/-- What a reader has gone over. It is an expression of the rank if the reader ended well, and the
beginning of one if it stopped. -/
inductive Passed (k : Rank) (s : List Char) : Except Stop (Expr × List Char) → Prop
  | whole {q rest : List Char} {e : Expr} (hs : s = q ++ rest) (h : Spells k q e) :
      Passed k s (.ok (e, rest))
  | begun {q v rest : List Char} {e : Expr} {expected : List Expectation}
      (hs : s = q ++ rest) (h : Spells k (q ++ v) e) : Passed k s (.error ⟨rest, expected⟩)

theorem Passed.lift {r : Except Stop (Expr × List Char)} (h : Passed k s r)
    (hlift : ∀ {ts e}, Derives k ts e → Derives k' ts e) : Passed k' s r := by
  cases h with
  | whole hs h => exact .whole hs (h.lift hlift)
  | begun hs h => exact .begun hs (h.lift hlift)

theorem Passed.after {r : Except Stop (Expr × List Char)} (h : Passed k s r)
    (hw : ∀ {q e}, Spells k q e → Spells k' (w ++ q) e) : Passed k' (w ++ s) r := by
  cases h with
  | whole hs h =>
    subst hs
    exact .whole (List.append_assoc ..).symm (hw h)
  | @begun q v _ e _ hs h =>
    subst hs
    refine .begun (v := v) (e := e) (List.append_assoc ..).symm ?_
    rw [List.append_assoc]
    exact hw h

theorem Passed.blanks {r : Except Stop (Expr × List Char)} (h : Passed k (skipBlanks s) r) :
    Passed k s r := by
  obtain ⟨w, hw, hs⟩ := exists_blanks s
  rw [hs]
  exact h.after fun hq => hq.blanks_append hw

theorem Passed.within (h : Passed k s (m s)) : Passed k s (within x m s) := by
  unfold Statement.within
  generalize m s = r at h
  cases h with
  | whole hs h => exact .whole hs h
  | begun hs h => exact .begun hs h

theorem passed_nothing (s : List Char) (expected : List Expectation)
    (hlift : ∀ {ts e}, Derives .primary ts e → Derives k ts e) :
    Passed k s (.error ⟨s, expected⟩) :=
  .begun (q := []) rfl (spells_zero.lift hlift)

/-! ## Where a reader of words stops -/

theorem bind_eq_error {m : Reader α} {g : α → Reader β} : (m >>= g) s = .error f ↔
    m s = .error f ∨ ∃ b r, m s = .ok (b, r) ∧ g b r = .error f := by
  cases hm : m s with
  | error stop => simp [bind, StateT.bind, Except.bind, hm]
  | ok y =>
    obtain ⟨b, r⟩ := y
    simp [bind, StateT.bind, Except.bind, hm]

theorem rest_of_within {m : Reader α} (h : within x m s = .error f) :
    ∃ f', m s = .error f' ∧ f'.rest = f.rest := by
  unfold within at h
  split at h
  · cases h
  · rename_i f' hstop
    cases h
    exact ⟨f', hstop, rfl⟩

theorem rest_of_name (h : name s = .error f) : f.rest = s := by
  unfold name at h
  split at h <;> cases h
  rfl

theorem rest_of_nameOf {g : String → Option α} (h : nameOf g s = .error f) : f.rest = s := by
  unfold nameOf at h
  repeat' split at h
  all_goals cases h
  all_goals rfl

theorem rest_of_char (h : char c s = .error f) : f.rest = s := by
  unfold char at h
  repeat' split at h
  all_goals cases h
  all_goals rfl

theorem rest_of_comparison (h : comparison s = .error f) : f.rest = s := by
  unfold comparison at h
  split at h <;> cases h
  rfl

/-- A reference is stopped in before its region, its point or its attribute. -/
theorem term_stop (h : term s = .error f) :
    ∃ q more n, s = q ++ f.rest ∧ Spelt (q ++ more) (.reference n Attribute.left.name) := by
  have hleft := isName_attribute .left
  have hregion : IsName "a" := ⟨'a', [], rfl, by decide, by simp⟩
  unfold term at h
  rcases bind_eq_error.1 h with hname | ⟨n, r, hname, h⟩
  · exact ⟨[], _, "a", (rest_of_name hname).symm, .reference hregion hleft⟩
  have hn := name_eq_ok.1 hname
  have hs := toList_of_name? hn
  have hspelt : Spelt (n.toList ++ '.' :: Attribute.left.name.toList) (.reference n _) :=
    .reference (isName_of_name? hn) hleft
  rcases bind_eq_error.1 h with hchar | ⟨_, r', hchar, h⟩
  · exact ⟨n.toList, _, n, by rw [rest_of_char hchar, ← hs], hspelt⟩
  rcases bind_eq_error.1 h with hattr | ⟨_, _, -, h⟩
  · obtain ⟨f', hattr, hf⟩ := rest_of_within hattr
    refine ⟨n.toList ++ ['.'], Attribute.left.name.toList, n, ?_, by simpa using hspelt⟩
    rw [← hf, rest_of_nameOf hattr, hs, char_eq_ok.1 hchar]
    simp
  · cases h

theorem strengthMark_stop (h : strengthMark s = .error f) : s = '!' :: f.rest := by
  unfold strengthMark at h
  split at h
  · obtain ⟨f', hname, hf⟩ := rest_of_within h
    rw [← hf, rest_of_nameOf hname]
  · cases h

/-! ## Where a reader of expressions stops -/

theorem passed_operand (s : List Char) : Passed .primary s (operand s) := by
  cases h : operand s with
  | ok y =>
    obtain ⟨e, rest⟩ := y
    rcases operand_eq_ok.1 h with ⟨v, unit, ⟨w, hs, hw, -⟩, rfl⟩ | ⟨n, a, attr, ⟨w, hs, hw, -⟩, ha, rfl⟩
    · exact .whole hs ⟨_, hw.cuts, .literal v unit⟩
    · exact .whole hs (spells_reference hw ha)
  | error f =>
    unfold operand at h
    obtain ⟨f', h, hf⟩ := rest_of_within h
    dsimp only at h
    split at h
    · cases h
    · rw [map_eq_pure_bind, bind_eq_error] at h
      rcases h with hterm | ⟨_, _, -, h⟩
      · obtain ⟨q, more, n, hs, hspelt⟩ := term_stop hterm
        rw [hf] at hs
        exact .begun hs (spells_reference hspelt (Attribute.ofName?_name .left))
      · cases h

/-- A sum and the parenthesis that closes it, behind the one that opens it. -/
theorem passed_parenthesis (hi : ∀ s, Passed .sum s (inner s)) (r : List Char) :
    Passed .primary ('(' :: r) ((do
      let e ← inner; blanks; within .closingParenthesis (char ')'); return e : Reader Expr) r) := by
  have hr := hi r
  cases hinner : inner r with
  | error f =>
    rw [bind_eq_error.2 (.inl hinner)]
    rw [hinner] at hr
    cases hr with
    | @begun q v _ e _ hr h =>
      refine .begun (q := '(' :: q) (v := v ++ [')']) (e := e) (by rw [hr]; rfl) ?_
      simpa using h.parenthesis
  | ok y =>
    obtain ⟨e, r'⟩ := y
    rw [hinner] at hr
    obtain ⟨w, hw, hr'⟩ := exists_blanks r'
    cases hr with
    | @whole q _ _ hr h =>
      have hclosed := (h.append_blanks hw).parenthesis
      have hopen : '(' :: r = '(' :: (q ++ w) ++ skipBlanks r' := by
        rw [hr, List.cons_append, List.append_assoc, ← hr']
      rw [bind_of_ok hinner, bind_of_ok (blanks_eq r')]
      cases hchar : char ')' (skipBlanks r') with
      | ok z =>
        obtain ⟨_, rest⟩ := z
        have hrest := char_eq_ok.1 hchar
        rw [bind_of_ok (within_of_ok hchar)]
        exact .whole (by simp [hopen, hrest]) hclosed
      | error f =>
        have hstop : within .closingParenthesis (char ')') (skipBlanks r') =
            .error ⟨f.rest, f.expected ++ [.closingParenthesis]⟩ := by rw [within, hchar]
        rw [bind_eq_error.2 (.inl hstop), rest_of_char hchar]
        exact .begun hopen hclosed

theorem passed_primary (hi : ∀ s, Passed .sum s (inner s)) (s : List Char) :
    Passed .primary s (primary inner s) := by
  rw [← primary_skipBlanks]
  refine Passed.blanks ?_
  by_cases hs : (skipBlanks s).head? = some '('
  · obtain ⟨r, hs⟩ := List.head?_eq_some_iff.1 hs
    rw [primary, skipBlanks_skipBlanks, hs]
    exact passed_parenthesis hi r
  · rw [primary_operand (by rwa [skipBlanks_skipBlanks]), skipBlanks_skipBlanks]
    exact passed_operand _

theorem passed_unary (hi : ∀ s, Passed .sum s (inner s)) (s : List Char) :
    Passed .unary s (unary inner s) := by
  induction s with
  | nil => exact (passed_primary hi []).lift .plain
  | cons c s ih =>
    rw [unary]
    split
    · exact ih.after (w := [c]) fun h => h.blanks_append (by simpa [Blanks])
    · split
      · subst c
        generalize unary inner s = r at ih
        cases ih with
        | @whole q _ _ hs h => exact .whole (q := '-' :: q) (by rw [hs]; rfl) h.minus
        | @begun q _ _ _ _ hs h => exact .begun (q := '-' :: q) (by rw [hs]; rfl) h.minus
      · exact (passed_primary hi (c :: s)).lift .plain

section Chain

variable (hop : Takes op? k) (hn : ∀ s, Passed k' s (next s))
  (hjoin : ∀ {ls rs l r o}, rankOf o = k → Derives k ls l → Derives k' rs r →
    Derives k (ls ++ .operator o :: rs) (.binary o l r))

include hop hn hjoin

/-- Each turn puts an operator and an operand behind an expression, and so makes a longer one. -/
theorem passed_chainTail (h : Spells k q acc) (turns : ℕ) (s : List Char) :
    Passed k (q ++ s) (chainTail op? next turns acc s) := by
  induction turns generalizing q acc s with
  | zero => exact .whole rfl h
  | succ turns ih =>
    obtain ⟨w, hw, hs⟩ := exists_blanks s
    have hq := h.append_blanks hw
    cases ho : op? (skipBlanks s) with
    | none =>
      rw [chainTail_of_none ho]
      exact .whole (by rw [List.append_assoc, ← hs]) hq
    | some y =>
      obtain ⟨o, r⟩ := y
      obtain ⟨hrank, hsign⟩ := (hop _ _ _).1 ho
      have hwhole : q ++ s = q ++ w ++ signOf o :: r := by
        rw [List.append_assoc, ← hsign, ← hs]
      have hr := hn r
      cases hnext : next r with
      | ok z =>
        obtain ⟨e, r'⟩ := z
        rw [chainTail_of_some ho hnext, hwhole]
        rw [hnext] at hr
        cases hr with
        | whole hr he =>
          have hlonger := ih (hq.join he (hjoin hrank)) r'
          rwa [List.append_assoc, List.cons_append, ← hr] at hlonger
      | error f =>
        have hstop : chainTail op? next (turns + 1) acc s = .error f := by
          simp [chainTail, ho, hnext]
        rw [hstop, hwhole]
        rw [hnext] at hr
        cases hr with
        | @begun q' v rest e _ hr he =>
          refine .begun (q := q ++ w ++ signOf o :: q') (v := v) (e := .binary o acc e)
            (by rw [hr]; simp) ?_
          simpa using hq.join he (hjoin hrank)

theorem passed_chain (hlift : ∀ {ts e}, Derives k' ts e → Derives k ts e) (s : List Char) :
    Passed k s (chain op? next s) := by
  have hs := (hn s).lift hlift
  cases hnext : next s with
  | ok y =>
    obtain ⟨e, r⟩ := y
    rw [chain_of_ok hnext]
    rw [hnext] at hs
    cases hs with
    | whole hs h =>
      rw [hs]
      exact passed_chainTail hop hn hjoin h _ _
  | error f =>
    rw [hnext] at hs
    simpa [chain, hnext] using hs

end Chain

theorem passed_sum (d : ℕ) (s : List Char) : Passed .sum s (sum d s) := by
  induction d generalizing s with
  | zero => exact passed_nothing s [] fun h => .term (.factor (.plain h))
  | succ d ih =>
    have hproduct := passed_chain takes_multiplicative? (passed_unary ih) .times .factor
    exact passed_chain takes_additive? hproduct .plus .term s

/-! ## Where the reader of a statement stops -/

variable {target : AttributeRef} {cmp : Comparator} {strength : Strength}

/-- The text is the left side of a statement, with the blanks around it. -/
def Heads (q : List Char) (target : AttributeRef) : Prop :=
  ∃ a, Cuts q [.reference target.region a] ∧ Attribute.ofName? a = some target.attr

/-- The text is the left side of a statement and the comparison. -/
def Opens (q : List Char) (target : AttributeRef) (cmp : Comparator) : Prop :=
  ∃ a, Attribute.ofName? a = some target.attr ∧ ∀ rest ts, Lexed rest ts →
    Lexed (q ++ rest) (.reference target.region a :: .comparator cmp :: ts)

/-- A few characters more make a statement of it. -/
def Begins (q : List Char) : Prop := ∃ more x, Derivable (String.ofList (q ++ more)) x

theorem Heads.append_blanks (h : Heads q target) (hw : Blanks w) : Heads (q ++ w) target := by
  obtain ⟨a, hq, ha⟩ := h
  exact ⟨a, hq.append_blanks hw, ha⟩

theorem Heads.opens (h : Heads q target) (cmp : Comparator) :
    Opens (q ++ cmp.symbol.toList) target cmp := by
  obtain ⟨a, hq, ha⟩ := h
  refine ⟨a, ha, fun rest ts hr => ?_⟩
  rw [List.append_assoc]
  exact hq _ _ (parted_symbol cmp) ((cut_comparator.2 rfl).lexed hr)

theorem Opens.derivable (h : Opens q target cmp) (he : Spells .sum q' e) (hv : Cuts v us)
    (hp : Parted v) (hm : Marked us strength) :
    ∃ x, Derivable (String.ofList (q ++ (q' ++ v))) x := by
  obtain ⟨a, ha, hq⟩ := h
  obtain ⟨ts, hts, hd⟩ := he
  refine ⟨⟨_, target, cmp, e, strength⟩, a, ts, us, ?_, ha, hd, hm, rfl⟩
  rw [String.toList_ofList]
  exact hq _ _ (hts.append hv hp).lexed

theorem Opens.begins (h : Opens q target cmp) (he : Spells .sum (q' ++ v) e) :
    Begins (q ++ q') := by
  obtain ⟨x, hx⟩ := h.derivable he cuts_nil parted_nil .none
  exact ⟨v, x, by simpa using hx⟩

theorem Heads.begins (h : Heads (q ++ v) target) : Begins q := by
  obtain ⟨x, hx⟩ := (h.opens .equal).derivable (spells_zero.lift fun h => .term (.factor (.plain h)))
    cuts_nil parted_nil .none
  exact ⟨v ++ (Comparator.symbol .equal).toList ++ ['0'], x, by simpa using hx⟩

/-- Behind an exclamation mark every strength will do. -/
theorem Opens.begins_mark (h : Opens q target cmp) (he : Spells .sum q' e) :
    Begins (q ++ (q' ++ ['!'])) := by
  have hname : IsName "weak" := ⟨'w', ['e', 'a', 'k'], rfl, by decide, by simp [isNameChar]⟩
  obtain ⟨x, hx⟩ := h.derivable he (Spelt.mark hname).cuts (Stops.cons (by decide)) (.mark rfl)
  exact ⟨"weak".toList, x, by simpa using hx⟩

theorem heads_of_term (h : term (skipBlanks s) = .ok (target, rest)) :
    ∃ q, s = q ++ rest ∧ Heads q target := by
  obtain ⟨w, hw, hs⟩ := exists_blanks s
  obtain ⟨a, ⟨u, hu, hspelt, -⟩, ha⟩ := term_eq_ok.1 h
  exact ⟨w ++ u, by rw [List.append_assoc, ← hu, ← hs], a, hspelt.cuts.blanks_append hw, ha⟩

/-- The mark of a strength, or nothing, and the blanks around it. -/
theorem marked_of_strengthMark (h : strengthMark (skipBlanks s) = .ok (strength, rest)) :
    ∃ v us, s = v ++ skipBlanks rest ∧ Cuts v us ∧ Parted v ∧ Marked us strength := by
  obtain ⟨w, hw, hs⟩ := exists_blanks s
  obtain ⟨w', hw', hrest⟩ := exists_blanks rest
  rcases strengthMark_eq_ok.1 h with ⟨n, ⟨u, hu, hspelt, -⟩, hn⟩ | ⟨-, rfl, rfl⟩
  · refine ⟨w ++ u ++ w', [.mark n], ?_, (hspelt.cuts.blanks_append hw).append_blanks hw', ?_, .mark hn⟩
    · rw [List.append_assoc, ← hrest, List.append_assoc, ← hu, ← hs]
    · cases hspelt with
      | mark => exact (hw.parted.append (Stops.cons (by decide))).append hw'.parted
      | sign hc => cases Token.isSign_of_ofSign? hc
  · rw [skipBlanks_skipBlanks]
    exact ⟨w, [], hs, by simpa using cuts_nil.blanks_append hw, hw.parted, .none⟩

theorem body_stop (h : body d s = .error f) : ∃ q, s = q ++ f.rest ∧ Begins q := by
  unfold body at h
  rw [bind_of_ok (blanks_eq s)] at h
  obtain hterm | ⟨target, r₁, hterm, h⟩ := bind_eq_error.1 h
  · obtain ⟨w, hw, hs⟩ := exists_blanks s
    obtain ⟨f', hterm, hf⟩ := rest_of_within hterm
    obtain ⟨q, more, n, hq, hspelt⟩ := term_stop hterm
    have hhead : Heads (w ++ (q ++ more)) ⟨n, .left⟩ :=
      ⟨_, hspelt.cuts.blanks_append hw, Attribute.ofName?_name .left⟩
    rw [← List.append_assoc] at hhead
    exact ⟨w ++ q, by rw [List.append_assoc, ← hf, ← hq, ← hs], hhead.begins⟩
  obtain ⟨q₁, hs, hhead⟩ := heads_of_term (within_eq_ok.1 hterm)
  obtain ⟨w₁, hw₁, hr₁⟩ := exists_blanks r₁
  replace hhead := hhead.append_blanks hw₁
  rw [hr₁, ← List.append_assoc] at hs
  rw [bind_of_ok (blanks_eq r₁)] at h
  obtain hcmp | ⟨cmp, r₂, hcmp, h⟩ := bind_eq_error.1 h
  · rw [rest_of_comparison hcmp]
    exact ⟨q₁ ++ w₁, hs, Heads.begins (v := []) (by rwa [List.append_nil])⟩
  rw [comparison_eq_ok.1 hcmp, ← List.append_assoc] at hs
  have hopen := hhead.opens cmp
  have hsum := passed_sum d r₂
  obtain hstop | ⟨e, r₃, he, h⟩ := bind_eq_error.1 h
  · rw [hstop] at hsum
    cases hsum with
    | begun hr₂ hq => exact ⟨_, by rw [List.append_assoc, ← hr₂, hs], hopen.begins hq⟩
  rw [he] at hsum
  cases hsum with
  | @whole q _ _ hr₂ hq =>
    obtain ⟨w₃, hw₃, hr₃⟩ := exists_blanks r₃
    rw [bind_of_ok (blanks_eq r₃)] at h
    obtain hmark | ⟨strength, r₄, -, h⟩ := bind_eq_error.1 h
    · refine ⟨_, ?_, hopen.begins_mark (hq.append_blanks hw₃)⟩
      rw [hs, hr₂, hr₃, strengthMark_stop hmark]
      simp
    · cases h

/-- What is left behind a statement is left behind a whole one. -/
theorem body_trailing {x : AttributeRef × Comparator × Expr × Strength}
    (h : body d s = .ok (x, rest)) : ∃ q, s = q ++ rest ∧ Begins q := by
  obtain ⟨r₁, r₂, r₃, r₄, hterm, hcmp, hsum, hmark, rfl⟩ := body_eq_ok.1 h
  obtain ⟨q₁, hs, hhead⟩ := heads_of_term hterm
  obtain ⟨w₁, hw₁, hr₁⟩ := exists_blanks r₁
  have hopen := (hhead.append_blanks hw₁).opens x.2.1
  have hpassed := passed_sum d r₂
  rw [hsum] at hpassed
  obtain ⟨v, us, hr₃, hv, hp, hm⟩ := marked_of_strengthMark hmark
  cases hpassed with
  | @whole q _ _ hr₂ hq =>
    obtain ⟨y, hy⟩ := hopen.derivable hq hv hp hm
    refine ⟨_, ?_, [], y, by rwa [List.append_nil]⟩
    rw [hs, hr₁, comparison_eq_ok.1 hcmp, hr₂, hr₃]
    simp

/-! ## Offsets -/

theorem utf8Length_eq (s : List Char) : utf8Length s = String.utf8Len s := by
  have hsum (n : ℕ) : s.foldl (fun n c => n + c.utf8Size) n = n + String.utf8Len s := by
    induction s generalizing n with
    | nil => rfl
    | cons c s ih => rw [List.foldl_cons, ih, String.utf8Len_cons]; omega
  rw [utf8Length, hsum, Nat.zero_add]

/-- What is gone over is as long as the whole without what is left. -/
theorem utf8Length_sub (q rest : List Char) :
    utf8Length (q ++ rest) - utf8Length rest = (String.ofList q).utf8ByteSize := by
  simp [utf8Length_eq, String.utf8ByteSize_ofList]

/-- The text goes on from here to a statement of the grammar. -/
def Viable (before : String) : Prop := ∃ more x, Derivable (before ++ more) x

theorem viable_of_begins (h : Begins q) : Viable (String.ofList q) := by
  obtain ⟨more, x, hx⟩ := h
  exact ⟨String.ofList more, x, by rwa [← String.ofList_append]⟩

theorem begins_of_read {text t : String} {offset : ℕ} {problem : SyntaxProblem}
    (h : read text = .error (.malformed t offset problem)) :
    t = text ∧ ∃ q rest, text.toList = q ++ rest ∧
      offset = (String.ofList q).utf8ByteSize ∧ Begins q := by
  unfold read at h
  dsimp only at h
  split at h
  · rename_i f hbody
    cases h
    obtain ⟨q, hs, hq⟩ := body_stop hbody
    exact ⟨rfl, q, f.rest, hs, by rw [hs, utf8Length_sub], hq⟩
  · cases h
  · rename_i x rest _ hbody
    cases h
    obtain ⟨q, hs, hq⟩ := body_trailing hbody
    exact ⟨rfl, q, rest, hs, by rw [hs, utf8Length_sub], hq⟩

/-- The offset of a syntax error lies in the text, between two of its characters, and a statement
of the grammar starts like the text before it. -/
theorem text_before_stop_is_viable {text t : String} {offset : ℕ} {problem : SyntaxProblem}
    (h : parse text = .error (.malformed t offset problem)) :
    t = text ∧ offset ≤ text.utf8ByteSize ∧ String.Pos.Raw.IsValid text ⟨offset⟩ ∧
      ∃ before after, text = before ++ after ∧ before.utf8ByteSize = offset ∧ Viable before := by
  have hread : read text = .error (.malformed t offset problem) := by
    cases hread : read text with
    | error err => simpa [parse, hread, bind, Except.bind] using h
    | ok x =>
      rw [parse_of_read hread] at h
      split at h <;> cases h
  obtain ⟨ht, q, rest, hs, hoffset, hq⟩ := begins_of_read hread
  have htext : text = String.ofList q ++ String.ofList rest := by
    rw [← String.ofList_append, ← hs, String.ofList_toList]
  refine ⟨ht, ?_, ?_, _, _, htext, hoffset.symm, viable_of_begins hq⟩
  · rw [hoffset, htext, String.utf8ByteSize_append]
    exact Nat.le_add_right ..
  · exact String.Pos.Raw.isValid_iff_exists_append.2 ⟨_, _, htext, by rw [hoffset]; rfl⟩

/-- The reader stops at a letter that it has no use for, and goes no byte into it. -/
theorem stray_letter_is_viable :
    parse "blue.width == é" =
        .error (.malformed "blue.width == é" 14 (.expected [.operand])) ∧
      14 ≤ "blue.width == é".utf8ByteSize ∧ String.Pos.Raw.IsValid "blue.width == é" ⟨14⟩ ∧
      ∃ before after, "blue.width == é" = before ++ after ∧ before.utf8ByteSize = 14 ∧
        Viable before := by
  have h : parse "blue.width == é" =
      .error (.malformed "blue.width == é" 14 (.expected [.operand])) := by decide +kernel
  exact ⟨h, (text_before_stop_is_viable h).2⟩

end RegionLayout.Statement
