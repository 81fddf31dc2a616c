-- The tokens of a statement. A number with its unit, a reference and the mark of a strength are
-- written without blanks inside, and a token is always the longest that its text starts with. The
-- readers of words and numbers take exactly the longest token.
import RegionLayout.Proofs.Statement.Reading

namespace RegionLayout.Statement

open Number

/-! ## Words -/

/-- A word of a statement. The names in it are as written, whether they are known or not. -/
inductive Token where
  | number (value : Decimal) (unit : LengthUnit)
  | reference (region attr : String)
  | comparator (c : Comparator)
  | operator (o : Operator)
  | opening
  | closing
  | mark (name : String)

namespace Token

/-- The token that a single character spells. -/
def ofSign? : Char → Option Token
  | '+' => some (operator .add)
  | '-' => some (operator .sub)
  | '*' => some (operator .mul)
  | '/' => some (operator .div)
  | '(' => some opening
  | ')' => some closing
  | _ => none

/-- Whether it is written with a single character. -/
def isSign : Token → Bool
  | operator _ | opening | closing => true
  | _ => false

theorem isSign_of_ofSign? {c : Char} {t : Token} (h : ofSign? c = some t) : t.isSign = true := by
  unfold ofSign? at h
  split at h <;> cases h <;> rfl

theorem ofSign?_injective {c d : Char} {t : Token} (hc : ofSign? c = some t)
    (hd : ofSign? d = some t) : c = d := by
  unfold ofSign? at hc hd
  split at hc <;> cases hc <;> split at hd <;> first | rfl | cases hd

/-- Whether the token can start with the character. -/
def Leads : Token → Char → Prop
  | number .., c => c.isDigit = true
  | reference .., c => isNameStart c = true
  | comparator k, c => k.symbol.toList.head? = some c
  | mark _, c => c = '!'
  | t, c => ofSign? c = some t

end Token

/-- The characters that a token is written with. -/
inductive Spelt : List Char → Token → Prop
  | number {ds : List Char} {v : Decimal} (h : Numeral ds v) (unit : LengthUnit) :
      Spelt (ds ++ unit.name.toList) (.number v unit)
  | reference {n a : String} (hn : IsName n) (ha : IsName a) :
      Spelt (n.toList ++ '.' :: a.toList) (.reference n a)
  | comparator (c : Comparator) : Spelt c.symbol.toList (.comparator c)
  | sign {c : Char} {t : Token} (h : Token.ofSign? c = some t) : Spelt [c] t
  | mark {n : String} (hn : IsName n) : Spelt ('!' :: n.toList) (.mark n)

/-- No token longer than `w` starts the text. -/
def Longest (w rest : List Char) : Prop :=
  ∀ w' t, Spelt w' t → w' <+: w ++ rest → w'.length ≤ w.length

/-- The longest token at the start of `s`, and what follows it. -/
def Cut (s : List Char) (t : Token) (rest : List Char) : Prop :=
  ∃ w, s = w ++ rest ∧ Spelt w t ∧ Longest w rest

/-- The tokens that a text is cut into, with blanks before, between and after them. -/
inductive Lexed : List Char → List Token → Prop
  | nil : Lexed [] []
  | blank {c : Char} {s : List Char} {ts : List Token} (hc : isBlank c = true) (h : Lexed s ts) :
      Lexed (c :: s) ts
  | token {w rest : List Char} {t : Token} {ts : List Token} (hw : Spelt w t)
      (hl : Longest w rest) (h : Lexed rest ts) : Lexed (w ++ rest) (t :: ts)

variable {s w r rest rest' : List Char} {c : Char} {v : Decimal} {unit : LengthUnit}
  {n a : String} {t t' : Token} {ts : List Token}

/-! ## First characters -/

theorem Spelt.leads (h : Spelt w t) : ∃ c cs, w = c :: cs ∧ t.Leads c := by
  cases h with
  | number h unit =>
    obtain ⟨c, cs, rfl, hc⟩ := numeral_cons h
    exact ⟨c, cs ++ unit.name.toList, rfl, hc⟩
  | @reference n a hn _ =>
    obtain ⟨c, cs, hn, hc, -⟩ := hn
    exact ⟨c, cs ++ '.' :: a.toList, by rw [hn, List.cons_append], hc⟩
  | comparator c => cases c <;> exact ⟨_, _, rfl, rfl⟩
  | @sign c t h =>
    refine ⟨c, [], rfl, ?_⟩
    unfold Token.ofSign? at h
    split at h <;> cases h <;> rfl
  | @mark n hn => exact ⟨'!', n.toList, rfl, rfl⟩

theorem Cut.leads (h : Cut (c :: s) t rest) : t.Leads c := by
  obtain ⟨w, hs, hw, -⟩ := h
  obtain ⟨d, ds, rfl, hd⟩ := hw.leads
  rwa [(List.cons.inj hs).1]

theorem ofSign?_eq_none (hc : opens c = true) : Token.ofSign? c = none := by
  unfold Token.ofSign?
  split <;> first | exact absurd hc (by decide) | rfl

/-- A token that starts with a digit is a number. -/
theorem Token.Leads.number (h : t.Leads c) (hc : c.isDigit = true) :
    ∃ v unit, t = .number v unit := by
  have hsign := ofSign?_eq_none (c := c) (by simp [opens, hc])
  cases t with
  | number v unit => exact ⟨v, unit, rfl⟩
  | reference => simp [isDigit_of_isNameStart h] at hc
  | comparator k => cases k <;> cases h <;> exact absurd hc (by decide)
  | operator | opening | closing => simp [Token.Leads, hsign] at h
  | mark => cases h; exact absurd hc (by decide)

/-- A token that starts like a name is a reference. -/
theorem Token.Leads.reference (h : t.Leads c) (hc : isNameStart c = true) :
    ∃ n a, t = .reference n a := by
  have hsign := ofSign?_eq_none (c := c) (by simp [opens, hc])
  cases t with
  | number => simp [Token.Leads, isDigit_of_isNameStart hc] at h
  | reference n a => exact ⟨n, a, rfl⟩
  | comparator k => cases k <;> cases h <;> exact absurd hc (by decide)
  | operator | opening | closing => simp [Token.Leads, hsign] at h
  | mark => cases h; exact absurd hc (by decide)

/-- A token that starts with an exclamation mark marks a strength. -/
theorem Token.Leads.mark (h : t.Leads '!') : ∃ n, t = .mark n := by
  cases t with
  | mark n => exact ⟨n, rfl⟩
  | comparator k => cases k <;> cases h
  | _ => cases h

theorem Token.Leads.comparator {k : Comparator} (h : t.Leads c)
    (hc : k.symbol.toList.head? = some c) : ∃ k', t = .comparator k' := by
  cases t with
  | comparator k' => exact ⟨k', rfl⟩
  | _ => cases k <;> cases hc <;> cases h

/-- A character that spells a token by itself starts no other. -/
theorem Token.Leads.sign (h : t.Leads c) (hc : Token.ofSign? c = some t') : t = t' := by
  have hopens : opens c = false := by
    unfold Token.ofSign? at hc
    split at hc <;> first | rfl | cases hc
  cases t with
  | number => simp [opens, show c.isDigit = true from h] at hopens
  | reference => simp [opens, show isNameStart c = true from h] at hopens
  | comparator k => cases k <;> cases h <;> cases hc
  | mark => cases h; cases hc
  | operator | opening | closing => exact Option.some.inj (h.symm.trans hc)

/-! ## The longest token -/

/-- A text that starts with a token has a longest one at its start. -/
theorem exists_cut (h : Spelt w t) : ∃ t' rest', Cut (w ++ rest) t' rest' := by
  induction hn : rest.length using Nat.strong_induction_on generalizing w t rest with
  | _ n ih =>
    by_cases hl : Longest w rest
    · exact ⟨t, rest, w, rfl, h, hl⟩
    · simp only [Longest, not_forall, not_le] at hl
      obtain ⟨w', t', h', ⟨rest', hs⟩, hlt⟩ := hl
      have hlen := congrArg List.length hs
      simp only [List.length_append] at hlen
      rw [← hs]
      exact ih rest'.length (by omega) h' rfl

/-- The longest token has what any token at the start shows to be the only one there. -/
theorem cut_of_spelt (h : Spelt w t)
    (hu : ∀ t' rest', Cut (w ++ rest) t' rest' → t' = t ∧ rest' = rest) :
    Cut (w ++ rest) t rest := by
  obtain ⟨t', rest', hc⟩ : ∃ t' rest', Cut (w ++ rest) t' rest' := exists_cut h
  obtain ⟨rfl, rfl⟩ := hu t' rest' hc
  exact hc

/-- What would make the token longer does not follow it. -/
theorem Longest.not_spelt {u : List Char} (hl : Longest w (u ++ rest)) (hu : u ≠ [])
    (h : Spelt (w ++ u) t) : False := by
  have hle := hl _ _ h (by simp)
  have hpos := List.length_pos_iff.2 hu
  simp only [List.length_append] at hle
  omega

/-! ## Signs and comparisons -/

/-- A character that spells a token by itself is taken alone. -/
theorem cut_sign (hc : Token.ofSign? c = some t) : Cut s t rest ↔ s = c :: rest := by
  have hread {s rest : List Char} (h : Cut s t rest) : s = c :: rest := by
    obtain ⟨w, rfl, hw, -⟩ := h
    cases hw with
    | sign hd => rw [Token.ofSign?_injective hd hc, List.singleton_append]
    | number | reference | comparator | mark => cases Token.isSign_of_ofSign? hc
  refine ⟨hread, ?_⟩
  rintro rfl
  refine cut_of_spelt (.sign hc) fun t' rest' hcut => ?_
  obtain rfl := hcut.leads.sign hc
  exact ⟨rfl, (List.cons.inj (hread hcut)).2.symm⟩

theorem cut_comparator {k : Comparator} :
    Cut s (.comparator k) rest ↔ s = k.symbol.toList ++ rest := by
  have hread {s rest : List Char} {k : Comparator} (h : Cut s (.comparator k) rest) :
      s = k.symbol.toList ++ rest := by
    obtain ⟨w, rfl, hw, -⟩ := h
    cases hw with
    | comparator => rfl
    | sign hc => cases Token.isSign_of_ofSign? hc
  refine ⟨hread, ?_⟩
  rintro rfl
  refine cut_of_spelt (.comparator k) fun t' rest' hcut => ?_
  obtain ⟨k', rfl⟩ : ∃ k', t' = .comparator k' := by
    cases k with
    | equal => exact hcut.leads.comparator (k := .equal) rfl
    | atLeast => exact hcut.leads.comparator (k := .atLeast) rfl
    | atMost => exact hcut.leads.comparator (k := .atMost) rfl
  have hs := hread hcut
  cases k <;> cases k' <;> simp_all [Comparator.symbol]

/-! ## Names -/

theorem isName_append {d : Char} (h : IsName n) (hd : isNameChar d = true) :
    ∃ m, IsName m ∧ m.toList = n.toList ++ [d] := by
  obtain ⟨c, cs, hn, hc, hcs⟩ := h
  refine ⟨n.push d, ⟨c, cs ++ [d], by simp [hn], hc, ?_⟩, by simp⟩
  intro x hx
  rcases List.mem_append.1 hx with hx | hx
  · exact hcs x hx
  · rwa [List.mem_singleton.1 hx]

theorem toList_of_name? (h : name? s = some (n, rest)) : s = n.toList ++ rest := by
  unfold name? at h
  split at h
  · cases h
  · split at h
    · obtain ⟨rfl, rfl⟩ := Prod.mk.inj (Option.some.inj h)
      simp
    · cases h

/-- A name at the end of a longest token goes as far as it can. -/
theorem Longest.stops {u : List Char} {f : String → Token} (hn : IsName n)
    (hf : ∀ m, IsName m → Spelt (u ++ m.toList) (f m)) (hl : Longest (u ++ n.toList) rest) :
    Stops isNameChar rest := by
  intro c hc
  obtain ⟨r, rfl⟩ : ∃ r, rest = c :: r := List.head?_eq_some_iff.1 hc
  by_contra hname
  obtain ⟨m, hm, hlist⟩ := isName_append hn (d := c) (by simpa using hname)
  have hlonger := hf m hm
  rw [hlist, ← List.append_assoc] at hlonger
  exact hl.not_spelt (u := [c]) (by simp) hlonger

theorem cut_reference : Cut s (.reference n a) rest ↔
    ∃ r, name? s = some (n, '.' :: r) ∧ name? r = some (a, rest) := by
  have hread {s rest : List Char} {n a : String} (h : Cut s (.reference n a) rest) :
      ∃ r, name? s = some (n, '.' :: r) ∧ name? r = some (a, rest) := by
    obtain ⟨w, rfl, hw, hl⟩ := h
    cases hw with
    | reference hn ha =>
      have hstops : Stops isNameChar rest := by
        refine Longest.stops (u := n.toList ++ ['.']) (f := .reference n) ha (fun m hm => ?_) ?_
        · simpa using Spelt.reference hn hm
        · simpa using hl
      refine ⟨a.toList ++ rest, ?_, name?_append ha hstops⟩
      rw [List.append_assoc, List.cons_append]
      exact name?_append hn (Stops.cons (by decide))
    | sign hc => cases Token.isSign_of_ofSign? hc
  refine ⟨hread, ?_⟩
  rintro ⟨r, hn, ha⟩
  obtain ⟨c, cs, hlist, hc, -⟩ := isName_of_name? hn
  obtain rfl : s = n.toList ++ '.' :: a.toList ++ rest := by
    rw [toList_of_name? hn, toList_of_name? ha, List.append_assoc, List.cons_append]
  refine cut_of_spelt (.reference (isName_of_name? hn) (isName_of_name? ha)) fun t' rest' hcut => ?_
  obtain ⟨n', a', rfl⟩ : ∃ n' a', t' = .reference n' a' := by
    rw [hlist] at hcut
    exact hcut.leads.reference hc
  obtain ⟨r', hn', ha'⟩ := hread hcut
  simp_all

theorem cut_mark : Cut s (.mark n) rest ↔ ∃ r, s = '!' :: r ∧ name? r = some (n, rest) := by
  have hread {s rest : List Char} {n : String} (h : Cut s (.mark n) rest) :
      ∃ r, s = '!' :: r ∧ name? r = some (n, rest) := by
    obtain ⟨w, rfl, hw, hl⟩ := h
    cases hw with
    | mark hn =>
      have hstops : Stops isNameChar rest :=
        Longest.stops (u := ['!']) (f := .mark) hn (fun m hm => .mark hm) hl
      exact ⟨n.toList ++ rest, rfl, name?_append hn hstops⟩
    | sign hc => cases Token.isSign_of_ofSign? hc
  refine ⟨hread, ?_⟩
  rintro ⟨r, rfl, hn⟩
  obtain rfl := toList_of_name? hn
  refine cut_of_spelt (.mark (isName_of_name? hn)) fun t' rest' hcut => ?_
  obtain ⟨n', rfl⟩ := Token.Leads.mark hcut.leads
  obtain ⟨r', hr', hn'⟩ := hread hcut
  simp_all

/-! ## Numbers -/

theorem numeral_of_number? (h : number? s = some (v, rest)) :
    ∃ ds, s = ds ++ rest ∧ Numeral ds v := by
  unfold number? at h
  dsimp only at h
  split at h
  · cases h
  · rename_i hne
    have hds : ∀ c ∈ s.takeWhile Char.isDigit, c.isDigit = true :=
      fun c hc => List.mem_takeWhile_imp hc
    have hwhole : s.takeWhile Char.isDigit ++ s.dropWhile Char.isDigit = s :=
      List.takeWhile_append_dropWhile
    split at h
    · rename_i r hr
      split at h
      · obtain ⟨rfl, rfl⟩ := Prod.mk.inj (Option.some.inj h)
        exact ⟨_, hwhole.symm, .whole (by simpa using hne) hds⟩
      · rename_i hne'
        obtain ⟨rfl, rfl⟩ := Prod.mk.inj (Option.some.inj h)
        refine ⟨_, ?_, .point (by simpa using hne) hds (by simpa using hne')
          fun c hc => List.mem_takeWhile_imp hc⟩
        rw [List.append_assoc, List.cons_append, List.takeWhile_append_dropWhile, ← hr, hwhole]
    · obtain ⟨rfl, rfl⟩ := Prod.mk.inj (Option.some.inj h)
      exact ⟨_, hwhole.symm, .whole (by simpa using hne) hds⟩

theorem unit_append_of_unitOf (h : unitOf r = (unit, rest)) : r = unit.name.toList ++ rest := by
  unfold unitOf at h
  split at h <;> cases h <;> rfl

/-- No numeral goes on with the letters of a unit. -/
theorem eq_nil_of_numeral {ds u : List Char} (h : Numeral (ds ++ u) v)
    (hu : u <+: unit.name.toList ++ rest) (hunit : unit ≠ .bare) : u = [] := by
  cases u with
  | nil => rfl
  | cons c u =>
    obtain ⟨r, hr⟩ := hu
    have hc := numeral_mem h c (by simp)
    cases unit with
    | bare => exact absurd rfl hunit
    | dp | px => cases (List.cons.inj hr).1; exact absurd hc (by decide)

theorem cut_number : Cut s (.number v unit) rest ↔
    ∃ r, number? s = some (v, r) ∧ unitOf r = (unit, rest) := by
  have hread {s rest : List Char} {v : Decimal} {unit : LengthUnit}
      (h : Cut s (.number v unit) rest) :
      ∃ r, number? s = some (v, r) ∧ unitOf r = (unit, rest) := by
    obtain ⟨w, rfl, hw, hl⟩ := h
    cases hw with
    | @number ds _ hds =>
      refine ⟨unit.name.toList ++ rest, ?_, ?_⟩
      · rw [List.append_assoc]
        refine number?_longest hds fun u v' hv' hu => ?_
        by_cases hunit : unit = .bare
        · subst hunit
          by_contra hne
          obtain ⟨r, rfl⟩ := hu
          have hlonger := Spelt.number hv' .bare
          simp only [LengthUnit.name, String.toList_empty, List.append_nil] at hlonger hl
          exact hl.not_spelt hne hlonger
        · exact eq_nil_of_numeral hv' hu hunit
      · cases unit with
        | dp | px => rfl
        | bare =>
          simp only [LengthUnit.name, String.toList_empty, List.append_nil] at hl
          change unitOf rest = _
          unfold unitOf
          split
          · exact (hl.not_spelt (u := ['d', 'p']) (by simp) (.number hds .dp)).elim
          · exact (hl.not_spelt (u := ['p', 'x']) (by simp) (.number hds .px)).elim
          · rfl
    | sign hc => cases Token.isSign_of_ofSign? hc
  refine ⟨hread, ?_⟩
  rintro ⟨r, hnumber, hunit⟩
  obtain ⟨ds, rfl, hds⟩ := numeral_of_number? hnumber
  obtain rfl := unit_append_of_unitOf hunit
  obtain ⟨c, cs, rfl, hc⟩ := numeral_cons hds
  rw [← List.append_assoc] at hnumber ⊢
  refine cut_of_spelt (.number hds unit) fun t' rest' hcut => ?_
  obtain ⟨v', unit', rfl⟩ := Token.Leads.number hcut.leads hc
  obtain ⟨r', hnumber', hunit'⟩ := hread hcut
  simp_all

/-! ## Cutting a text -/

theorem Cut.suffix (h : Cut s t rest) : rest <:+ s := by
  obtain ⟨w, rfl, -⟩ := h
  exact List.suffix_append w rest

theorem skipBlanks_suffix (s : List Char) : skipBlanks s <:+ s := List.dropWhile_suffix _

/-- No token starts with a blank. -/
theorem Token.Leads.not_blank (h : t.Leads c) : isBlank c = false := by
  cases t with
  | number => exact isBlank_of_opens (by simp [opens, show c.isDigit = true from h])
  | reference => exact isBlank_of_opens (by simp [opens, show isNameStart c = true from h])
  | comparator k => cases k <;> cases h <;> rfl
  | mark => cases h; rfl
  | operator | opening | closing =>
    simp only [Token.Leads, Token.ofSign?] at h
    split at h <;> first | rfl | cases h

theorem isBlank_of_skipBlanks (h : skipBlanks s = c :: r) : isBlank c = false := by
  have hhead := List.head?_dropWhile_not isBlank s
  rw [show s.dropWhile isBlank = c :: r from h] at hhead
  simpa using hhead

theorem lexed_skipBlanks : Lexed (skipBlanks s) ts ↔ Lexed s ts := by
  induction s with
  | nil => rfl
  | cons c s ih =>
    cases hc : isBlank c with
    | false => rw [skipBlanks_cons hc]
    | true =>
      rw [skipBlanks, List.dropWhile_cons_of_pos hc]
      refine ih.trans ⟨.blank hc, fun h => ?_⟩
      generalize hs : c :: s = s' at h
      cases h with
      | nil => cases hs
      | blank _ h => rwa [(List.cons.inj hs).2]
      | token hw hl h =>
        obtain ⟨d, ds, rfl, hd⟩ := hw.leads
        rw [← (List.cons.inj hs).1] at hd
        exact absurd hc (by simp [hd.not_blank])

theorem lexed_nil : Lexed s [] ↔ skipBlanks s = [] := by
  rw [← lexed_skipBlanks]
  constructor
  · intro h
    generalize hs : skipBlanks s = s' at h
    cases h with
    | nil => rfl
    | blank hc _ => exact absurd hc (by simp [isBlank_of_skipBlanks hs])
  · intro h
    rw [h]
    exact .nil

theorem lexed_cons : Lexed s (t :: ts) ↔ ∃ rest, Cut (skipBlanks s) t rest ∧ Lexed rest ts := by
  rw [← lexed_skipBlanks]
  constructor
  · intro h
    generalize hs : skipBlanks s = s' at h ⊢
    cases h with
    | blank hc _ => exact absurd hc (by simp [isBlank_of_skipBlanks hs])
    | token hw hl h => exact ⟨_, ⟨_, rfl, hw, hl⟩, h⟩
  · rintro ⟨rest, ⟨w, hs, hw, hl⟩, h⟩
    rw [hs]
    exact .token hw hl h

end RegionLayout.Statement
