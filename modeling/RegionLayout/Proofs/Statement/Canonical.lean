-- The canonical text of a relation over doubles reads back as the same relation. What is written
-- is a sum of products in the order of the attributes, with the units and the density of the
-- first text gone: numbers are bare or in pixels, so the second density is never asked. A term
-- that is left in a relation is not so small that reading it back would take it out again.
import RegionLayout.Proofs.Statement.Lowering
import RegionLayout.Proofs.Statement.Reading

namespace RegionLayout

open Number

/-! ## The terms that are left -/

/-- Of finite coefficients that stay, none is a zero, and both tests let each stand. -/
structure Lasting (c : Float) : Prop where
  regular : Number.IsRegular c
  cancels : Scalar.cancels c = false
  survives : Scalar.survives c = true

theorem lasting_one : Lasting 1 := ⟨⟨_, _, _, _, parts_one⟩, by decide +kernel, by decide +kernel⟩

theorem Stays.lasting {c : Float} (h : Stays c) (hc : c.isFinite = true) : Lasting c := by
  cases isFinite_iff.1 hc with
  | inl hz =>
    rcases h with h | h
    · exact absurd h (by simp [hz.cancels])
    · exact absurd h (by simp [hz.survives])
  | inr hr =>
    have heq := hr.survives_eq
    rcases h with h | h
    · exact ⟨hr, h, by simp [heq, h]⟩
    · exact ⟨hr, by simpa [h] using heq.symm, h⟩

/-! ## What a text spells -/

open Statement

/-- A text of a shape spells a linear form, whatever the density. -/
def Spells (shape : List Char → Expr → Prop) (s : List Char) (form : LinearExpr Float) : Prop :=
  ∃ e, shape s e ∧ nonlinear? e = none ∧ ∀ density, e.linear density = .ok form

section Linear

variable {e e' : Expr} {f g : LinearExpr Float} {density : Float}

theorem Expr.linear_neg (h : e.linear density = .ok f) :
    (Expr.neg e).linear density = .ok (f.scale (-1)) := by
  simp [Expr.linear, h, bind, Except.bind, pure, Except.pure]

theorem Expr.linear_add (h : e.linear density = .ok f) (h' : e'.linear density = .ok g) :
    (Expr.binary .add e e').linear density = .ok (f.add g 1) := by
  simp [Expr.linear, h, h', bind, Except.bind, pure, Except.pure]

theorem Expr.linear_mul_constant {k : Float} (h : e.linear density = .ok f)
    (hf : f.isConstant = false) (h' : e'.linear density = .ok (.ofConstant k)) :
    (Expr.binary .mul e e').linear density = .ok (f.scale k) := by
  simp only [Expr.linear, h, h', bind, Except.bind, hf]
  rfl

end Linear

/-- A written number spells a constant where its unit is one pixel. -/
theorem spells_number {x : Float} {s : List Char} (h : Written x s) {unit : LengthUnit}
    (hu : unit ≠ .dp) : ∃ e, Factor (s ++ unit.name.toList) e ∧ nonlinear? e = none ∧
      e.isConstant = true ∧ ∀ density, e.linear density = .ok (.ofConstant x) := by
  have hscale (density : Float) : unit.scale density = 1 := by
    cases unit with
    | dp => exact absurd rfl hu
    | px | bare => rfl
  have hliteral (v : Decimal) (density : Float) :
      (Expr.literal v unit).linear density = .ok (.ofConstant (v.toFloat * 1)) := by
    rw [← hscale density]
    rfl
  cases h with
  | @plain ds v h hx =>
    refine ⟨_, .number h unit, rfl, rfl, fun density => ?_⟩
    rw [hliteral, hx]
  | @minus ds v h hx =>
    refine ⟨_, .minus (.number h unit), rfl, rfl, fun density => ?_⟩
    rw [Expr.linear_neg (hliteral v density), ← hx]
    rfl

/-- One product that spells one term, with a coefficient equal to the written one. -/
structure OneTerm (t : AttributeRef × Float) (form : LinearExpr Float) (c : Float) : Prop where
  entries : form.terms.entries = [(t.1, c)]
  equal : (t.2 == c) = true
  lasting : Lasting c
  constant : IsZero form.constant

/-- A term of a sum as it is written. -/
def LinearExpr.termText {R : Type} [Scalar R] : AttributeRef × R → String
  | (r, c) => if c == 1 then r.text else r.text ++ " * " ++ Scalar.text c

/-- The constant of a sum as it is written, unless it is a zero beside terms. -/
def LinearExpr.constantText {R : Type} [Scalar R] (e : LinearExpr R) : List String :=
  if !(e.constant == 0) || e.terms.isEmpty then [Scalar.text e.constant ++ "px"] else []

theorem LinearExpr.text_eq {R : Type} [Scalar R] (e : LinearExpr R) :
    e.text = " + ".intercalate (e.terms.entries.map termText ++ e.constantText) := by
  have hempty : (e.terms.entries.map termText).isEmpty = e.terms.isEmpty := List.isEmpty_map
  unfold constantText
  rw [← hempty]
  rfl

/-- A coefficient of one is not written, and any other is a second factor. -/
theorem spells_term {t : AttributeRef × Float} (hn : IsName t.1.region) (hc : Lasting t.2) :
    ∃ form c, Spells Product (LinearExpr.termText t).toList form ∧ OneTerm t form c := by
  obtain ⟨r, k⟩ := t
  by_cases hone : (k == 1) = true
  · rw [show LinearExpr.termText (r, k) = r.text from if_pos hone]
    exact ⟨.ofRef r, 1, ⟨.ref r, .factor (.ref hn), rfl, fun _ => rfl⟩, rfl, hone, lasting_one,
      isZero_zero⟩
  · -- the attribute alone has the coefficient one and the constant zero, and both are scaled
    rw [show LinearExpr.termText (r, k) = r.text ++ " * " ++ Scalar.text k from if_neg hone]
    obtain ⟨e, hfactor, hlinear, hconst, hform⟩ :=
      spells_number hc.regular.written (show LengthUnit.bare ≠ .dp by decide)
    have htext : (r.text ++ " * " ++ Scalar.text k).toList = r.text.toList ++
        ' ' :: '*' :: ' ' :: ((Scalar.text k).toList ++ LengthUnit.bare.name.toList) := by
      simp [LengthUnit.name]
    refine ⟨(LinearExpr.ofRef r).scale k, k, ⟨.binary .mul (.ref r) e, ?_, ?_, ?_⟩, ?_, ?_, hc, ?_⟩
    · rw [htext]
      exact .times (.ref hn) hfactor
    · simp [nonlinear?, hlinear, hconst]
    · exact fun density => Expr.linear_mul_constant rfl rfl (hform density)
    · have hone : 1 * k = k := hc.regular.one_mul
      change [(r, 1 * k)].filter (fun t => Scalar.survives t.2) = _
      rw [hone]
      exact List.filter_cons_of_pos hc.survives
    · exact hc.regular.beq_self
    · exact hc.regular.zero_mul

theorem Spells.plus {s s' : List Char} {f g : LinearExpr Float} (h : Spells Statement.Sum s f)
    (h' : Spells Product s' g) :
    Spells Statement.Sum (s ++ ' ' :: '+' :: ' ' :: s') (f.add g 1) := by
  obtain ⟨e, hs, hl, he⟩ := h
  obtain ⟨e', hs', hl', he'⟩ := h'
  refine ⟨_, .plus hs hs', by simp [nonlinear?, hl, hl'], fun density => ?_⟩
  exact Expr.linear_add (he density) (he' density)

theorem Spells.sum {s : List Char} {f : LinearExpr Float} (h : Spells Product s f) :
    Spells Statement.Sum s f := by
  obtain ⟨e, hs, hl, he⟩ := h
  exact ⟨e, .product hs, hl, he⟩

/-! ## Sums of terms -/

/-- The same attributes with equal coefficients. -/
def SameTerms (l l' : List (AttributeRef × Float)) : Prop :=
  List.Forall₂ (fun s t => s.1 = t.1 ∧ (s.2 == t.2) = true) l l'

theorem SameTerms.keys {l l' : List (AttributeRef × Float)} (h : SameTerms l l') :
    l.map Prod.fst = l'.map Prod.fst := by
  induction h with
  | nil => rfl
  | cons h _ ih => rw [List.map_cons, List.map_cons, h.1, ih]

theorem SameTerms.all_zip {l l' : List (AttributeRef × Float)} (h : SameTerms l l') :
    (l.zip l').all (fun (s, t) => s.1 == t.1 && s.2 == t.2) = true := by
  induction h with
  | nil => rfl
  | cons h _ ih => simp [h.1, h.2, ih]

theorem LinearExpr.same_of_sameTerms {e f : LinearExpr Float}
    (h : SameTerms e.terms.entries f.terms.entries) (hk : (e.constant == f.constant) = true) :
    e.same f = true := by
  have hsize : e.terms.size = f.terms.size := h.length_eq
  simp only [same, hsize, BEq.rfl, h.all_zip, hk, Bool.and_self]

theorem SortedMap.alterIn_of_last {κ α : Type} [Ord κ] [Std.TransOrd κ] {l : List (κ × α)} {k : κ}
    {f : Option α → Option α} {a : α} (h : ∀ e ∈ l, compare e.1 k = .lt) (hf : f none = some a) :
    SortedMap.alterIn k f l = l ++ [(k, a)] := by
  induction l with
  | nil => simp [SortedMap.alterIn, hf]
  | cons e l ih =>
    rw [List.forall_mem_cons] at h
    simp [SortedMap.alterIn, Std.OrientedCmp.gt_of_lt h.1, ih h.2]

/-- A term whose attribute comes after all others stands last in the sum. -/
theorem entries_add_of_last {t : AttributeRef × Float} {f g : LinearExpr Float} {c : Float}
    (h : OneTerm t g c) (hl : ∀ e ∈ f.terms.entries, compare e.1 t.1 = .lt) :
    (f.add g 1).terms.entries = f.terms.entries ++ [(t.1, c)] := by
  have hsum : 0 + c * 1 = c := by
    rw [h.lasting.regular.mul_one, h.lasting.regular.zero_add isZero_zero]
  unfold LinearExpr.add
  dsimp only
  rw [h.entries, List.foldl_cons, List.foldl_nil]
  apply SortedMap.alterIn_of_last hl
  change (if Scalar.cancels (0 + c * 1) then none else some (0 + c * 1)) = some c
  rw [hsum, if_neg (by simp [h.lasting.cancels])]

/-- The terms of a form, in the order of their attributes, spell a form with the same terms and a
constant of zero. The last term is read last, so the sum is built from its end. -/
theorem spells_terms {l : List (AttributeRef × Float)} (hne : l ≠ [])
    (hrise : l.Pairwise fun a b => (compare a.1 b.1).isLT = true)
    (hl : ∀ t ∈ l, IsName t.1.region ∧ Lasting t.2) : ∃ form,
      Spells Statement.Sum (" + ".intercalate (l.map LinearExpr.termText)).toList form ∧
      SameTerms l form.terms.entries ∧ IsZero form.constant := by
  induction l using List.reverseRecOn with
  | nil => exact absurd rfl hne
  | append_singleton l t ih =>
    obtain ⟨hn, hc⟩ := hl t (by simp)
    obtain ⟨g, c, hg, hone⟩ := spells_term hn hc
    by_cases hnil : l = []
    · subst hnil
      refine ⟨g, ?_, ?_, hone.constant⟩
      · simpa using hg.sum
      · rw [hone.entries]
        exact .cons ⟨rfl, hone.equal⟩ .nil
    · obtain ⟨hrise', -, hlast⟩ := List.pairwise_append.1 hrise
      obtain ⟨f, hf, hsame, hzero⟩ := ih hnil hrise' fun t ht => hl t (by simp [ht])
      refine ⟨f.add g 1, ?_, ?_, ?_⟩
      · rw [List.map_append, String.intercalate_append_of_ne_nil (by simpa using hnil) (by simp)]
        have h := hf.plus hg
        simpa using h
      · -- the keys read so far are those written so far, and the next one is above them
        have hbelow : ∀ e ∈ f.terms.entries, compare e.1 t.1 = .lt := by
          intro e he
          have hkey : e.1 ∈ l.map Prod.fst := hsame.keys ▸ List.mem_map_of_mem he
          obtain ⟨s, hs, heq⟩ := List.mem_map.1 hkey
          rw [← heq]
          exact SortedMap.isLT_iff.1 (hlast s hs t (List.mem_singleton_self t))
        rw [entries_add_of_last hone hbelow]
        exact List.rel_append hsame (.cons ⟨rfl, hone.equal⟩ .nil)
      · change IsZero (f.constant + g.constant * 1)
        rw [hone.constant.mul_one]
        exact hzero.add hone.constant

/-- A linear form reads back from its text. -/
theorem spells_text {e : LinearExpr Float}
    (he : ∀ t ∈ e.terms.entries, IsName t.1.region ∧ Lasting t.2)
    (hk : e.constant.isFinite = true) :
    ∃ form, Spells Statement.Sum e.text.toList form ∧ e.same form = true := by
  obtain ⟨k, hfactor, hlinear, -, hform⟩ :=
    spells_number (written hk) (show LengthUnit.px ≠ .dp by decide)
  have hconst : Spells Product (Scalar.text e.constant ++ "px").toList (.ofConstant e.constant) :=
    ⟨k, .factor (by simpa [LengthUnit.name] using hfactor), hlinear, hform⟩
  rw [LinearExpr.text_eq]
  by_cases hnil : e.terms.entries = []
  · have hempty : e.terms.isEmpty = true := List.isEmpty_iff.2 hnil
    have hwritten : e.constantText = [Scalar.text e.constant ++ "px"] := if_pos (by simp [hempty])
    refine ⟨_, ?_, LinearExpr.same_of_sameTerms (f := .ofConstant e.constant) ?_ ?_⟩
    · rw [hnil, hwritten, List.map_nil, List.nil_append, String.intercalate_singleton]
      exact hconst.sum
    · rw [hnil]
      exact .nil
    · exact (isFinite_iff.1 hk).elim (fun hz => hz.beq hz) fun hr => hr.beq_self
  · have hempty : e.terms.isEmpty = false := by
      simpa [SortedMap.isEmpty] using hnil
    obtain ⟨f, hf, hsame, hzero⟩ := spells_terms hnil e.terms.rising he
    by_cases hz : (e.constant == 0) = true
    · have hwritten : e.constantText = [] :=
        if_neg (by simp [hempty, show (e.constant == 0) = true from hz])
      refine ⟨f, ?_, LinearExpr.same_of_sameTerms hsame ((isZero_of_beq hz).beq hzero)⟩
      rwa [hwritten, List.append_nil]
    · have hregular : Number.IsRegular e.constant := by
        refine (isFinite_iff.1 hk).resolve_left fun h => hz (h.beq isZero_zero)
      have hsum : f.constant + e.constant * 1 = e.constant := by
        rw [hregular.mul_one, hregular.zero_add hzero]
      have hwritten : e.constantText = [Scalar.text e.constant ++ "px"] := if_pos (by simp [hz])
      refine ⟨f.add (.ofConstant e.constant) 1, ?_, LinearExpr.same_of_sameTerms hsame ?_⟩
      · rw [hwritten, String.intercalate_append_of_ne_nil (by simpa using hnil) (by simp),
          String.intercalate_singleton, String.toList_append, String.toList_append]
        simpa using hf.plus hconst
      · change (e.constant == f.constant + e.constant * 1) = true
        rw [hsum]
        exact hregular.beq_self

/-! ## Relations -/

theorem Relation.toList_canonical (r : Relation Float) :
    r.canonical.toList = layOut r.target r.comparator r.rhs.text.toList r.strength := by
  have htext : r.canonical = r.target.text ++ " " ++ r.comparator.symbol ++ " " ++ r.rhs.text ++
      mark r.strength := by
    unfold Relation.canonical mark
    cases r.strength <;> rfl
  rw [htext]
  simp [layOut]

/-- Where a relation was read, its attributes are named, its target is no measured size, and its
terms are those that its expression left. -/
theorem Relation.facts_of_parse {text : String} {density : Float} {r : Relation Float}
    (h : Relation.parse text density = .ok r) : IsName r.target.region ∧
      r.target.attr.isIntrinsic = false ∧
      ∀ t ∈ r.rhs.terms.entries, IsName t.1.region ∧ Stays t.2 := by
  unfold Relation.parse at h
  cases hs : Statement.parse text with
  | error reason => simp [hs, bind, Except.bind] at h
  | ok s =>
    simp only [hs, bind, Except.bind, Statement.relation] at h
    obtain ⟨hread, hsupported⟩ := read_of_parse hs
    obtain ⟨htarget, hnamed⟩ := named_of_read hread
    cases hl : s.expr.linear density with
    | error reason => simp [hl] at h
    | ok rhs =>
      simp only [hl] at h
      obtain rfl := Except.ok.inj h
      refine ⟨htarget, ?_, fun t ht => ?_⟩
      · have htarget : s.target.attr.isIntrinsic ≠ true := by
          intro hi
          simp [unsupported?, hi] at hsupported
        exact Bool.eq_false_iff.2 htarget
      · obtain ⟨hmem, hstays⟩ := Expr.linear_over (.inl lasting_one.cancels) hl t ht
        exact ⟨hnamed _ hmem, hstays⟩

/-- Where a relation with finite numbers was read, its canonical text reads at every density, and
what is read is the same relation. -/
theorem canonical_reads_back {text : String} {density : Float} {r : Relation Float}
    (h : Relation.parse text density = .ok r)
    (hc : ∀ c ∈ r.rhs.terms.values, c.isFinite = true) (hk : r.rhs.constant.isFinite = true)
    (other : Float) :
    ∃ r', Relation.parse r.canonical other = .ok r' ∧ r.same r' = true := by
  obtain ⟨htarget, hintrinsic, hterms⟩ := Relation.facts_of_parse h
  have hlasting : ∀ t ∈ r.rhs.terms.entries, IsName t.1.region ∧ Lasting t.2 := by
    intro t ht
    obtain ⟨hn, hs⟩ := hterms t ht
    exact ⟨hn, hs.lasting (hc t.2 (List.mem_map_of_mem ht))⟩
  obtain ⟨form, ⟨e, hsum, hlinear, hform⟩, hsame⟩ := spells_text hlasting hk
  have hparse := parse_written htarget hintrinsic hsum hlinear r.toList_canonical
  refine ⟨{ r with source := r.canonical, rhs := form }, ?_, ?_⟩
  · simp only [Relation.parse, hparse, bind, Except.bind, Statement.relation, hform]
  · simp [Relation.same, hsame]

/-- A coefficient and a constant below zero and a strength, read at density two and a half and
read back at density one. -/
theorem canonical_reads_back_of_panel : ∃ r : Relation Float,
    Relation.parse "panel.width <= 0.5 * (parent.width - 3dp) - rail.x * 1.25 !strong" 2.5 = .ok r ∧
    r.canonical = "panel.width <= parent.width * 0.5 + rail.left * -1.25 + -3.75px !strong" ∧
    ∃ r', Relation.parse r.canonical 1 = .ok r' ∧ r.same r' = true := by
  let r : Relation Float :=
    { source := "panel.width <= 0.5 * (parent.width - 3dp) - rail.x * 1.25 !strong"
      target := ⟨"panel", .width⟩
      comparator := .atMost
      rhs := ⟨⟨[(⟨"parent", .width⟩, 0.5), (⟨"rail", .left⟩, -1.25)], by decide⟩, -3.75⟩
      strength := .strong }
  have h : Relation.parse r.source 2.5 = .ok r := by decide +kernel
  have hfinite : ∀ c ∈ r.rhs.terms.values, c.isFinite = true := by decide +kernel
  exact ⟨r, h, by decide +kernel, canonical_reads_back h hfinite (by decide +kernel) 1⟩

end RegionLayout
