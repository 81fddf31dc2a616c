-- What is left of the attributes that a statement mentions. Terms that cancel, or are multiplied
-- by zero, are gone from its relation, and a batch makes variables for what is left alone. So an
-- attribute that the statement mentions has a variable afterwards just when the value of the
-- expression depends on it, or when it has one on other grounds.
import RegionLayout.Proofs.Model.Courses
import RegionLayout.Proofs.Statement.Linear
import RegionLayout.Proofs.Statement.Lowering

namespace RegionLayout

/-! ## Terms that are left -/

namespace LinearExpr

variable {e : LinearExpr Rat} {ρ : AttributeRef → Rat} {ref : AttributeRef}

/-- Only a zero is so small that it does not stay. -/
theorem stays_iff {c : Rat} : Stays c ↔ c ≠ 0 := by
  simp [Stays, Scalar.cancels, Scalar.survives]

/-- The value moves with an attribute at the rate of its coefficient. -/
theorem eval_update (e : LinearExpr Rat) (ref : AttributeRef) (x : Rat) :
    e.eval (Function.update ρ ref x) = e.eval ρ + e.coefficient ref * (x - ρ ref) := by
  -- the term of the attribute is taken out of the sum, and the others do not see the change
  have hsplit (τ : AttributeRef → Rat) : (e.terms.entries.map fun t => t.2 * τ t.1).sum =
      ((e.terms.erase ref).entries.map fun t => t.2 * τ t.1).sum + e.coefficient ref * τ ref := by
    rw [SortedMap.erase, SortedMap.sum_alter (fun r c => c * τ r), coefficient]
    cases e.terms.get? ref <;> simp
  have hrest : ((e.terms.erase ref).entries.map fun t => t.2 * Function.update ρ ref x t.1) =
      (e.terms.erase ref).entries.map fun t => t.2 * ρ t.1 := by
    refine List.map_congr_left fun t ht => ?_
    have hget := (SortedMap.get?_eq_some_iff _).2 ht
    rw [SortedMap.get?_erase] at hget
    split at hget
    · cases hget
    · rw [Function.update_of_ne ‹_›]
  rw [eval, eval, hsplit, hsplit ρ, hrest, Function.update_self]
  ring

/-- A term is left just when the value depends on its attribute. -/
theorem Over.mem_keys_iff {refs : List AttributeRef} (h : Over refs e.terms) :
    ref ∈ e.terms.keys ↔ ∃ ρ x, e.eval (Function.update ρ ref x) ≠ e.eval ρ := by
  rw [SortedMap.mem_keys]
  constructor
  · rintro ⟨c, hc⟩
    have hstays := (h _ ((SortedMap.get?_eq_some_iff _).1 hc)).2
    refine ⟨fun _ => 0, 1, fun heq => stays_iff.1 hstays ?_⟩
    have hcoef : e.coefficient ref = c := by rw [coefficient, hc, Option.getD_some]
    rw [eval_update, hcoef] at heq
    linarith
  · rintro ⟨ρ, x, hne⟩
    by_contra hno
    refine hne ?_
    have hcoef : e.coefficient ref = 0 := by
      rw [coefficient]
      cases hc : e.terms.get? ref with
      | none => rfl
      | some c => exact absurd ⟨c, hc⟩ hno
    rw [eval_update, hcoef]
    ring

end LinearExpr

/-! ## Attributes that a statement needs -/

/-- The attribute is what the statement is about, or the value of the expression depends on it. -/
def Statement.Needs (density : Rat) (s : Statement) (ref : AttributeRef) : Prop :=
  ref = s.target ∨
    ∃ ρ x, s.expr.value density (Function.update ρ ref x) ≠ s.expr.value density ρ

/-- The relation of a statement has left what the statement needs. -/
theorem Statement.mem_refs_iff {text : String} {s : Statement} {density : Rat} {r : Relation Rat}
    {ref : AttributeRef} (hs : Statement.parse text = .ok s) (hr : s.relation density = .ok r) :
    ref ∈ r.refs ↔ s.Needs density ref := by
  have hlin := Expr.linearized_linear density (Statement.nonlinear?_of_parse hs)
  unfold Statement.relation at hr
  cases hl : s.expr.linear density with
  | error reason =>
    rw [hl] at hr
    cases hr
  | ok l =>
    rw [hl] at hr hlin
    obtain rfl := Except.ok.inj hr
    cases hlin with
    | linear _ hv _ _ =>
      have hover := Expr.linear_over (LinearExpr.stays_iff.2 one_ne_zero) hl
      rw [Relation.refs, List.mem_cons, hover.mem_keys_iff, Needs]
      simp only [hv]

/-- A batch that can be read at a density is one of statements, and has left what they need. -/
theorem exists_statements {texts : List String} {density : Rat} {rs : List (Relation Rat)}
    (h : texts.mapM (Relation.parse · density) = .ok rs) :
    ∃ ss, texts.mapM Statement.parse = .ok ss ∧
      ∀ ref, (∃ r ∈ rs, ref ∈ r.refs) ↔ ∃ s ∈ ss, s.Needs density ref := by
  rw [mapM_eq_ok_iff] at h
  simp only [mapM_eq_ok_iff]
  induction h with
  | nil => exact ⟨[], .nil, by simp⟩
  | @cons text r texts rs hr _ ih =>
    obtain ⟨ss, hss, hneeds⟩ := ih
    cases hs : Statement.parse text with
    | error e =>
      simp [Relation.parse, hs, Bind.bind, Except.bind] at hr
    | ok s =>
      simp only [Relation.parse, hs, Bind.bind, Except.bind] at hr
      refine ⟨s :: ss, .cons hs hss, fun ref => ?_⟩
      simp only [List.exists_mem_cons_iff, hneeds, Statement.mem_refs_iff hs hr]

namespace Model

variable {may : Command Rat → Except LayoutError Unit → Prop} {log : List (Command Rat)}
  {m m' : Model Rat} {texts : List String}

/-- After a batch that was accepted a model has the regions and the attributes that it had before,
those that the statements need, and the edges and sizes of their regions. What a statement only
mentions adds nothing. -/
theorem known_after_batch_iff_needed (h : Course may log m)
    (hok : addConstraints (some texts) m = (.ok (), m')) :
    ∃ ss, texts.mapM Statement.parse = .ok ss ∧
      (∀ name, (∃ g, m'.geometry name = .ok g) ↔ (∃ g, m.geometry name = .ok g) ∨
        ∃ s ∈ ss, ∃ ref, s.Needs m.density ref ∧ ref.region = name) ∧
      ∀ ref, m'.Knows ref ↔ m.Knows ref ∨ (∃ s ∈ ss, s.Needs m.density ref) ∨
        ref.attr.isPrimary = true ∧
          ∃ s ∈ ss, ∃ other, s.Needs m.density other ∧ other.region = ref.region := by
  obtain ⟨h', hknows⟩ := h.charted.knows_iff_asked hok
  cases hparse : texts.mapM (Relation.parse · m.density) with
  | error e =>
    rw [addConstraints_of_unread hparse] at hok
    cases hok
  | ok rs =>
    obtain ⟨ss, hss, hneeds⟩ := exists_statements hparse
    have hnamed (name : String) : (∃ r ∈ rs, ∃ other ∈ r.refs, other.region = name) ↔
        ∃ s ∈ ss, ∃ other, s.Needs m.density other ∧ other.region = name := by
      constructor
      · rintro ⟨r, hr, other, hother, hn⟩
        obtain ⟨s, hs, hneed⟩ := (hneeds other).1 ⟨r, hr, hother⟩
        exact ⟨s, hs, other, hneed, hn⟩
      · rintro ⟨s, hs, other, hneed, hn⟩
        obtain ⟨r, hr, hother⟩ := (hneeds other).2 ⟨s, hs, hneed⟩
        exact ⟨r, hr, other, hother, hn⟩
    have hasked (ref : AttributeRef) : m.Asked (some texts) ref ↔
        (∃ s ∈ ss, s.Needs m.density ref) ∨ ref.attr.isPrimary = true ∧
          ∃ s ∈ ss, ∃ other, s.Needs m.density other ∧ other.region = ref.region := by
      rw [← hneeds, ← hnamed, ← Demand.asks_ofRelations, asked_iff hparse]
    have hall (ref : AttributeRef) := (hknows ref).trans (or_congr_right (hasked ref))
    refine ⟨ss, hss, fun name => ?_, hall⟩
    rw [geometry_isOk_iff, geometry_isOk_iff, h'.region_iff, h.charted.region_iff, hall]
    refine or_congr_right ⟨?_, fun hn => .inr ⟨rfl, hn⟩⟩
    rintro (⟨s, hs, hneed⟩ | ⟨-, hn⟩)
    · exact ⟨s, hs, _, hneed, rfl⟩
    · exact hn

/-- One edge is at twice another and five. -/
def twiceAnEdge : Statement where
  text := "a.left == b.left * 2 + 5"
  target := ⟨"a", .left⟩
  comparator := .equal
  expr := .binary .add (.binary .mul (.ref ⟨"b", .left⟩) (.literal ⟨2, 0⟩ .bare))
    (.literal ⟨5, 0⟩ .bare)
  strength := .required

theorem needs_twiceAnEdge (density : Rat) : twiceAnEdge.Needs density ⟨"b", .left⟩ := by
  refine .inr ⟨fun _ => 0, 1, ?_⟩
  norm_num [twiceAnEdge, Expr.value, Operator.apply, Scalar.ofDecimal]

theorem other_edge_is_known_after_batch : ∃ m m' : Model Rat, Course (fun _ _ => True) [] m ∧
    addConstraints (some [twiceAnEdge.text]) m = (.ok (), m') ∧
      (∃ g, m'.geometry "b" = .ok g) ∧ m'.Knows ⟨"b", .width⟩ := by
  have hopened := course_opening fun _ _ => True
  have hok := eq_of_answer (p := addConstraints (some [twiceAnEdge.text])
    (opening 1 100 (blank (1 : Rat) 100)).2) (x := .ok ()) (by decide +kernel)
  have hread : [twiceAnEdge.text].mapM Statement.parse = .ok [twiceAnEdge] := by decide +kernel
  obtain ⟨ss, hss, hregions, hall⟩ := known_after_batch_iff_needed hopened hok
  obtain rfl := Except.ok.inj (hread.symm.trans hss)
  have hneeds := needs_twiceAnEdge (opening 1 100 (blank (1 : Rat) 100)).2.density
  refine ⟨_, _, hopened, hok, (hregions "b").2 (.inr ?_), (hall _).2 (.inr (.inr ⟨rfl, ?_⟩))⟩ <;>
    exact ⟨twiceAnEdge, List.mem_singleton_self _, _, hneeds, rfl⟩

/-- The difference of an edge and itself is zero, so the region that it mentions is not made. -/
theorem mentioned_region_is_not_known : ∃ m m' : Model Rat, Course (fun _ _ => True) [] m ∧
    addConstraints (some ["a.left == b.left - b.left + 5"]) m = (.ok (), m') ∧
      (∃ s, Statement.parse "a.left == b.left - b.left + 5" = .ok s ∧ ⟨"b", .left⟩ ∈ s.refs) ∧
        ¬ (∃ g, m'.geometry "b" = .ok g) ∧ ¬ m'.Knows ⟨"b", .left⟩ := by
  have hok := eq_of_answer (p := addConstraints (some ["a.left == b.left - b.left + 5"])
    (opening 1 100 (blank (1 : Rat) 100)).2) (x := .ok ()) (by decide +kernel)
  have hnone : (addConstraints (some ["a.left == b.left - b.left + 5"])
      (opening 1 100 (blank (1 : Rat) 100)).2).2.region? "b" = none :=
    Option.isNone_iff_eq_none.1 (by decide +kernel)
  refine ⟨_, _, course_opening _, hok, ⟨{
    text := "a.left == b.left - b.left + 5", target := ⟨"a", .left⟩, comparator := .equal
    expr := .binary .add (.binary .sub (.ref ⟨"b", .left⟩) (.ref ⟨"b", .left⟩))
      (.literal ⟨5, 0⟩ .bare)
    strength := .required }, by decide +kernel, by decide⟩, ?_, ?_⟩
  · rw [geometry_isOk_iff, hnone]
    simp
  · rw [knows_iff, slot?, hnone]
    simp

end Model

end RegionLayout
