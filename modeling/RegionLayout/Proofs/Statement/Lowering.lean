-- What is left of an expression once it is linear: terms of its own attributes, with coefficients
-- that some sum or some scaling let stand.
import RegionLayout.Relation

namespace RegionLayout

variable {R : Type} [Scalar R]

/-! ## The terms that are left -/

/-- A coefficient that some sum or some scaling let stand. -/
def Stays (c : R) : Prop := Scalar.cancels c = false ∨ Scalar.survives c = true

namespace LinearExpr

/-- The terms are of attributes in the list, and their coefficients stay. -/
def Over (refs : List AttributeRef) (terms : SortedMap AttributeRef R) : Prop :=
  ∀ t ∈ terms.entries, t.1 ∈ refs ∧ Stays t.2

variable {refs refs' : List AttributeRef} {a b : LinearExpr R}

theorem over_addTerm {ts : SortedMap AttributeRef R} (h : Over refs ts) {r : AttributeRef}
    (hr : r ∈ refs) (c : R) : Over refs (addTerm ts r c) := by
  rintro ⟨r', c'⟩ ht
  rw [← SortedMap.get?_eq_some_iff, addTerm, SortedMap.get?_alter] at ht
  split at ht
  · subst_vars
    dsimp only at ht
    split at ht
    · simp at ht
    · rename_i hc
      obtain rfl := Option.some.inj ht
      exact ⟨hr, .inl (by simpa using hc)⟩
  · exact h _ ((SortedMap.get?_eq_some_iff _).1 ht)

theorem over_add (ha : Over refs a.terms) (hb : Over refs b.terms) (sign : R) :
    Over refs (a.add b sign).terms := by
  have hfold : ∀ (l : List (AttributeRef × R)) (ts : SortedMap AttributeRef R),
      (∀ t ∈ l, t.1 ∈ refs) → Over refs ts →
        Over refs (l.foldl (fun ts t => addTerm ts t.1 (t.2 * sign)) ts) := by
    intro l
    induction l with
    | nil => exact fun ts _ hts => hts
    | cons t l ih =>
      intro ts hl hts
      rw [List.forall_mem_cons] at hl
      exact ih _ hl.2 (over_addTerm hts hl.1 _)
  exact hfold _ _ (fun t ht => (hb t ht).1) ha

theorem over_scale (h : Over refs a.terms) (factor : R) : Over refs (a.scale factor).terms := by
  intro t ht
  obtain ⟨hm, hs⟩ := List.mem_filter.1 ht
  obtain ⟨t', ht', rfl⟩ := List.mem_map.1 hm
  exact ⟨(h t' ht').1, .inr hs⟩

theorem Over.mono (h : Over refs a.terms) (hs : refs ⊆ refs') : Over refs' a.terms :=
  fun t ht => ⟨hs (h t ht).1, (h t ht).2⟩

end LinearExpr

/-! ## From an expression to its terms -/

namespace Expr

variable {e el er : Expr} {op : Operator} {density : R} {f : LinearExpr R}

/-- A form that an operation makes of the forms of its operands. -/
inductive Joined (a b : LinearExpr R) : LinearExpr R → Prop
  | add (sign : R) : Joined a b (a.add b sign)
  | left (factor : R) : Joined a b (a.scale factor)
  | right (factor : R) : Joined a b (b.scale factor)

theorem linear_of_neg (h : (neg e).linear density = .ok f) :
    ∃ a, e.linear density = .ok a ∧ f = a.scale (-1) := by
  unfold linear at h
  cases he : e.linear density with
  | error reason => simp [he, bind, Except.bind] at h
  | ok a =>
    simp only [he, bind, Except.bind, pure, Except.pure] at h
    exact ⟨a, rfl, (Except.ok.inj h).symm⟩

theorem linear_of_binary (h : (binary op el er).linear density = .ok f) :
    ∃ a b, el.linear density = .ok a ∧ er.linear density = .ok b ∧ Joined a b f := by
  unfold linear at h
  cases hl : el.linear density with
  | error reason => simp [hl, bind, Except.bind] at h
  | ok a =>
    cases hr : er.linear density with
    | error reason => simp [hl, hr, bind, Except.bind] at h
    | ok b =>
      refine ⟨a, b, rfl, rfl, ?_⟩
      simp only [hl, hr, bind, Except.bind, pure, Except.pure] at h
      cases op with
      | add =>
        obtain rfl := Except.ok.inj h
        exact .add 1
      | sub =>
        obtain rfl := Except.ok.inj h
        exact .add (-1)
      | mul =>
        by_cases ha : a.isConstant = true
        · obtain rfl := Except.ok.inj ((if_pos ha).symm.trans h)
          exact .right a.constant
        · by_cases hb : b.isConstant = true
          · obtain rfl := Except.ok.inj ((if_pos hb).symm.trans ((if_neg ha).symm.trans h))
            exact .left b.constant
          · simp [ha, hb, throw, throwThe, MonadExceptOf.throw] at h
      | div =>
        by_cases hb : b.isConstant = true
        · by_cases hz : (b.constant == 0) = true
          · simp [hb, show (b.constant == 0) = true from hz, throw, throwThe,
              MonadExceptOf.throw] at h
          · simp only [hb, hz] at h
            obtain rfl := Except.ok.inj h
            exact .left (1 / b.constant)
        · simp [hb, throw, throwThe, MonadExceptOf.throw] at h

/-- What an expression comes to is over its own attributes. -/
theorem linear_over (hone : Stays (1 : R)) (h : e.linear density = .ok f) :
    LinearExpr.Over e.refs f.terms := by
  induction e generalizing f with
  | literal v unit =>
    obtain rfl := Except.ok.inj h
    exact fun t ht => by simp [LinearExpr.ofConstant] at ht
  | ref r =>
    obtain rfl := Except.ok.inj h
    intro t ht
    obtain rfl := List.mem_singleton.1 ht
    exact ⟨List.mem_singleton.2 rfl, hone⟩
  | neg e ih =>
    obtain ⟨a, he, rfl⟩ := linear_of_neg h
    exact LinearExpr.over_scale (ih he) _
  | binary op el er ihl ihr =>
    obtain ⟨a, b, hl, hr, hjoined⟩ := linear_of_binary h
    have ha := (ihl hl).mono (List.subset_append_left el.refs er.refs)
    have hb := (ihr hr).mono (List.subset_append_right el.refs er.refs)
    cases hjoined with
    | add sign => exact LinearExpr.over_add ha hb sign
    | left factor => exact LinearExpr.over_scale ha factor
    | right factor => exact LinearExpr.over_scale hb factor

end Expr

end RegionLayout
