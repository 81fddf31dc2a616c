-- Courses of calls: what a model is told one after the other, from when it is made. The calls that
-- change it are kept in a log, and those that fail are not.
import RegionLayout.Proofs.Model.Making
import Mathlib.Logic.Function.Basic

namespace RegionLayout

open Solver

namespace Model

variable {R : Type} [Scalar R] {m m' m₁ : Model R} {ref : AttributeRef} {v : Variable}
  {name : String} {a : Attribute} {region : Region}

/-! ## Calls that leave the chart alone -/

section Views

variable {γ : Type} {view : Model R → γ}

theorem Unmoved.constraintOf (h : Unmoved view) (r : Relation R) : Keeps view (constraintOf r) :=
  (keeps_ask _).bind fun _ =>
    (keeps_mapM fun _ _ => (keeps_ask _).bind fun _ => keeps_pure _).bind fun _ =>
      h.fresh.bind fun _ => keeps_pure _

/-- The view shows neither the relations nor what became of their texts. -/
theorem Unmoved.addRelation (h : Unmoved view)
    (hrelations : ∀ m relations journal, view { m with relations, journal } = view m)
    (r : Relation R) : Keeps view (addRelation r) :=
  (h.constraintOf r).bind fun _ => (h.add _ _).bind fun _ => keeps_modify fun m => hrelations m _ _

variable (h : Unmoved view) (hbindings : ∀ m bindings, view { m with bindings } = view m)

include h hbindings

theorem Unmoved.setTo (name : String) (a : Attribute) (value : R) :
    Keeps view (setTo name a value) := by
  refine (keeps_ask _).bind fun v => keeps_get fun m => ?_
  have hpull : Keeps view (Model.bind v .exact >>= fun _ =>
      onSolver .solver (·.suggest v value) : Change R Unit) :=
    (keeps_modify fun m => hbindings m _).bind fun _ => h.suggest _ _ _
  have hedit : ∀ m : Model R, Keeps view (if (!m.solver.hasEdit v) = true then
      onSolver .solver (·.addEdit v Weight.strong) >>= fun _ =>
        Model.bind v .exact >>= fun _ => onSolver .solver (·.suggest v value)
      else Model.bind v .exact >>= fun _ => onSolver .solver (·.suggest v value)) := by
    intro m
    split
    · exact (h.addEdit _ _ _).bind fun _ => hpull
    · exact hpull
  cases m.bindings.get? v with
  | none => exact keeps_get hedit
  | some b =>
    cases b with
    | exact => exact keeps_get hedit
    | atMost id _ =>
      exact (h.remove _ _).bind fun _ => (keeps_modify fun m => hbindings m _).bind fun _ =>
        keeps_get hedit

theorem Unmoved.setAtMost (name : String) (a : Attribute) (value : R) :
    Keeps view (setAtMost name a value) := by
  refine (keeps_ask _).bind fun v => ?_
  have hhold : Keeps view (freshConstraint >>= fun id => onSolver .solver (·.add
      (.relate id (.ofVariable v) .atMost (.ofConstant value) Weight.strong)) >>= fun _ =>
        Model.bind v (.atMost id value) : Change R Unit) :=
    h.fresh.bind fun _ => (h.add _ _).bind fun _ => keeps_modify fun m => hbindings m _
  refine keeps_get fun m => ?_
  cases m.bindings.get? v with
  | none => exact hhold
  | some b =>
    cases b with
    | exact => exact (h.removeEdit _ _).bind fun _ => hhold
    | atMost id current =>
      dsimp only
      split
      · exact keeps_pure _
      · exact (h.remove _ _).bind fun _ => hhold

theorem Unmoved.release (name : String) (a : Attribute) :
    Keeps view (release name a : Change R Unit) := by
  refine (keeps_ask _).bind fun v => keeps_get fun m =>
    (keeps_modify fun m => hbindings m _).bind fun _ => ?_
  cases m.bindings.get? v with
  | none => exact keeps_pure _
  | some b =>
    cases b with
    | exact => exact h.removeEdit _ _
    | atMost id _ => exact h.remove _ _

omit hbindings in
theorem Unmoved.setIntrinsic (name : String) (axis : Axis) (measured : Int) :
    Keeps view (setIntrinsic name axis measured : Change R Bool) := by
  refine (keeps_ask _).bind fun v => keeps_get fun m => ?_
  split
  · exact keeps_pure _
  · exact (h.suggest _ _ _).bind fun _ => keeps_pure _

end Views

theorem keeps_addRelation (r : Relation R) : Keeps chart (addRelation r) :=
  aside_chart.unmoved.addRelation (fun _ _ _ => rfl) r

/-! ## Batches -/

theorem get?_solve (m : Model R) (v : Variable) : m.solve.values.get? v =
    if v ∈ m.vars then some (m.solver.value v) else m.values.get? v := by
  have hfold : ∀ (vs : List Variable) (values : SortedMap Variable R),
      (vs.foldl (fun values v => values.insert v (m.solver.value v)) values).get? v =
        if v ∈ vs then some (m.solver.value v) else values.get? v := by
    intro vs
    induction vs with
    | nil => simp
    | cons u vs ih =>
      intro values
      rw [List.foldl_cons, ih, SortedMap.get?_insert]
      by_cases hv : v = u
      · subst hv
        simp
      · simp [hv]
  exact hfold m.vars m.values

theorem Charted.solve (h : m.Charted) : m.solve.Charted := by
  refine ⟨h.names, h.apart, h.primary, h.before, h.own, fun {v x} hx => ?_⟩
  rw [get?_solve] at hx
  split at hx
  · obtain ⟨ref, hv⟩ := h.slot_of_vars ‹_›
    exact h.before hv
  · exact h.noted hx

/-- The batch can be read, and asks for the attribute. -/
def Asked (m : Model R) (texts : Option (List String)) (ref : AttributeRef) : Prop :=
  ∃ ts rs, texts = some ts ∧ ts.mapM (Relation.parse · m.density) = .ok rs ∧
    (Demand.ofRelations rs).Asks ref

theorem asked_iff {texts : List String} {rs : List (Relation R)}
    (hparse : texts.mapM (Relation.parse · m.density) = .ok rs) :
    m.Asked (some texts) ref ↔ (Demand.ofRelations rs).Asks ref := by
  refine ⟨?_, fun ha => ⟨texts, rs, rfl, hparse, ha⟩⟩
  rintro ⟨ts, rs', hsome, hread, ha⟩
  obtain rfl := Option.some.inj hsome
  obtain rfl := Except.ok.inj (hparse.symm.trans hread)
  exact ha

/-- Relations are taken after all is made. From there on the chart stays, and only the solve at the
end takes values over. -/
theorem Charted.addRelations (h₁ : m₁.Charted) {D : AttributeRef → Prop} (hs : Spreads D m m₁)
    (hvalues : m₁.values = m.values) (hall : ∀ ref, D ref → ∃ v, m₁.slot? ref = some v)
    (rs : List (Relation R)) :
    Comes False
      (fun _ m' => m'.Charted ∧ Spreads D m m' ∧ m'.values = m.values ∧
        ∀ ref, D ref → ∃ v, m'.slot? ref = some v)
      (fun _ m' => m'.Charted ∧ Spreads D m m' ∧ ∀ ref, D ref → ∃ v, m'.slot? ref = some v)
      ((rs.forM Model.addRelation >>= fun _ => modify Model.solve) m₁) := by
  have hkept := keeps_forM (fun r _ => keeps_addRelation r) (l := rs) m₁
  rw [bind_apply]
  generalize rs.forM Model.addRelation m₁ = p at hkept
  obtain ⟨answer, m₂⟩ := p
  have hs₂ := hs.of_chart hkept
  have hall₂ : ∀ ref, D ref → ∃ v, m₂.slot? ref = some v := by
    rw [slot?_of_chart hkept]
    exact hall
  cases answer with
  | ok => exact .ok ⟨(h₁.of_chart hkept).solve, ⟨hs₂.kept, hs₂.fresh, hs₂.next⟩, hall₂⟩
  | error e => exact .error ⟨h₁.of_chart hkept, hs₂, (values_of_chart hkept).trans hvalues, hall₂⟩

/-- However a batch ends, it has made nothing but what it asks for; and it has made all of that
unless the solver failed. -/
theorem Charted.addConstraints (h : m.Charted) (texts : Option (List String)) :
    Comes False
      (fun e m' => m'.Charted ∧ Spreads (m.Asked texts) m m' ∧ m'.values = m.values ∧
        ((∀ fault, e ≠ .solver fault) → ∀ ref, m.Asked texts ref → ∃ v, m'.slot? ref = some v))
      (fun _ m' => m'.Charted ∧ Spreads (m.Asked texts) m m' ∧
        ∀ ref, m.Asked texts ref → ∃ v, m'.slot? ref = some v)
      (addConstraints texts m) := by
  cases texts with
  | none =>
    refine .error ⟨h, .refl m, rfl, fun _ ref => ?_⟩
    rintro ⟨ts, rs, hnone, -⟩
    cases hnone
  | some texts =>
    cases hparse : texts.mapM (Relation.parse · m.density) with
    | error e =>
      rw [addConstraints_of_unread hparse]
      refine .error ⟨h, .refl m, rfl, fun _ ref => ?_⟩
      rintro ⟨ts, rs, hsome, hread, -⟩
      obtain rfl := Option.some.inj hsome
      cases hparse.symm.trans hread
    | ok rs =>
      rw [addConstraints_of_read hparse]
      refine Comes.bind ((h.made _).mono id (fun e m' hf => ?_) fun _ _ hq => hq) fun _ m₁ h₁ => ?_
      · obtain ⟨⟨fault, rfl⟩, h', hg⟩ := hf
        exact ⟨h', hg.toSpreads.mono fun _ => (asked_iff hparse).2, by rw [hg.frame],
          fun hno => absurd rfl (hno fault)⟩
      · obtain ⟨⟨h₁, hg⟩, hall⟩ := h₁
        refine (h₁.addRelations (hg.toSpreads.mono fun _ => (asked_iff hparse).2) (by rw [hg.frame])
          (fun ref ha => hall ref ((asked_iff hparse).1 ha)) rs).mono id (fun e m' hf => ?_)
          fun _ _ hq => hq
        exact ⟨hf.1, hf.2.1, hf.2.2.1, fun _ => hf.2.2.2⟩

/-- A batch that was accepted has made what it asks for, and nothing else. -/
theorem Charted.knows_iff_asked (h : m.Charted) {texts : Option (List String)}
    (hok : Model.addConstraints texts m = (.ok (), m')) :
    m'.Charted ∧ ∀ ref, m'.Knows ref ↔ m.Knows ref ∨ m.Asked texts ref := by
  have hadd := h.addConstraints texts
  rw [hok] at hadd
  obtain ⟨h', hs, hall⟩ := hadd.of_ok
  refine ⟨h', fun ref => ?_⟩
  rw [knows_iff, knows_iff]
  constructor
  · rintro ⟨v, hv⟩
    exact (hs.fresh hv).imp (fun hv => ⟨v, hv⟩) fun hf => hf.2.1
  · rintro (⟨v, hv⟩ | ha)
    · exact ⟨v, hs.kept hv⟩
    · exact hall ref ha

/-! ## New models -/

variable {density : R} {limit : Nat}

theorem slot?_blank (ref : AttributeRef) : (blank density limit).slot? ref =
    if ref.region = containerName ∧ ref.attr.isPrimary = true then some ⟨ref.attr.rank⟩
    else none := by
  have hr : (blank density limit).region? ref.region =
      if ref.region = containerName then some (.make containerName 0) else none := rfl
  rw [slot?, hr]
  by_cases hc : ref.region = containerName
  · rw [if_pos hc, Option.bind_some, get?_make]
    simp [hc]
  · rw [if_neg hc, Option.bind_none, if_neg fun h => hc h.1]

theorem charted_blank : (blank density limit).Charted := by
  have hcontainer : ∀ {name r}, (blank density limit).region? name = some r →
      name = containerName ∧ r = .make containerName 0 := by
    intro name r hr
    change (if name = containerName then some (Region.make containerName 0) else none) = _ at hr
    split at hr
    · exact ⟨‹_›, (Option.some.inj hr).symm⟩
    · cases hr
  have split : ∀ {ref v}, (blank density limit).slot? ref = some v →
      (ref.region = containerName ∧ ref.attr.isPrimary = true) ∧ v = ⟨ref.attr.rank⟩ := by
    intro ref v hv
    rw [slot?_blank] at hv
    split at hv
    · exact ⟨‹_›, (Option.some.inj hv).symm⟩
    · cases hv
  refine ⟨fun hr => ?_, rfl, fun {n r a} hr ha => ?_, fun {ref v} hv => ?_,
    fun {ref ref' v} hv hv' => ?_, fun {v x} hx => ?_⟩
  · obtain ⟨rfl, rfl⟩ := hcontainer hr
    rfl
  · obtain ⟨rfl, -⟩ := hcontainer hr
    exact ⟨_, (slot?_blank _).trans (if_pos ⟨rfl, ha⟩)⟩
  · obtain ⟨⟨-, ha⟩, rfl⟩ := split hv
    exact Attribute.rank_lt_of_primary ha
  · obtain ⟨n, a⟩ := ref
    obtain ⟨n', a'⟩ := ref'
    obtain ⟨⟨hn, -⟩, rfl⟩ := split hv
    obtain ⟨⟨hn', -⟩, heq⟩ := split hv'
    obtain rfl : n = n' := hn.trans hn'.symm
    exact congrArg _ (Attribute.rank_injective (Variable.mk.inj heq))
  · cases hx

theorem charted_new (h : Model.new density limit = .ok m) : m.Charted := by
  have hpin : ∀ a : Attribute, Keeps bare
      (ask (fun _ => variableOf (blank density limit).container a) >>= fun v =>
        require (.ofVariable v) .equal (.ofConstant 0) : Change R Unit) :=
    fun a => (keeps_ask _).bind fun _ => aside_bare.unmoved.require _ _ _
  have hopened : Yields (fun _ m' => ∃ m₀ : Model R, m' = m₀.solve ∧
      m₀.bare = (blank density limit).bare) (opening density limit (blank density limit)) := by
    refine ((aside_bare.unmoved.installSizes _).yields _).bind fun _ m₁ h₁ => ?_
    refine ((keeps_forM fun a _ => hpin a).yields m₁).bind fun _ m₂ h₂ => ?_
    exact .ok ⟨m₂, rfl, h₂.trans h₁⟩
  rw [opening_of_new h] at hopened
  obtain ⟨m₀, rfl, hb⟩ := hopened.of_ok
  exact (charted_blank.of_bare hb).solve

/-! ## Commands -/

/-- What a caller wishes an attribute to be. -/
inductive Wish (R : Type) where
  | exactly (value : R)
  | atMost (value : R)

/-- A call of a model. An attribute that is bound to no wish is released. -/
inductive Command (R : Type) where
  | add (texts : Option (List String))
  | bind (ref : AttributeRef) (wish : Option (Wish R))
  | measure (name : String) (axis : Axis) (measured : Int)
  | solve

def Command.perform : Command R → Change R Unit
  | .add texts => Model.addConstraints texts
  | .bind ref (some (.exactly value)) => Model.setTo ref.region ref.attr value
  | .bind ref (some (.atMost value)) => Model.setAtMost ref.region ref.attr value
  | .bind ref none => Model.release ref.region ref.attr
  | .measure name axis measured => do
    let _ ← Model.setIntrinsic name axis measured
  | .solve => modify Model.solve

theorem keeps_bindCommand (ref : AttributeRef) (wish : Option (Wish R)) :
    Keeps chart (Command.bind ref wish).perform := by
  cases wish with
  | none => exact aside_chart.unmoved.release (fun _ _ => rfl) _ _
  | some wish =>
    cases wish with
    | exactly value => exact aside_chart.unmoved.setTo (fun _ _ => rfl) _ _ _
    | atMost value => exact aside_chart.unmoved.setAtMost (fun _ _ => rfl) _ _ _

theorem keeps_measureCommand (name : String) (axis : Axis) (measured : Int) :
    Keeps chart (Command.measure name axis measured : Command R).perform :=
  (aside_chart.unmoved.setIntrinsic _ _ _).bind fun _ => keeps_pure _

theorem Charted.perform (h : m.Charted) (c : Command R) : (c.perform m).2.Charted := by
  cases c with
  | add texts =>
    have hadd := h.addConstraints texts
    change (Model.addConstraints texts m).2.Charted
    generalize Model.addConstraints texts m = p at hadd
    cases hadd with
    | ok h' => exact h'.1
    | error h' => exact h'.1
    | spent h' => exact h'.elim
  | bind ref wish => exact h.of_chart (keeps_bindCommand ref wish m)
  | measure name axis measured => exact h.of_chart (keeps_measureCommand name axis measured m)
  | solve => exact h.solve

/-! ## Courses -/

/-- The models that a new one or one built from a source becomes by calls that `may` allows with
what they answer. The log has those that succeeded, the oldest first. -/
inductive Course (may : Command R → Except LayoutError Unit → Prop) :
    List (Command R) → Model R → Prop
  | new {density : R} {limit : Nat} {m : Model R} (h : Model.new density limit = .ok m) :
      Course may [] m
  | build {texts : Option (List String)} {density : R} {limit : Nat} {m : Model R}
      (h : Model.build texts density limit = .ok m) : Course may [] m
  | done {log : List (Command R)} {m m' : Model R} (h : Course may log m) (c : Command R)
      (hmay : may c (.ok ())) (hok : c.perform m = (.ok (), m')) : Course may (log ++ [c]) m'
  | failed {log : List (Command R)} {m m' : Model R} (h : Course may log m) (c : Command R)
      {e : LayoutError} (hmay : may c (.error e)) (herr : c.perform m = (.error e, m')) :
      Course may log m'

variable {may : Command R → Except LayoutError Unit → Prop} {log : List (Command R)}

theorem Course.charted (h : Course may log m) : m.Charted := by
  induction h with
  | new h => exact charted_new h
  | @build texts _ _ _ h =>
    obtain ⟨m₀, hnew, hbatch⟩ := batch_of_build h
    have hadd := (charted_new hnew).addConstraints texts
    rw [hbatch] at hadd
    exact hadd.of_ok.1
  | done h c _ hok ih =>
    have hc := ih.perform c
    rwa [hok] at hc
  | failed h c _ herr ih =>
    have hc := ih.perform c
    rwa [herr] at hc

theorem Course.may_of_mem (h : Course may log m) {c : Command R} (hc : c ∈ log) :
    may c (.ok ()) := by
  induction h with
  | new | build => cases hc
  | done _ c' hmay _ ih =>
    rcases List.mem_append.1 hc with hc | hc
    · exact ih hc
    · obtain rfl := List.mem_singleton.1 hc
      exact hmay
  | failed _ _ _ _ ih => exact ih hc

theorem new_eq_opening : Model.new (1 : Rat) 100 = .ok (opening 1 100 (blank 1 100)).2 :=
  new_of_opening (by decide) (by decide +kernel)

theorem course_opening (may : Command Rat → Except LayoutError Unit → Prop) :
    Course may [] (opening 1 100 (blank 1 100)).2 :=
  .new new_eq_opening

end Model

end RegionLayout
