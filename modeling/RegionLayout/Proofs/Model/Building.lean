-- Models built from a source. One is built just when some proper layout is as the required
-- relations say, and then it has a variable for what the relations speak of and nothing else,
-- and pulls only at what the host is to measure, to zero.
import RegionLayout.Proofs.Model.Granted

namespace RegionLayout

open Solver

theorem Attribute.not_isPrimary {a : Attribute} (h : a.isIntrinsic = true) :
    a.isPrimary = false := by
  cases a <;> first | rfl | cases h

variable {rs accepted : List (Relation Rat)} {r : Relation Rat} {ref : AttributeRef}

/-! ## What relations speak of -/

/-- What the relations speak of, and the edges and sizes of the regions that they name and of the
container. -/
def Spoken (rs : List (Relation Rat)) (ref : AttributeRef) : Prop :=
  (∃ r ∈ rs, ref ∈ r.refs) ∨ ref.attr.isPrimary = true ∧
    (ref.region = containerName ∨ ∃ r ∈ rs, ∃ other ∈ r.refs, other.region = ref.region)

/-! ## Relations that can all be met -/

/-- Some proper layout is as the required ones of the relations say. -/
def Possible (rs : List (Relation Rat)) : Prop :=
  ∃ ρ, Proper (fun _ => True) ρ ∧ Satisfies ρ rs

theorem possible_nil : Possible [] := by
  refine ⟨fun _ => 0, ⟨fun _ _ => le_rfl, fun _ => rfl, fun _ _ _ _ _ => by simp⟩, ?_⟩
  simp [Satisfies]

theorem Possible.of_append (h : Possible (accepted ++ rs)) : Possible accepted := by
  obtain ⟨ρ, hp, hs⟩ := h
  exact ⟨ρ, hp, (satisfies_append.1 hs).1⟩

/-- What was possible stays so with one relation more unless that clashes. -/
theorem not_clashes_iff (h : Possible accepted) :
    ¬ Clashes accepted r ↔ Possible (accepted ++ [r]) := by
  by_cases hr : r.strength = .required
  · simp [Clashes, Possible, satisfies_append, satisfies_singleton, hr]
  · obtain ⟨ρ, hp, hs⟩ := h
    refine iff_of_true (fun hc => hr hc.1) ⟨ρ, hp, satisfies_append.2 ⟨hs, ?_⟩⟩
    exact satisfies_singleton.2 fun hq => absurd hq hr

theorem not_clashesAt_iff (h : Possible accepted) :
    (∀ k, ¬ ClashesAt accepted rs k) ↔ Possible (accepted ++ rs) := by
  induction rs generalizing accepted with
  | nil => simpa [clashesAt_nil] using h
  | cons r rs ih =>
    rw [← Nat.and_forall_add_one, clashesAt_zero, not_clashes_iff h]
    simp only [clashesAt_succ]
    have happend : accepted ++ r :: rs = (accepted ++ [r]) ++ rs := by simp
    constructor
    · rintro ⟨hone, hrest⟩
      rw [happend]
      exact (ih hone).1 hrest
    · intro hall
      rw [happend] at hall
      exact ⟨hall.of_append, (ih hall.of_append).2 hall⟩

namespace Model

variable {m m' m₁ : Model Rat} {W : (Variable → Rat) → Rat} {D : AttributeRef → Prop}
  {v : Variable} {name : String} {a : Attribute} {region : Region} {density : Rat} {limit n : Nat}
  {texts : List String}

/-! ## Models that were told nothing yet -/

/-- There are variables only for what is in `D`, nothing is bound, and just what the host is to
measure is pulled, to zero. -/
structure Fresh (D : AttributeRef → Prop) (m : Model Rat) : Prop where
  asked : ∀ {ref}, m.Has ref → D ref
  bindings : m.bindings = ∅
  pulls : ∀ {v y}, m.solver.target? v = some y ↔ y = 0 ∧ m.Measures v

theorem Fresh.sameTies (h : m.Fresh D) (hs : SameTies m m') : m'.Fresh D := by
  refine ⟨fun {ref} hh => h.asked ?_, hs.bindings.trans h.bindings, fun {v y} => ?_⟩
  · unfold Has at hh ⊢
    rwa [hs.vars] at hh
  · rw [hs.targets, h.pulls]
    unfold Measures
    rw [hs.vars]

theorem not_measures_of_primary
    (hm : ∀ {ref v}, m.varOf? ref = some v → ref.attr.isPrimary = true) : ¬ m.Measures v := by
  rintro ⟨name, a, hi, hv⟩
  exact Bool.false_ne_true ((Attribute.not_isPrimary hi).symm.trans (hm hv))

theorem fresh_blank (hD : ∀ a : Attribute, a.isPrimary = true → D ⟨containerName, a⟩) :
    (blank density limit).Fresh D := by
  have hvar {ref : AttributeRef} {v : Variable} (hv : (blank density limit).varOf? ref = some v) :
      ref.region = containerName ∧ ref.attr.isPrimary = true := by
    rw [varOf?_blank] at hv
    by_contra hno
    rw [if_neg hno] at hv
    cases hv
  refine ⟨fun {ref} ⟨v, hv⟩ => ?_, rfl, fun {v y} => ?_⟩
  · obtain ⟨n, a⟩ := ref
    obtain ⟨rfl, ha⟩ := hvar hv
    exact hD a ha
  · have hnone : (blank density limit).solver.target? v = none := rfl
    rw [hnone]
    have hno : ¬ (blank density limit).Measures v := not_measures_of_primary fun hv => (hvar hv).2
    simp [hno]

/-- A new region is measured in nothing. -/
theorem Fresh.put (h : m.Fresh D) (hnone : m.region? name = none)
    (hD : ∀ a : Attribute, a.isPrimary = true → D ⟨name, a⟩)
    (ht : Toiled W { m with nextVariable := m.nextVariable + 4 } m₁) :
    (m₁.put (.make name m.nextVariable)).Fresh D := by
  have hr n : (m₁.put (.make name m.nextVariable)).region? n =
      if n = name then some (.make name m.nextVariable) else m.region? n := by
    rw [region?_put, ht.frame]
    rfl
  have hvar := varOf?_of_make hnone hr
  refine ⟨fun {ref} ⟨v, hv⟩ => ?_, ?_, fun {v y} => ?_⟩
  · rw [hvar] at hv
    split at hv
    · rename_i hnew
      obtain ⟨n, a⟩ := ref
      obtain ⟨rfl, ha⟩ := hnew
      exact hD a ha
    · exact h.asked ⟨v, hv⟩
  · rw [put_bindings, ht.frame]
    exact h.bindings
  · rw [put_solver, ht.targets, h.pulls]
    refine and_congr_right fun _ => exists_congr fun n => exists_congr fun a =>
      and_congr_right fun hi => ?_
    have hold : ¬ (n = name ∧ a.isPrimary = true) := by simp [Attribute.not_isPrimary hi]
    rw [hvar, if_neg hold]

theorem measures_extend_iff (hs : m.Settled) (hreg : m.region? name = some region)
    (hno : ¬ m.Has ⟨name, a⟩) : (m.extend region a).Measures v ↔
      m.Measures v ∨ a.isIntrinsic = true ∧ v = ⟨m.nextVariable⟩ := by
  constructor
  · rintro ⟨n, b, hi, hv⟩
    rw [varOf?_extend hs hreg] at hv
    split at hv
    · rename_i hnew
      obtain ⟨rfl, rfl⟩ := AttributeRef.mk.inj hnew
      exact .inr ⟨hi, (Option.some.inj hv).symm⟩
    · exact .inl ⟨n, b, hi, hv⟩
  · rintro (⟨n, b, hi, hv⟩ | ⟨hi, rfl⟩)
    · exact ⟨n, b, hi, (grown_extend hs hreg hno).vars hv⟩
    · exact measures_extend hs hreg hi

/-- A new attribute is pulled to zero if the host is to measure it, and else nothing is. -/
theorem Fresh.extend (h : m.Fresh D) (hs : m.Settled) (hreg : m.region? name = some region)
    (hno : ¬ m.Has ⟨name, a⟩) (hD : D ⟨name, a⟩)
    (ht : a.isIntrinsic = false ∧ Toiled W (m.extend region a) m' ∨
      a.isIntrinsic = true ∧ Pulled W ⟨m.nextVariable⟩ (m.extend region a) m') : m'.Fresh D := by
  have hasked : ∀ {ref}, (m.extend region a).Has ref → D ref := by
    rintro ref ⟨v, hv⟩
    rw [varOf?_extend hs hreg] at hv
    split at hv
    · rename_i hnew
      exact hnew ▸ hD
    · exact h.asked ⟨v, hv⟩
  have hbindings : (m.extend region a).bindings = ∅ := put_bindings.trans h.bindings
  have htargets : (m.extend region a).solver.target? = m.solver.target? := by
    rw [Model.extend, put_solver]
  have hmeasures {v : Variable} := measures_extend_iff (v := v) hs hreg hno
  rcases ht with ⟨hi, ht⟩ | ⟨hi, ht⟩
  · have hx : (m.extend region a).Fresh D := by
      refine ⟨hasked, hbindings, fun {v y} => ?_⟩
      rw [htargets, h.pulls, hmeasures, hi]
      simp
    exact hx.sameTies ht.sameTies
  · -- the variable is not one that was pulled before, so only its own pull is new
    have hnew : ¬ m.Measures ⟨m.nextVariable⟩ := by
      rintro ⟨n, b, -, hv⟩
      exact lt_irrefl _ (hs.before hv)
    rw [ht.frame]
    refine ⟨hasked, hbindings, fun {v y} => ?_⟩
    change m'.solver.target? v = some y ↔ y = 0 ∧ (m.extend region a).Measures v
    rw [ht.targets, htargets, hmeasures, hi]
    by_cases hv : v = ⟨m.nextVariable⟩
    · subst hv
      simp [hnew, eq_comm]
    · rw [Function.update_of_ne hv, h.pulls]
      simp [hv]

/-- A batch makes what it asks for and nothing else. -/
theorem Fresh.materialize (h : m.Fresh (Spoken rs)) (hw : m.Weighs W) (hs : m.Settled) :
    Yields (fun _ m' => m'.Fresh (Spoken rs)) (materialize (.ofRelations rs) m) := by
  refine (yields_materialize (I := fun m => m.Weighs W ∧ m.Fresh (Spoken rs)) _
    (fun m e he _ ⟨hw, h⟩ => ?_) (fun m e a he ha hs ⟨hw, h⟩ => ?_) hs ⟨hw, h⟩).imp
      fun _ _ h' => h'.2
  · have hnamed := Demand.named_of_mem he
    refine ((hw.ensureRegion e.1).and (hw.ensureRegion_cases e.1)).imp fun _ m' ⟨hw', hm'⟩ =>
      ⟨hw', ?_⟩
    rcases hm' with rfl | ⟨hnone, m₁, ht, rfl⟩
    · exact h
    · exact h.put hnone (fun a ha => .inr ⟨ha, .inr hnamed⟩) ht
  · have hspoken : Spoken rs ⟨e.1, a⟩ := .inl (Demand.mem_ofRelations.1 ⟨e.2, he, ha⟩)
    refine ((hw.ensureAttribute hs e.1 a).and (hw.ensureAttribute_cases hs e.1 a)).imp
      fun _ m' ⟨hw', hm'⟩ => ⟨hw', ?_⟩
    rcases hm' with rfl | ⟨region, hreg, hno, ht⟩
    · exact h
    · exact h.extend hs hreg hno hspoken ht

/-! ## What is built -/

/-- A model that was built from the relations and from nothing else. -/
structure Built (rs : List (Relation Rat)) (m : Model Rat) : Prop extends m.Weighed where
  fresh : m.Fresh (Spoken rs)
  relations : m.relations = rs
  reported : m.reported = m.reading m.solver.value

/-- Given turns enough a container is opened at any density above zero. -/
theorem new_of_turns (hd : Scalar.isPositive density = true) (hn : turnBound 16 ≤ n) :
    ∃ m, Model.new density n = .ok m := by
  have hc : Comes _ _ _ (opening density n (blank density n)) := comes_opening
  refine ⟨_, new_of_opening hd ?_⟩
  generalize opening density n (blank density n) = p at hc
  cases hc with
  | ok => rfl
  | error he => exact he.elim
  | spent hlim => exact absurd hn (not_le.2 hlim)

theorem isPositive_of_new (h : Model.new density n = .ok m) :
    Scalar.isPositive density = true := by
  unfold Model.new at h
  split at h
  · cases h
  · simpa using ‹¬ (!Scalar.isPositive density) = true›

/-- What a model is like that was just opened. -/
structure Opened (density : Rat) (limit : Nat) (m : Model Rat) : Prop extends m.Weighed where
  density : m.density = density
  relations : m.relations = []
  limit : m.solver.limit = limit
  tick : m.solver.tick ≤ 16
  fresh : ∀ rs, m.Fresh (Spoken rs)

theorem opened_new (h : Model.new density limit = .ok m) : Opened density limit m := by
  have hc : Comes _ _ _ (opening density limit (blank density limit)) := comes_opening
  have ht := toiled_opening density limit
  rw [opening_of_new h] at hc ht
  obtain ⟨m₀, rfl, -, hw⟩ := hc.of_ok
  obtain ⟨m₁, heq, ht⟩ := ht.of_ok
  refine ⟨weighed_new h, ?_, ?_, hw.limit, hw.tick, fun rs => ?_⟩
  · change m₀.density = density
    rw [hw.frame]
    rfl
  · change m₀.relations = []
    rw [hw.frame]
    rfl
  · have hblank : (blank density limit).Fresh (Spoken rs) :=
      fresh_blank fun a ha => .inr ⟨ha, .inl rfl⟩
    rw [heq]
    exact (hblank.sameTies ht.sameTies).sameTies ⟨rfl, rfl, rfl⟩

theorem built_of_build (h : Model.build (some texts) density limit = .ok m) :
    ∃ rs, texts.mapM (Relation.parse · density) = .ok rs ∧ Possible rs ∧ Built rs m := by
  obtain ⟨m₀, hnew, hbatch⟩ := batch_of_build h
  have ho := opened_new hnew
  cases hparse : texts.mapM (Relation.parse · m₀.density) with
  | error e =>
    rw [addConstraints_of_unread hparse] at hbatch
    cases hbatch
  | ok rs =>
    have hsettled := ho.toSettled.addConstraints hparse ⟨rfl, le_rfl⟩
    have hadd := ho.toWeighed.addTexts (I := fun m₁ => m₁.Fresh (Spoken rs))
      fun rs' hparse' => by
        obtain rfl := Except.ok.inj (hparse.symm.trans hparse')
        exact (ho.fresh rs).materialize ho.weighs ho.toSettled
    rw [hbatch] at hsettled hadd
    -- the ties are all made before the first relation is added, and none after it
    obtain ⟨-, hrelations, hfree⟩ := hsettled.of_ok
    obtain ⟨m₁, m₂, hfresh, hsame, hw, rfl⟩ := hadd.of_ok
    rw [ho.relations] at hrelations hfree
    refine ⟨rs, ho.density ▸ hparse, (not_clashesAt_iff possible_nil).1 hfree, hw.solve, ?_,
      hrelations, reported_solve m₂⟩
    exact (hfresh.sameTies hsame).sameTies ⟨rfl, rfl, rfl⟩

/-- Given turns enough a source is built just when it can be read at a density above zero and
some proper layout is as its required relations say. -/
theorem builds_iff (texts : List String) (density : Rat) : ∃ enough, ∀ n ≥ enough,
    (∃ m, Model.build (some texts) density n = .ok m) ↔ Scalar.isPositive density = true ∧
      ∃ rs, texts.mapM (Relation.parse · density) = .ok rs ∧ Possible rs := by
  have hbuilt : ∀ n, (∃ m, Model.build (some texts) density n = .ok m) →
      Scalar.isPositive density = true ∧
        ∃ rs, texts.mapM (Relation.parse · density) = .ok rs ∧ Possible rs := by
    rintro n ⟨m, hm⟩
    obtain ⟨m₀, hnew, -⟩ := batch_of_build hm
    obtain ⟨rs, hparse, hpossible, -⟩ := built_of_build hm
    exact ⟨isPositive_of_new hnew, rs, hparse, hpossible⟩
  cases hparse : texts.mapM (Relation.parse · density) with
  | error e =>
    rw [hparse] at hbuilt
    exact ⟨0, fun n _ => ⟨hbuilt n, fun ⟨_, rs, herror, _⟩ => by cases herror⟩⟩
  | ok rs =>
    let cost := supply (Demand.ofRelations rs).toList + ink rs
    rw [hparse] at hbuilt
    refine ⟨turnBound (16 + cost), fun n hn => ⟨hbuilt n, ?_⟩⟩
    rintro ⟨hd, rs', hok, hpossible⟩
    obtain rfl := Except.ok.inj hok
    obtain ⟨m₀, hnew⟩ := new_of_turns hd ((turnBound_mono (Nat.le_add_right 16 cost)).trans hn)
    have ho := opened_new hnew
    have hadd := ho.toSettled.addConstraints (L := n) (B := 16 + cost) (ho.density.symm ▸ hparse)
      ⟨ho.limit, Nat.add_le_add_right ho.tick cost⟩
    rw [ho.relations] at hadd
    cases hbatch : Model.addConstraints (some texts) m₀ with
    | mk answer m =>
      rw [hbatch] at hadd
      cases hadd with
      | ok => exact ⟨m, build_of_new hnew hbatch⟩
      | error he =>
        -- the batch that was read is refused at a clash, and there is none
        obtain ⟨-, k, -, -, -, hclash, -⟩ := he
        exact absurd hclash ((not_clashesAt_iff possible_nil).2 hpossible k)
      | spent hlim => exact absurd hn (not_le.2 hlim)

end Model

end RegionLayout
