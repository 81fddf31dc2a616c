-- Models whose calls have all succeeded. New regions and attributes add nothing to what a model
-- wants, a relation adds its own regret and a measured size moves one tie, so the books of such a
-- model are always in order.
import RegionLayout.Proofs.Model.Ties

namespace RegionLayout

open Solver

namespace Model

variable {m m' m₁ : Model Rat} {W : (Variable → Rat) → Rat} {x : Variable → Rat} {v : Variable}
  {name : String} {a : Attribute} {r : Relation Rat} {rs : List (Relation Rat)} {region : Region}

/-! ## What a model asks for on its own -/

/-- Only the solver worked, and what it did costs nothing. -/
structure Toiled (W : (Variable → Rat) → Rat) (m m' : Model Rat) : Prop where
  frame : m' = { m with solver := m'.solver, nextConstraint := m'.nextConstraint }
  targets : m'.solver.target? = m.solver.target?
  accounts : Accounts W m'.bindings m'.solver.target? m'.nextConstraint m'.solver

theorem Toiled.weighs (h : Toiled W m m') (hm : m.Weighs W) : m'.Weighs W := by
  refine ⟨h.accounts, fun {u y} hu => ?_⟩
  rw [h.targets] at hu
  rw [h.frame]
  exact hm.pulled hu

theorem Toiled.refl (h : m.Weighs W) : Toiled W m m := ⟨rfl, rfl, h.accounts⟩

theorem Toiled.trans (h : Toiled W m m₁) (h' : Toiled W m₁ m') : Toiled W m m' :=
  ⟨by rw [h'.frame, h.frame], h'.targets.trans h.targets, h'.accounts⟩

theorem Weighs.install (h : m.Weighs W) (e : Expression Rat) (c : Comparator) :
    Yields (fun _ m' => Toiled W m m')
      ((freshConstraint >>= fun id =>
        onSolver .solver (·.add (.make id e c Weight.required))) m) := by
  rw [freshConstraint_bind]
  refine yields_onSolver fun s hok => ?_
  have ha := h.accounts.step (.add m.nextConstraint e c Weight.required) hok
    fun q hq => hq.require e c
  have ht := ha.target
  exact ⟨rfl, ht.symm, ht ▸ ha⟩

theorem Weighs.installSizes (h : m.Weighs W) (region : Region) :
    Yields (fun _ m' => Toiled W m m') (installSizes region m) := by
  have hone : ∀ m₁, m₁.Weighs W → ∀ a : Attribute, Yields (fun _ m' => Toiled W m₁ m')
      ((ask (fun _ => variableOf region a) >>= fun v =>
        require (.ofVariable v) .atLeast (.ofConstant 0)) m₁) := fun m₁ h₁ a =>
    Comes.ask_bind (fun _ _ => h₁.install _ .atLeast) fun _ => trivial
  rw [Model.installSizes, forM_pair]
  refine (hone m h .width).bind fun _ m₁ h₁ => ?_
  refine (hone m₁ (h₁.weighs h) .height).bind fun _ m₂ h₂ => ?_
  exact .ok (h₁.trans h₂)

theorem Weighs.installCenter (h : m.Weighs W) (region : Region) (axis : Axis) (v : Variable) :
    Yields (fun _ m' => Toiled W m m') (installCenter region axis v m) :=
  Comes.ask_bind (fun _ _ => Comes.ask_bind (fun _ _ => h.install _ .equal) fun _ => trivial)
    fun _ => trivial

/-- Only the solver worked, and it pulls one variable to zero. -/
structure Pulled (W : (Variable → Rat) → Rat) (v : Variable) (m m' : Model Rat) : Prop where
  frame : m' = { m with solver := m'.solver }
  targets : m'.solver.target? = Function.update m.solver.target? v (some 0)
  accounts : Accounts W m'.bindings m'.solver.target? m'.nextConstraint m'.solver

theorem Pulled.weighs (h : Pulled W v m m') (hm : m.Weighs W) (hv : m.Measures v) :
    m'.Weighs W := by
  refine ⟨h.accounts, fun {u y} hu => ?_⟩
  rw [h.targets] at hu
  rw [h.frame]
  by_cases huv : u = v
  · exact .inr (huv ▸ hv)
  · rw [Function.update_of_ne huv] at hu
    exact hm.pulled hu

/-- A variable that the host measures is pulled to zero at first. -/
theorem Weighs.installIntrinsic (h : m.Weighs W) (v : Variable) :
    Yields (fun _ m' => Pulled W v m m') (installIntrinsic v m) := by
  refine Comes.bind (yields_onSolver (Q := fun _ m₁ => m₁ = { m with solver := m₁.solver } ∧
    Accounts W m.bindings (Function.update m.solver.target? v (some 0)) m.nextConstraint
      m₁.solver) fun s hok => ⟨rfl, ?_⟩) fun _ m₁ ⟨hf, ha⟩ => yields_onSolver fun s hok => ?_
  · exact h.accounts.step (.addEdit v Weight.strong) hok fun q hq => hq.addEdit v
  · have ha' := ha.suggest hok
    have ht := ha'.target
    rw [Function.update_idem] at ha' ht
    refine ⟨?_, ht.symm, ?_⟩
    · rw [hf]
    · rw [hf, ← ht]
      exact ha'

/-! ## Growing -/

/-- More variables, and all else as before. -/
theorem Weighs.grow (h : m.Weighs W) (hg : Grown m m') (hs : m'.solver = m.solver)
    (hb : m'.bindings = m.bindings) (hn : m'.nextConstraint = m.nextConstraint) :
    m'.Weighs W := by
  refine ⟨by rw [hs, hb, hn]; exact h.accounts, fun {u y} hu => ?_⟩
  rw [hs] at hu
  rw [hb]
  exact (h.pulled hu).imp_right fun ⟨n, a, ha, hv⟩ => ⟨n, a, ha, hg.vars hv⟩

theorem grown_put (hnone : m.region? name = none) (hname : region.name = name) :
    Grown m (m.put region) := by
  refine ⟨fun {ref v} hv => ?_, put_relations⟩
  rw [varOf?_eq region (fun _ => region?_put), if_neg]
  · exact hv
  · rintro hn
    simp [varOf?, hn, hname, hnone] at hv

/-- A region that is not there yet is made with four variables. -/
theorem Weighs.ensureRegion_cases (h : m.Weighs W) (name : String) :
    Yields (fun _ m' => m' = m ∨ m.region? name = none ∧ ∃ m₁,
      Toiled W { m with nextVariable := m.nextVariable + 4 } m₁ ∧
        m' = m₁.put (.make name m.nextVariable)) (ensureRegion name m) := by
  rw [Model.ensureRegion]
  change Comes _ _ _ ((if (m.region? name).isNone = true then _ else _ : Change Rat Unit) m)
  split
  · rename_i hnone
    rw [freshVariables_bind]
    have h₀ : ({ m with nextVariable := m.nextVariable + 4 } : Model Rat).Weighs W :=
      h.grow ⟨id, rfl⟩ rfl rfl rfl
    exact (h₀.installSizes _).bind fun _ m₁ h₁ =>
      .ok (.inr ⟨Option.isNone_iff_eq_none.1 hnone, m₁, h₁, rfl⟩)
  · exact .ok (.inl rfl)

theorem Weighs.ensureRegion (h : m.Weighs W) (name : String) :
    Yields (fun _ m' => m'.Weighs W) (ensureRegion name m) := by
  refine (h.ensureRegion_cases name).imp fun _ m' hm' => ?_
  rcases hm' with rfl | ⟨hnone, m₁, h₁, rfl⟩
  · exact h
  · have h₀ : ({ m with nextVariable := m.nextVariable + 4 } : Model Rat).Weighs W :=
      h.grow ⟨id, rfl⟩ rfl rfl rfl
    have hnone₁ : m₁.region? name = none := by
      rw [h₁.frame]
      exact hnone
    exact (h₁.weighs h₀).grow (grown_put hnone₁ rfl) put_solver put_bindings put_nextConstraint

theorem Weighs.extend (h : m.Weighs W) (hs : m.Settled) (hreg : m.region? name = some region)
    (hno : ¬ m.Has ⟨name, a⟩) : (m.extend region a).Weighs W :=
  h.grow (grown_extend hs hreg hno) put_solver put_bindings put_nextConstraint

theorem isIntrinsic_of_center {axis : Axis} (h : a.centerAxis? = some axis) :
    a.isIntrinsic = false := by
  cases a <;> first | rfl | simp [Attribute.centerAxis?] at h

/-- An attribute that is not there yet is made with a variable, which is pulled to zero just when
the host is to measure it. -/
theorem Weighs.ensureAttribute_cases (h : m.Weighs W) (hs : m.Settled) (name : String)
    (a : Attribute) : Yields (fun _ m' => m' = m ∨ ∃ region, m.region? name = some region ∧
      ¬ m.Has ⟨name, a⟩ ∧ (a.isIntrinsic = false ∧ Toiled W (m.extend region a) m' ∨
        a.isIntrinsic = true ∧ Pulled W ⟨m.nextVariable⟩ (m.extend region a) m'))
      (ensureAttribute name a m) := by
  cases hreg : m.region? name with
  | none =>
    refine Comes.ask_bind (fun region hregion => ?_) fun _ => trivial
    cases hreg.symm.trans (region_eq_ok_iff.1 hregion)
  | some region =>
    cases hv : m.varOf? ⟨name, a⟩ with
    | some v =>
      rw [ensureAttribute_of_some hreg hv]
      exact .ok (.inl rfl)
    | none =>
      have hno : ¬ m.Has ⟨name, a⟩ := not_has_iff.2 hv
      have hx := h.extend hs hreg hno
      rw [ensureAttribute_of_none hreg hv, seating]
      cases hc : a.centerAxis? with
      | some axis =>
        refine (hx.installCenter _ axis _).imp fun _ m' h' => ?_
        exact .inr ⟨region, rfl, hno, .inl ⟨isIntrinsic_of_center hc, h'⟩⟩
      | none =>
        cases hi : a.isIntrinsic with
        | true =>
          refine (hx.installIntrinsic _).imp fun _ m' h' => ?_
          exact .inr ⟨region, rfl, hno, .inr ⟨rfl, h'⟩⟩
        | false => exact .ok (.inr ⟨region, rfl, hno, .inl ⟨rfl, .refl hx⟩⟩)

theorem measures_extend (hs : m.Settled) (hreg : m.region? name = some region)
    (hi : a.isIntrinsic = true) : (m.extend region a).Measures ⟨m.nextVariable⟩ :=
  ⟨name, a, hi, by rw [varOf?_extend hs hreg, if_pos rfl]⟩

theorem Weighs.ensureAttribute (h : m.Weighs W) (hs : m.Settled) (name : String) (a : Attribute) :
    Yields (fun _ m' => m'.Weighs W) (ensureAttribute name a m) := by
  refine (h.ensureAttribute_cases hs name a).imp fun _ m' hm' => ?_
  rcases hm' with rfl | ⟨region, hreg, hno, ⟨-, h'⟩ | ⟨hi, h'⟩⟩
  · exact h
  · exact h'.weighs (h.extend hs hreg hno)
  · exact h'.weighs (h.extend hs hreg hno) (measures_extend hs hreg hi)

/-- A model affords itself what it takes. -/
theorem affords_self (m : Model Rat) (k : Nat) :
    m.Affords m.solver.limit (m.solver.tick + k) k := ⟨rfl, le_rfl⟩

/-- What every new region and every new attribute leaves be is left be by all that a batch has
made for it. -/
theorem yields_materialize {I : Model Rat → Prop} (d : Demand)
    (hregion : ∀ m e, e ∈ d.toList → m.Settled → I m →
      Yields (fun _ m' => I m') (ensureRegion e.1 m))
    (hattribute : ∀ m e a, e ∈ d.toList → a ∈ e.2 → m.Settled → I m →
      Yields (fun _ m' => I m') (ensureAttribute e.1 a m))
    (hs : m.Settled) (h : I m) : Yields (fun _ m' => I m') (materialize d m) := by
  rw [Model.materialize]
  generalize d.toList = regions at hregion hattribute ⊢
  induction regions generalizing m with
  | nil => exact .ok h
  | cons e rest ih =>
    obtain ⟨name, attributes⟩ := e
    have hall : ∀ (l : List Attribute) m₀, l ⊆ attributes → m₀.Settled →
        (∃ r, m₀.region? name = some r) → I m₀ → Yields (fun _ m₁ => m₁.Settled ∧ I m₁)
          (l.forM (Model.ensureAttribute name) m₀) := by
      intro l
      induction l with
      | nil => exact fun m₀ _ hs₀ _ h₀ => .ok ⟨hs₀, h₀⟩
      | cons a l ihl =>
        rintro m₀ hl hs₀ ⟨r, hr⟩ h₀
        refine Comes.bind ((hs₀.ensureAttribute (k := 0) (m₀.affords_self 6) hr a).and
          (hattribute m₀ _ a List.mem_cons_self (hl List.mem_cons_self) hs₀ h₀))
          fun _ m₁ h₁ => ?_
        obtain ⟨⟨hs₁, -, hh₁, -⟩, h₁⟩ := h₁
        exact ihl m₁ (fun b hb => hl (List.mem_cons_of_mem _ hb)) hs₁ (region_of_has hh₁) h₁
    refine Comes.bind (Q := fun _ m₁ => m₁.Settled ∧ I m₁) ?_ fun _ m₁ h₁ => ?_
    · refine Comes.bind ((hs.ensureRegion (k := 0) (m.affords_self 8) name).and
        (hregion m _ List.mem_cons_self hs h)) fun _ m₀ h₀ => ?_
      obtain ⟨⟨hs₀, -, hr₀, -⟩, h₀⟩ := h₀
      exact hall _ m₀ (fun _ ha => List.mem_of_mem_filter ha) hs₀ hr₀ h₀
    exact ih h₁.1 h₁.2 (fun m e he => hregion m e (List.mem_cons_of_mem _ he))
      fun m e a he => hattribute m e a (List.mem_cons_of_mem _ he)

theorem Weighs.materialize (h : m.Weighs W) (hs : m.Settled) (d : Demand) :
    Yields (fun _ m' => m'.Weighs W) (materialize d m) :=
  yields_materialize d (fun _ e _ _ h' => h'.ensureRegion e.1)
    (fun _ e a _ _ hs' h' => h'.ensureAttribute hs' e.1 a) hs h

/-! ## Relations -/

theorem fee_lowered (hr : ∀ ref ∈ r.refs, m.Has ref) (n : Nat) :
    (Constraint.make (.declared n) (m.lowered r) r.comparator r.strength.weight).fee x =
      r.regret (m.reading x) := by
  have hweight := Strength.clip_weight r.strength
  have hreq := Constraint.isRequired_make_iff (.declared n) (m.lowered r) r.comparator r.strength
  unfold Constraint.fee Relation.regret
  by_cases hq : r.strength = .required
  · rw [if_pos (hreq.2 hq), if_pos hq]
  · rw [if_neg (mt hreq.1 hq), if_neg hq]
    change Weight.clip (r.strength.weight : Rat) * r.comparator.violation
      ((m.lowered r).eval x) = _
    rw [hweight, eval_lowered hr]

/-- The variables are the same, and they are tied as before. -/
structure SameTies (m m' : Model Rat) : Prop where
  vars : m'.varOf? = m.varOf?
  bindings : m'.bindings = m.bindings
  targets : m'.solver.target? = m.solver.target?

theorem SameTies.refl (m : Model Rat) : SameTies m m := ⟨rfl, rfl, rfl⟩

theorem SameTies.trans (h : SameTies m m₁) (h' : SameTies m₁ m') : SameTies m m' :=
  ⟨h'.vars.trans h.vars, h'.bindings.trans h.bindings, h'.targets.trans h.targets⟩

theorem Toiled.sameTies (h : Toiled W m m') : SameTies m m' := by
  refine ⟨?_, ?_, h.targets⟩
  · rw [h.frame]
    rfl
  · rw [h.frame]

/-- The regret of a relation comes on top of what the model wants. -/
theorem Weighed.addRelation (h : m.Weighed) (hr : ∀ ref ∈ r.refs, m.Has ref) :
    Yields (fun _ m' => m'.Weighed ∧ SameTies m m') (addRelation r m) := by
  have hadd : Yields (fun _ m' => m'.Weighs m'.wishes ∧ SameTies m m')
      (Model.addRelation r m) := by
    rw [Model.addRelation, bind_apply, constraintOf_apply hr]
    refine Comes.bind (yields_onSolver (Q := fun _ m₁ =>
      m₁ = { m with solver := m₁.solver, nextConstraint := m.nextConstraint + 1 } ∧
      m₁.solver.target? = m.solver.target? ∧ Accounts (fun x => m.wishes x +
        r.regret (m.reading x)) m.bindings m₁.solver.target? (m.nextConstraint + 1) m₁.solver)
      fun s hok => ?_) fun _ m₁ h₁ => ?_
    · have ha := h.weighs.accounts.step (.add m.nextConstraint (m.lowered r) r.comparator
        r.strength.weight) hok fun q hq => hq.add _ _ _
      have ht := ha.target
      simp only [fee_lowered hr] at ha
      exact ⟨rfl, ht.symm, ht ▸ ha⟩
    obtain ⟨hf, ht, ha⟩ := h₁
    refine .ok ⟨?_, ?_⟩
    · have hwishes : Model.wishes { m₁ with relations := m₁.relations ++ [r], journal :=
          m₁.journal ++ r.source ++ "\n" } =
          fun x => m.wishes x + r.regret (m.reading x) := by
        funext x
        rw [hf]
        simp only [wishes, List.map_append, List.sum_append, List.map_cons, List.map_nil,
          List.sum_cons, List.sum_nil, add_zero]
        rfl
      rw [hwishes]
      refine ⟨?_, fun {u y} hu => ?_⟩
      · rw [hf]
        exact ha
      · have hp := h.weighs.pulled (ht ▸ hu)
        rw [hf]
        exact hp
    · refine ⟨?_, ?_, ht⟩
      · rw [hf]
        rfl
      · rw [hf]
  refine ((h.toSettled.addRelation (k := 0) hr (m.affords_self _)).and hadd).imp
    fun _ m' h' => ?_
  obtain ⟨⟨-, hs, -⟩, hw, hsame⟩ := h'
  exact ⟨⟨hs, hw⟩, hsame⟩

theorem Weighed.addRelations (h : m.Weighed) (hr : ∀ r ∈ rs, ∀ ref ∈ r.refs, m.Has ref) :
    Yields (fun _ m' => m'.Weighed ∧ SameTies m m') (rs.forM Model.addRelation m) := by
  induction rs generalizing m with
  | nil => exact .ok ⟨h, .refl m⟩
  | cons r rs ih =>
    refine Comes.bind (h.addRelation (hr r List.mem_cons_self)) fun _ m₁ ⟨h₁, hsame⟩ => ?_
    refine (ih h₁ fun r' hr' ref href => ?_).imp fun _ m₂ ⟨h₂, hsame'⟩ =>
      ⟨h₂, hsame.trans hsame'⟩
    rw [Has, hsame.vars]
    exact hr r' (List.mem_cons_of_mem _ hr') ref href

theorem Weighed.solve (h : m.Weighed) : m.solve.Weighed :=
  ⟨h.toSettled.solve, ⟨h.weighs.accounts, fun hu => h.weighs.pulled hu⟩⟩

/-- What was wanted before is all that a grown model wants. -/
theorem Grown.wishes_eq (hg : Grown m m') (hm : m.Mapped) : m'.wishes = m.wishes := by
  funext x
  unfold wishes
  rw [hg.relations]
  congr 1
  apply List.map_congr_left
  intro r hr
  exact Relation.regret_congr fun ref href => hg.reading (hm.resolved hr href)

/-- A batch makes what it asks for, and then it only adds relations and solves. -/
theorem Weighed.addTexts {I : Model Rat → Prop} {texts : List String} (h : m.Weighed)
    (hmade : ∀ rs, texts.mapM (Relation.parse · m.density) = .ok rs →
      Yields (fun _ m₁ => I m₁) (Model.materialize (.ofRelations rs) m)) :
    Yields (fun _ m' => ∃ m₁ m₂, I m₁ ∧ SameTies m₁ m₂ ∧ m₂.Weighed ∧ m' = m₂.solve)
      (addConstraints (some texts) m) := by
  cases hparse : texts.mapM (Relation.parse · m.density) with
  | error e =>
    rw [addConstraints_of_unread hparse]
    exact .error trivial
  | ok rs =>
    rw [addConstraints_of_read hparse]
    refine Comes.bind (((h.toSettled.materialize (k := 0) _ (m.affords_self _)).and
      (h.weighs.materialize h.toSettled _)).and (hmade rs hparse))
      fun _ m₁ ⟨⟨⟨hs, hg, hhas, _⟩, hw⟩, hI⟩ => ?_
    have h₁ : m₁.Weighed := ⟨hs, by rw [hg.wishes_eq h.toMapped]; exact hw⟩
    have hr : ∀ r ∈ rs, ∀ ref ∈ r.refs, m₁.Has ref := fun r hr ref href => by
      obtain ⟨attributes, hd, ha⟩ := Demand.mem_ofRelations.2 ⟨r, hr, href⟩
      exact hhas _ hd _ ha
    exact (h₁.addRelations hr).bind fun _ m₂ ⟨h₂, hsame⟩ => .ok ⟨m₁, m₂, hI, hsame, h₂, rfl⟩

theorem Weighed.addBatch (h : m.Weighed) (texts : Option (List String)) :
    Yields (fun _ m' => m'.Weighed) (addConstraints texts m) := by
  cases texts with
  | none => exact .error trivial
  | some texts =>
    refine (h.addTexts fun rs _ => h.weighs.materialize h.toSettled _).imp fun _ m' => ?_
    rintro ⟨-, m₂, -, -, h₂, rfl⟩
    exact h₂.solve

/-! ## Calls on one attribute -/

theorem Rebound.wishes_eq {target cap : Option Rat} (h : Rebound v target cap m m') :
    m'.wishes = m.wishes := by
  rw [h.frame]
  rfl

/-- A call that ties the variable of an attribute anew. -/
theorem weighed_rebind {f : Change Rat Unit} {target : Variable → Option Rat} {cap : Option Rat}
    {g : Variable → Change Rat Unit} (hf : f = ask (·.lookup name a) >>= g)
    (hs : Comes True (fun _ m' => m'.Settled) (fun _ m' => m'.Settled) (f m))
    (hw : ∀ v, m.lookup name a = .ok v →
      Yields (fun _ m' => m'.Weighs m.wishes ∧ Rebound v (target v) cap m m') (f m)) :
    Yields (fun _ m' => m'.Weighed ∧ ∃ v, m.lookup name a = .ok v ∧
      Rebound v (target v) cap m m') (f m) := by
  cases hl : m.lookup name a with
  | error e =>
    rw [hf, bind_apply, ask_apply, hl]
    exact .error trivial
  | ok v =>
    refine (hs.and (hw v hl)).imp fun _ m' ⟨hs', hw', hr⟩ => ⟨⟨hs', ?_⟩, v, rfl, hr⟩
    rw [hr.wishes_eq]
    exact hw'

theorem Weighed.setTo (h : m.Weighed) (name : String) (a : Attribute) (value : Rat) :
    Yields (fun _ m' => m'.Weighed ∧ ∃ v, m.lookup name a = .ok v ∧
      Rebound v (some value) none m m') (setTo name a value m) :=
  weighed_rebind rfl (h.toSettled.setTo name a value) fun _ hv => h.weighs.setTo hv value

theorem Weighed.setAtMost (h : m.Weighed) (name : String) (a : Attribute) (value : Rat) :
    Yields (fun _ m' => m'.Weighed ∧ ∃ v, m.lookup name a = .ok v ∧
      Rebound v (m.released v) (some value) m m') (setAtMost name a value m) :=
  weighed_rebind rfl (h.toSettled.setAtMost name a value) fun _ hv => h.weighs.setAtMost hv value

theorem Weighed.release (h : m.Weighed) (name : String) (a : Attribute) :
    Yields (fun _ m' => m'.Weighed ∧ ∃ v, m.lookup name a = .ok v ∧
      Rebound v (m.released v) none m m') (release name a m) :=
  weighed_rebind rfl (h.toSettled.release name a) fun _ hv => h.weighs.release hv

/-- A measured size that is news moves the tie of its variable, one that is not changes nothing. -/
structure Told (v : Variable) (measured : Int) (news : Bool) (m m' : Model Rat) : Prop where
  frame : m' = { m with solver := m'.solver }
  targets : m'.solver.target? = if news then Function.update m.solver.target? v (some measured)
    else m.solver.target?

theorem Weighs.setIntrinsic (h : m.Weighs m.wishes) (name : String) (axis : Axis)
    (measured : Int) :
    Yields (fun news m' => m'.Weighs m'.wishes ∧ ∃ v, m.varOf? ⟨name, axis.intrinsic⟩ = some v ∧
      Told v measured news m m') (setIntrinsic name axis measured m) := by
  rw [Model.setIntrinsic]
  refine Comes.ask_bind (fun v hv => ?_) fun _ => trivial
  have hvar : m.varOf? ⟨name, axis.intrinsic⟩ = some v := slot_of_measured hv
  rw [get_bind]
  split
  · exact .ok ⟨h, v, hvar, rfl, rfl⟩
  · refine Comes.bind (yields_onSolver (Q := fun _ m₁ => m₁.Weighs m₁.wishes ∧
      Told v measured true m m₁) fun s hok => ?_) fun _ m₁ h₁ => .ok ⟨h₁.1, v, hvar, h₁.2⟩
    have ha := h.accounts.suggest hok
    have ht := ha.target
    refine ⟨⟨ht ▸ ha, fun {u y} hu => ?_⟩, rfl, ht.symm⟩
    rw [← ht] at hu
    by_cases huv : u = v
    · exact .inr ⟨name, axis.intrinsic, by cases axis <;> rfl, huv ▸ hvar⟩
    · rw [Function.update_of_ne huv] at hu
      exact h.pulled hu

theorem Weighed.setIntrinsic (h : m.Weighed) (name : String) (axis : Axis) (measured : Int) :
    Yields (fun news m' => m'.Weighed ∧ ∃ v, m.varOf? ⟨name, axis.intrinsic⟩ = some v ∧
      Told v measured news m m') (setIntrinsic name axis measured m) :=
  ((h.toSettled.setIntrinsic name axis measured).and
    (h.weighs.setIntrinsic name axis measured)).imp fun _ _ ⟨hs, hw, ht⟩ => ⟨⟨hs, hw⟩, ht⟩

/-! ## Models that succeed -/

theorem weighs_blank (density : Rat) (limit : Nat) :
    (blank density limit).Weighs fun _ => 0 :=
  ⟨⟨_, _, agrees_empty limit, ledger_empty⟩, fun hu => by
    simp [Solver.target?, blank, Solver.empty] at hu⟩

theorem toiled_opening (density : Rat) (limit : Nat) :
    Yields (fun _ m' => ∃ m₀, m' = m₀.solve ∧ Toiled (fun _ => 0) (blank density limit) m₀)
      (opening density limit (blank density limit)) := by
  have hpin : ∀ m₁, m₁.Weighs (fun _ => 0) → ∀ a : Attribute, Yields (fun _ m' =>
      Toiled (fun _ => 0) m₁ m') ((ask (fun _ => variableOf (blank density limit).container a) >>=
        fun v => require (.ofVariable v) .equal (.ofConstant 0)) m₁) := fun m₁ h₁ a =>
    Comes.ask_bind (fun _ _ => h₁.install _ .equal) fun _ => trivial
  have h₀ := weighs_blank density limit
  refine (h₀.installSizes _).bind fun _ m₁ h₁ => ?_
  rw [forM_pair]
  refine Comes.bind (Q := fun _ m₃ => Toiled (fun _ => 0) (blank density limit) m₃) ?_
    fun _ m₃ h₃ => .ok ⟨m₃, rfl, h₃⟩
  refine (hpin m₁ (h₁.weighs h₀) .left).bind fun _ m₂ h₂ => ?_
  refine (hpin m₂ ((h₁.trans h₂).weighs h₀) .top).bind fun _ m₃ h₃ => ?_
  exact .ok ((h₁.trans h₂).trans h₃)

theorem yields_opening (density : Rat) (limit : Nat) :
    Yields (fun _ m' => m'.Weighed) (opening density limit (blank density limit)) := by
  refine (comes_opening.and (toiled_opening density limit)).imp fun _ m' => ?_
  rintro ⟨⟨m₀, rfl, hs, -⟩, m₁, heq, h₁⟩
  have hwishes : m₁.solve.wishes = fun _ => 0 := by
    rw [h₁.frame]
    rfl
  have hw := h₁.weighs (weighs_blank density limit)
  refine ⟨hs.solve, ?_⟩
  rw [heq, hwishes]
  exact ⟨hw.accounts, fun hu => hw.pulled hu⟩

theorem Weighed.perform (h : m.Weighed) (request : Request) :
    Yields (fun _ m' => m'.Weighed) (request.perform m) := by
  cases request with
  | addConstraints texts => exact h.addBatch texts
  | setTo name a value => exact (h.setTo name a value).imp fun _ _ h' => h'.1
  | setAtMost name a value => exact (h.setAtMost name a value).imp fun _ _ h' => h'.1
  | release name a => exact (h.release name a).imp fun _ _ h' => h'.1
  | setIntrinsic name axis measured =>
    exact (h.setIntrinsic name axis measured).bind fun _ m' h' => .ok h'.1
  | solve => exact .ok h.solve

/-- The models that a new one or one built from a source becomes by calls that succeed. -/
inductive Granted : Model Rat → Prop
  | new {density : Rat} {limit : Nat} {m : Model Rat} (h : Model.new density limit = .ok m) :
      Granted m
  | build {texts : Option (List String)} {density : Rat} {limit : Nat} {m : Model Rat}
      (h : Model.build texts density limit = .ok m) : Granted m
  | call {m : Model Rat} (h : Granted m) (request : Request)
      (hok : (request.perform m).1 = .ok ()) : Granted (request.perform m).2

theorem weighed_new {density : Rat} {limit : Nat} (h : Model.new density limit = .ok m) :
    m.Weighed := by
  have hc := yields_opening density limit
  rw [opening_of_new h] at hc
  exact hc.of_ok

theorem Granted.weighed (h : Granted m) : m.Weighed := by
  induction h with
  | new h => exact weighed_new h
  | @build texts density limit m h =>
    obtain ⟨m₀, hnew, hbatch⟩ := batch_of_build h
    have hc := (weighed_new hnew).addBatch texts
    rw [hbatch] at hc
    exact hc.of_ok
  | @call m h request hok ih =>
    have hc := ih.perform request
    generalize request.perform m = p at hc hok
    obtain ⟨answer, m'⟩ := p
    obtain rfl : answer = .ok () := hok
    exact hc.of_ok

end Model

end RegionLayout
