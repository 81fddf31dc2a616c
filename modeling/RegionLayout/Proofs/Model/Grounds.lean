-- What the solver of a model holds is what there are grounds for, and it is as the grounds have it.
-- A batch adds grounds and takes none away: sizes with its regions, centres and edits with their
-- attributes, and the relations that were accepted, also if a later one was not.
import RegionLayout.Proofs.Model.Filing

namespace RegionLayout

open Solver

namespace Model

variable {R : Type} {told : Tellings R} {ref : AttributeRef} {v : Variable} {m m' m₁ : Model R}
  {g : Ground} {D : AttributeRef → Prop} {wish : Option (Wish R)}

/-! ## What the constraints are -/

section Grounded

variable [Scalar R] {held held' : Ground → Option (Constraint R)} {c : Constraint R}
  {name : String} {a : Attribute}

def sizing (id : ConstraintId) (v : Variable) : Constraint R :=
  .relate id (.ofVariable v) .atLeast (.ofConstant 0) Weight.required

def pinning (id : ConstraintId) (v : Variable) : Constraint R :=
  .relate id (.ofVariable v) .equal (.ofConstant 0) Weight.required

def centering (id : ConstraintId) (center origin size : Variable) : Constraint R :=
  .make id ⟨[(center, 1), (origin, -1), (size, -(1 / 2))], 0⟩ .equal Weight.required

def holding (id : ConstraintId) (v : Variable) (value : R) : Constraint R :=
  .relate id (.ofVariable v) .atMost (.ofConstant value) Weight.strong

/-- The constraint is the relation, over the variables of its attributes. -/
def Lowers (m : Model R) (r : Relation R) (c : Constraint R) : Prop :=
  ∃ target terms, m.slot? r.target = some target ∧
    List.Forall₂ (fun t u => m.slot? t.1 = some u.1 ∧ u.2 = -t.2) r.rhs.terms.entries terms ∧
    c = .make c.id ⟨(target, 1) :: terms, -r.rhs.constant⟩ r.comparator r.strength.weight

/-- The constraint is as its ground has it. -/
def Reads (m : Model R) (c : Constraint R) : Ground → Prop
  | .duty .size v => c = sizing c.id v
  | .duty .pin v => c = pinning c.id v
  | .duty .center v => ∃ name, ∃ axis : Axis, ∃ o s, m.slot? ⟨name, axis.center⟩ = some v ∧
      m.slot? ⟨name, axis.origin⟩ = some o ∧ m.slot? ⟨name, axis.size⟩ = some s ∧
        c = centering c.id v o s
  | .duty .pull v => c = pulling c.id v Weight.strong
  | .duty .hold v => ∃ value, c = holding c.id v value
  | .relation i => ∃ r, m.relations[i]? = some r ∧ m.Lowers r c

theorem Lowers.mono {r : Relation R} (h : m.Lowers r c)
    (hs : ∀ {ref v}, m.slot? ref = some v → m'.slot? ref = some v) : m'.Lowers r c := by
  obtain ⟨target, terms, htarget, hterms, hc⟩ := h
  exact ⟨target, terms, hs htarget, hterms.imp fun _ _ ht => ⟨hs ht.1, ht.2⟩, hc⟩

theorem Reads.mono (h : m.Reads c g) (hs : ∀ {ref v}, m.slot? ref = some v → m'.slot? ref = some v)
    (hr : ∀ {i : Nat} {r}, m.relations[i]? = some r → m'.relations[i]? = some r) : m'.Reads c g := by
  cases g with
  | relation i =>
    obtain ⟨r, hi, hl⟩ := h
    exact ⟨r, hr hi, hl.mono hs⟩
  | duty d v =>
    cases d with
    | center =>
      obtain ⟨name, axis, o, s, hv, ho, hs', hc⟩ := h
      exact ⟨name, axis, o, s, hs hv, hs ho, hs hs', hc⟩
    | _ => exact h

/-- The binding of a variable is as its attribute was told last. -/
inductive Binds (held : Ground → Option (Constraint R)) (s : Solver R) (ref : AttributeRef)
    (v : Variable) : Option (Wish R) → Option (Binding R) → Prop
  | free : Binds held s ref v none none
  | exact {x : R}
      (h : ref.attr.isIntrinsic = false → ∃ e, s.edits.get? v = some e ∧ e.target = x) :
      Binds held s ref v (some (.exactly x)) (some .exact)
  | atMost {x y : R} {id : ConstraintId} (h : held (.duty .hold v) = some (holding id v y))
      (hy : y = x ∨ (y == x) = true) : Binds held s ref v (some (.atMost x)) (some (.atMost id y))

/-- What is held is in the solver, it is what there are grounds for, and the bindings are as the
attributes were told. -/
structure Grounded (told : Tellings R) (held : Ground → Option (Constraint R)) (m : Model R) :
    Prop where
  filed : Filed held m.solver
  due : ∀ g, (∃ c, held g = some c) ↔ m.Due told g
  reads : ∀ {g c}, held g = some c → m.Reads c g
  bound : ∀ {ref v}, m.slot? ref = some v →
    Binds held m.solver ref v (latest told ref) (m.bindings.get? v)
  unbound : ∀ {v}, (∀ ref, m.slot? ref ≠ some v) → m.bindings.get? v = none
  untold : ∀ {ref}, m.slot? ref = none → ∀ wish, (ref, wish) ∉ told

/-- The grounds are kept whatever the call answers, unless the solver fails; and what is told is told
when the call ends well. -/
abbrev Upholds {α : Type} (told told' : Tellings R) : Except LayoutError α × Model R → Prop :=
  Comes False (fun e m' => (∀ fault, e ≠ .solver fault) → ∃ held', Grounded told held' m')
    (fun _ m' => ∃ held', Grounded told' held' m')

theorem Grounded.held_eq_none (h : Grounded told held m) (hg : ¬ m.Due told g) : held g = none := by
  cases hc : held g with
  | none => rfl
  | some c => exact absurd ((h.due g).1 ⟨c, hc⟩) hg

theorem Binds.mono {s s' : Solver R} {b : Option (Binding R)} (h : Binds held s ref v wish b)
    (hheld : ∀ c, held (.duty .hold v) = some c → held' (.duty .hold v) = some c)
    (hedits : ∀ e, s.edits.get? v = some e → s'.edits.get? v = some e) :
    Binds held' s' ref v wish b := by
  cases h with
  | free => exact .free
  | exact hx =>
    refine .exact fun hi => ?_
    obtain ⟨e, he, ht⟩ := hx hi
    exact ⟨e, hedits e he, ht⟩
  | atMost hh hy => exact .atMost (hheld _ hh) hy

/-- The solver has what it had. -/
theorem Grounded.of_register (h : Grounded told held m) {s : Solver R} {n : Nat}
    (hr : s.register = m.solver.register) :
    Grounded told held { m with solver := s, nextConstraint := n } := by
  have hedits : s.edits = m.solver.edits := (Prod.mk.inj hr).2
  refine ⟨h.filed.of_register hr, h.due, fun hc => h.reads hc, fun hv => ?_, h.unbound, h.untold⟩
  exact (h.bound hv).mono (fun _ => id) fun e he => by rw [hedits, he]

theorem Grounded.solve (h : Grounded told held m) : Grounded told held m.solve :=
  ⟨h.filed, h.due, fun hc => h.reads hc, h.bound, h.unbound, h.untold⟩

/-- More attributes with variables, and what is owed to them is held too. -/
theorem Grounded.grow (h : Grounded told held m) (hc : m.Charted) (hg : Grows D m m')
    (hfiled : Filed held' m'.solver) (hkeep : ∀ {g c}, held g = some c → held' g = some c)
    (hdue : ∀ g, (∃ c, held' g = some c) ↔ m.Due told g ∨ ∃ d ref v, g = .duty d v ∧
      m.slot? ref = none ∧ m'.slot? ref = some v ∧ d.Owed told ref)
    (hreads : ∀ {g c}, held' g = some c → ¬ m.Due told g → m'.Reads c g)
    (hedits : ∀ {v e}, m.solver.edits.get? v = some e → m'.solver.edits.get? v = some e) :
    Grounded told held' m' := by
  have hrel : m'.relations = m.relations := by rw [hg.frame]
  have hbindings : m'.bindings = m.bindings := by rw [hg.frame]
  refine ⟨hfiled, fun g => (hdue g).trans (due_of_spreads hg.toSpreads hrel).symm,
    fun {g c} hg' => ?_, fun {ref v} hv => ?_, fun {v} hv => ?_, fun {ref} hnone => ?_⟩
  · by_cases hd : m.Due told g
    · obtain ⟨c₀, hc₀⟩ := (h.due g).2 hd
      obtain rfl := Option.some.inj (hg'.symm.trans (hkeep hc₀))
      exact (h.reads hc₀).mono hg.kept fun hi => by rwa [hrel]
    · exact hreads hg' hd
  · rw [hbindings]
    rcases hg.fresh hv with hold | ⟨hnone, -, hlt⟩
    · exact (h.bound hold).mono (fun _ => hkeep) fun _ => hedits
    · -- a variable that was just given out was never bound, nor its attribute told anything
      rw [latest_eq_none (h.untold hnone), h.unbound]
      · exact .free
      · intro ref' hv'
        exact absurd (hc.before hv') (Nat.not_lt.2 hlt)
  · rw [hbindings]
    exact h.unbound fun ref hv' => hv ref (hg.kept hv')
  · refine h.untold ?_
    cases hv : m.slot? ref with
    | none => rfl
    | some v => cases hnone.symm.trans (hg.kept hv)

/-! ## What a batch makes -/

/-- Only the solver has worked. It holds this now, and the edits there were stay. -/
structure Holding (m : Model R) (held : Ground → Option (Constraint R)) (m' : Model R) : Prop where
  bare : m'.bare = m.bare
  filed : Filed held m'.solver
  edits : ∀ {v e}, m.solver.edits.get? v = some e → m'.solver.edits.get? v = some e

theorem Holding.trans (h : Holding m held m₁) (h' : Holding m₁ held' m') : Holding m held' m' :=
  ⟨h'.bare.trans h.bare, h'.filed, fun he => h'.edits (h.edits he)⟩

/-- A constraint that has to be taken is held on its ground. -/
theorem Filed.file (h : Filed held m.solver) (hg : held g = none)
    (hp : ∀ v, g ≠ .duty .pull v) (c : Constraint R) (n : Nat) :
    Serves (fun _ m' => Holding m (Function.update held g (some c)) m')
      (onSolver .solver (·.add c) { m with nextConstraint := n }) := by
  refine serves_onSolver fun s hok => ?_
  have hadd := registered_add m.solver c
  rw [show m.solver.add c = (.ok (), s) from hok] at hadd
  cases hadd with
  | entered tag hnew hr =>
    refine ⟨rfl, h.insert hg hp hnew hr, fun {v e} he => ?_⟩
    change s.edits.get? v = some e
    rwa [show s.edits = m.solver.edits from (Prod.mk.inj hr).2]

theorem Filed.installSizes (h : Filed held m.solver) {r : Region} {u : Variable}
    (hu : r.get? .width = some u) (hv : r.get? .height = some v) (huv : u ≠ v)
    (hnone : held (.duty .size u) = none) (hnone' : held (.duty .size v) = none) :
    Serves (fun _ m' => ∃ id id', Holding m (Function.update (Function.update held
      (.duty .size u) (some (sizing id u))) (.duty .size v) (some (sizing id' v))) m')
      (installSizes r m) := by
  rw [Model.installSizes, forM_pair]
  refine Comes.bind (Q := fun _ m₁ => ∃ id, Holding m (Function.update held (.duty .size u)
    (some (sizing id u))) m₁) ?_ fun _ m₁ h₁ => ?_
  · rw [ask_bind (variableOf_some hu), Model.require, freshConstraint_bind]
    exact (h.file hnone (by simp) _ _).imp fun _ _ h₁ => ⟨_, h₁⟩
  · obtain ⟨id, h₁⟩ := h₁
    have hnone₁ : Function.update held (.duty .size u) (some (sizing id u)) (.duty .size v) =
        none := by
      rwa [Function.update_of_ne (by simp [Ne.symm huv])]
    refine Comes.bind (Q := fun _ m₂ => ∃ id', Holding m₁ _ m₂) ?_
      fun _ m₂ h₂ => .ok ⟨id, h₂.imp fun _ => h₁.trans⟩
    rw [ask_bind (variableOf_some hv), Model.require, freshConstraint_bind]
    exact (h₁.filed.file hnone₁ (by simp) _ _).imp fun _ _ h₂ => ⟨_, h₂⟩

theorem Filed.installCenter (h : Filed held m.solver) {r : Region} {axis : Axis} {o z : Variable}
    (ho : r.get? axis.origin = some o) (hz : r.get? axis.size = some z)
    (hnone : held (.duty .center v) = none) :
    Serves (fun _ m' => ∃ id, Holding m (Function.update held (.duty .center v)
      (some (centering id v o z))) m') (installCenter r axis v m) := by
  rw [Model.installCenter, ask_bind (variableOf_some ho), ask_bind (variableOf_some hz),
    freshConstraint_bind]
  exact (h.file hnone (by simp) _ _).imp fun _ _ h₁ => ⟨_, h₁⟩

/-- A variable is pulled from now on. -/
theorem Filed.addEdit (h : Filed held m.solver) (v : Variable) (weight : R) :
    Serves (fun _ m' => m' = { m with solver := m'.solver } ∧ m.solver.edits.get? v = none ∧
      (∃ id, Filed (Function.update held (.duty .pull v) (some (pulling id v weight))) m'.solver) ∧
      ∀ u, u ≠ v → m'.solver.edits.get? u = m.solver.edits.get? u)
      (onSolver .solver (·.addEdit v weight) m) := by
  refine serves_onSolver fun s hok => ?_
  obtain ⟨hv, id, tag, hnew, hr⟩ := register_of_addEdit hok
  refine ⟨rfl, hv, ⟨id, h.insert_edit (e := ⟨tag, pulling id v weight, 0⟩) hv hnew hr⟩,
    fun u hu => ?_⟩
  change s.edits.get? u = _
  rw [show s.edits = _ from (Prod.mk.inj hr).2, SortedMap.get?_insert, if_neg hu]

theorem Filed.suggest (h : Filed held m.solver) (v : Variable) (value : R) :
    Serves (fun _ m' => m' = { m with solver := m'.solver } ∧ Filed held m'.solver ∧
      (∃ e, m'.solver.edits.get? v = some e ∧ e.target = value) ∧
      ∀ u, u ≠ v → m'.solver.edits.get? u = m.solver.edits.get? u)
      (onSolver .solver (·.suggest v value) m) := by
  refine serves_onSolver fun s hok => ?_
  obtain ⟨e, he, hr⟩ := register_of_suggest hok
  have hedits : s.edits = _ := (Prod.mk.inj hr).2
  refine ⟨rfl, h.move_edit he hr, ⟨{ e with target := value }, ?_, rfl⟩, fun u hu => ?_⟩
  · change s.edits.get? v = _
    rw [hedits, SortedMap.get?_insert, if_pos rfl]
  · change s.edits.get? u = _
    rw [hedits, SortedMap.get?_insert, if_neg hu]

theorem Filed.installIntrinsic (h : Filed held m.solver) (v : Variable) :
    Serves (fun _ m' => ∃ id, Holding m (Function.update held (.duty .pull v)
      (some (pulling id v Weight.strong))) m') (installIntrinsic v m) := by
  refine (h.addEdit v Weight.strong).bind fun _ m₁ ⟨hframe₁, hv, ⟨id, h₁⟩, hedits₁⟩ => ?_
  refine (h₁.suggest v 0).imp fun _ m₂ ⟨hframe₂, h₂, _, hedits₂⟩ => ⟨id, ?_, h₂, fun {u e} he => ?_⟩
  · rw [hframe₂, hframe₁]
    rfl
  · have hu : u ≠ v := by
      rintro rfl
      cases hv.symm.trans he
    rw [hedits₂ u hu, hedits₁ u hu, he]

/-! ## New regions and attributes -/

omit [Scalar R] in
theorem drawn_of_untold (h : ∀ wish, (ref, wish) ∉ told) :
    Drawn told ref ↔ ref.attr.isIntrinsic = true := by
  simp [Drawn, latest_eq_none h, h]

omit [Scalar R] in
theorem owed_of_primary {d : Duty} (h : ∀ wish, (ref, wish) ∉ told)
    (hp : ref.attr.isPrimary = true) (hr : ref.region ≠ containerName) :
    d.Owed told ref ↔ d = .size ∧ ∃ axis : Axis, ref.attr = axis.size := by
  have hc (axis : Axis) : ref.attr ≠ axis.center := fun ha => by
    rw [ha, axis.center_not_primary] at hp
    cases hp
  have hi := Attribute.not_intrinsic_of_primary hp
  cases d <;> simp [Duty.Owed, drawn_of_untold h, latest_eq_none h, hc, hi, hr]

omit [Scalar R] in
theorem owed_of_not_primary {d : Duty} (h : ∀ wish, (ref, wish) ∉ told)
    (hp : ref.attr.isPrimary = false) : d.Owed told ref ↔
      d = .center ∧ (∃ axis : Axis, ref.attr = axis.center) ∨
        d = .pull ∧ ref.attr.isIntrinsic = true := by
  have hs (axis : Axis) : ref.attr ≠ axis.size := fun ha => by
    rw [ha, axis.size_isPrimary] at hp
    cases hp
  have ho (axis : Axis) : ref.attr ≠ axis.origin := fun ha => by
    rw [ha, axis.origin_isPrimary] at hp
    cases hp
  cases d <;> simp [Duty.Owed, drawn_of_untold h, latest_eq_none h, hs, ho]

omit [Scalar R] in
theorem Charted.due_iff (h : m.Charted) (hv : m.slot? ref = some v) {d : Duty} :
    m.Due told (.duty d v) ↔ d.Owed told ref := by
  refine ⟨?_, fun howed => ⟨ref, hv, howed⟩⟩
  rintro ⟨ref', hv', howed⟩
  obtain rfl := h.own hv hv'
  exact howed

omit [Scalar R] in
theorem Charted.not_due (h : m.Charted) (hv : m.nextVariable ≤ v.id) (d : Duty) :
    ¬ m.Due told (.duty d v) := by
  rintro ⟨ref, hs, -⟩
  exact absurd (h.before hs) (Nat.not_lt.2 hv)

omit [Scalar R] in
theorem slot?_put_make (hnone : m.region? name = none) (hm : m₁.region? = m.region?)
    (ref : AttributeRef) : (m₁.put (.make name m.nextVariable)).slot? ref =
      if ref.region = name ∧ ref.attr.isPrimary = true then some ⟨m.nextVariable + ref.attr.rank⟩
      else m.slot? ref := by
  have hslot : m₁.slot? ref = m.slot? ref := by rw [slot?, slot?, hm]
  rw [slot?_put, hslot]
  by_cases hn : ref.region = name
  · have hno : m.slot? ref = none := by rw [slot?, hn, hnone, Option.bind_none]
    rw [if_pos (show ref.region = (Region.make name m.nextVariable).name from hn), get?_make, hno]
    simp [hn]
  · rw [if_neg (show ¬ ref.region = (Region.make name m.nextVariable).name from hn),
      if_neg fun h => hn h.1]

/-- What is held once there are constraints for two sizes. -/
def sized (held : Ground → Option (Constraint R)) (n : Nat) (id id' : ConstraintId) :
    Ground → Option (Constraint R) :=
  Function.update (Function.update held (.duty .size ⟨n + 2⟩) (some (sizing id ⟨n + 2⟩)))
    (.duty .size ⟨n + 3⟩) (some (sizing id' ⟨n + 3⟩))

theorem sized_size (held : Ground → Option (Constraint R)) (n : Nat) (id id' : ConstraintId)
    (axis : Axis) : ∃ id₁, sized held n id id' (.duty .size ⟨n + axis.size.rank⟩) =
      some (sizing id₁ ⟨n + axis.size.rank⟩) := by
  cases axis
  · exact ⟨id, (Function.update_of_ne (by simp [show Axis.horizontal.size.rank = 2 from rfl]) ..).trans
      (Function.update_self ..)⟩
  · exact ⟨id', Function.update_self ..⟩

theorem sized_of_ne {n : Nat} {id id' : ConstraintId}
    (h : ∀ axis : Axis, g ≠ .duty .size ⟨n + axis.size.rank⟩) :
    sized held n id id' g = held g :=
  (Function.update_of_ne (h .vertical) ..).trans (Function.update_of_ne (h .horizontal) ..)

omit [Scalar R] in
/-- A new region is owed that its sizes are not negative. -/
theorem owed_put_make (hreg : m.region? name = none) (hm : m₁.region? = m.region?)
    (huntold : ∀ {ref}, m.slot? ref = none → ∀ wish, (ref, wish) ∉ told) :
    (∃ d ref v, g = .duty d v ∧ m.slot? ref = none ∧
      (m₁.put (.make name m.nextVariable)).slot? ref = some v ∧ d.Owed told ref) ↔
      ∃ axis : Axis, g = .duty .size ⟨m.nextVariable + axis.size.rank⟩ := by
  have hslot := slot?_put_make hreg hm
  have hcontainer : name ≠ containerName := by
    rintro rfl
    cases hreg
  constructor
  · rintro ⟨d, ref, v, rfl, hold, hv, howed⟩
    rw [hslot] at hv
    split at hv
    · rename_i hnew
      obtain rfl := Option.some.inj hv
      rw [owed_of_primary (huntold hold) hnew.2 (hnew.1 ▸ hcontainer)] at howed
      obtain ⟨rfl, axis, ha⟩ := howed
      exact ⟨axis, by rw [ha]⟩
    · cases hold.symm.trans hv
  · rintro ⟨axis, rfl⟩
    exact ⟨.size, ⟨name, axis.size⟩, _, rfl, by rw [slot?, hreg, Option.bind_none],
      (hslot _).trans (if_pos ⟨rfl, axis.size_isPrimary⟩), axis, rfl⟩

/-- A new region comes with two sizes. -/
theorem Grounded.put_make (h : Grounded told held m) (hc : m.Charted)
    (hreg : m.region? name = none) {id id' : ConstraintId}
    (hh : Holding { m with nextVariable := m.nextVariable + 4 }
      (sized held m.nextVariable id id') m₁) :
    Grounded told (sized held m.nextVariable id id') (m₁.put (.make name m.nextVariable)) := by
  have hframe := eq_of_bare hh.bare
  have hg := (widened_make (D := fun _ => True) hreg fun _ _ => trivial).grows hframe
  have howed {g : Ground} := owed_put_make (g := g) hreg
    (show m₁.region? = m.region? by rw [hframe]; rfl) h.untold
  have hfiled := hh.filed
  rw [← put_solver] at hfiled
  refine h.grow hc hg hfiled (fun {g c} hg' => ?_) (fun g => ?_)
    (fun {g c} hg' hdue => ?_) fun {v e} he => ?_
  · rw [sized_of_ne, hg']
    rintro axis rfl
    exact hc.not_due (Nat.le_add_right _ _) _ ((h.due _).1 ⟨c, hg'⟩)
  · by_cases hnew : ∃ axis : Axis, g = .duty .size ⟨m.nextVariable + axis.size.rank⟩
    · refine iff_of_true ?_ (.inr (howed.2 hnew))
      obtain ⟨axis, rfl⟩ := hnew
      obtain ⟨id₁, hs⟩ := sized_size held m.nextVariable id id' axis
      exact ⟨_, hs⟩
    · rw [sized_of_ne (not_exists.1 hnew), h.due, or_iff_left (mt howed.1 hnew)]
  · by_cases hnew : ∃ axis : Axis, g = .duty .size ⟨m.nextVariable + axis.size.rank⟩
    · obtain ⟨axis, rfl⟩ := hnew
      obtain ⟨id₁, hs⟩ := sized_size held m.nextVariable id id' axis
      obtain rfl := Option.some.inj (hs.symm.trans hg')
      rfl
    · rw [sized_of_ne (not_exists.1 hnew)] at hg'
      exact absurd ((h.due g).1 ⟨c, hg'⟩) hdue
  · rw [put_solver]
    exact hh.edits he

theorem Grounded.ensureRegion (h : Grounded told held m) (hc : m.Charted) (name : String) :
    Serves (fun _ m' => ∃ held', Grounded told held' m') (ensureRegion name m) := by
  cases hreg : m.region? name with
  | some r =>
    rw [ensureRegion_of_some hreg]
    exact .ok ⟨held, h⟩
  | none =>
    have hno {d : Duty} {k : Nat} : held (.duty d ⟨m.nextVariable + k⟩) = none :=
      h.held_eq_none (hc.not_due (Nat.le_add_right _ _) d)
    rw [ensureRegion_of_none hreg]
    exact (h.filed.installSizes (m := { m with nextVariable := m.nextVariable + 4 })
      (u := ⟨m.nextVariable + 2⟩) (v := ⟨m.nextVariable + 3⟩) rfl rfl (by simp) hno hno).bind
      fun _ m₁ ⟨_, _, h₁⟩ => .ok ⟨_, h.put_make hc hreg h₁⟩

/-- A new attribute comes with one duty at most. -/
theorem Grounded.extend (h : Grounded told held m) (hc : m.Charted) {region : Region}
    (hreg : m.region? name = some region) (hnone : m.slot? ⟨name, a⟩ = none) {d : Duty}
    (howed : ∀ d', d'.Owed told ⟨name, a⟩ ↔ d' = d)
    (hh : Holding (m.extend region a)
      (Function.update held (.duty d ⟨m.nextVariable⟩) (some c)) m')
    (hreads : (m.extend region a).Reads c (.duty d ⟨m.nextVariable⟩)) :
    Grounded told (Function.update held (.duty d ⟨m.nextVariable⟩) (some c)) m' := by
  obtain ⟨-, hg⟩ := hc.extend (D := fun _ => True) hreg hnone trivial
  have hno : ¬ m.Due told (.duty d ⟨m.nextVariable⟩) := hc.not_due (Nat.le_refl _) d
  have hslot (ref : AttributeRef) : m'.slot? ref =
      if ref = ⟨name, a⟩ then some ⟨m.nextVariable⟩ else m.slot? ref := by
    rw [← slot?_extend (hc.names hreg) hreg, eq_of_bare hh.bare]
    rfl
  refine h.grow hc (hg.of_bare hh.bare) hh.filed (fun {g c'} hg' => ?_) (fun g => ?_)
    (fun {g c'} hg' hdue => ?_) fun {v e} he => hh.edits ?_
  · rw [Function.update_of_ne, hg']
    rintro rfl
    exact hno ((h.due _).1 ⟨c', hg'⟩)
  · by_cases hd : g = .duty d ⟨m.nextVariable⟩
    · subst g
      rw [Function.update_self]
      exact iff_of_true ⟨_, rfl⟩ (.inr ⟨d, ⟨name, a⟩, _, rfl, hnone,
        (hslot _).trans (if_pos rfl), (howed d).2 rfl⟩)
    · rw [Function.update_of_ne hd, h.due]
      refine ⟨.inl, fun hdue => hdue.resolve_right ?_⟩
      rintro ⟨d', ref, v, rfl, hold, hv, ho⟩
      rw [hslot] at hv
      split at hv
      · subst ref
        obtain rfl := Option.some.inj hv
        exact hd (by rw [(howed d').1 ho])
      · cases hold.symm.trans hv
  · by_cases hd : g = .duty d ⟨m.nextVariable⟩
    · subst g
      rw [Function.update_self] at hg'
      obtain rfl := Option.some.inj hg'
      rw [eq_of_bare hh.bare]
      exact hreads
    · rw [Function.update_of_ne hd] at hg'
      exact absurd ((h.due g).1 ⟨c', hg'⟩) hdue
  · rw [Model.extend, put_solver]
    exact he

theorem Grounded.ensureAttribute (h : Grounded told held m) (hc : m.Charted) {region : Region}
    (hreg : m.region? name = some region) (a : Attribute) :
    Serves (fun _ m' => ∃ held', Grounded told held' m') (ensureAttribute name a m) := by
  cases hv : m.slot? ⟨name, a⟩ with
  | some v =>
    rw [ensureAttribute_of_some hreg hv]
    exact .ok ⟨held, h⟩
  | none =>
    have hp : a.isPrimary = false := by
      by_contra hp
      obtain ⟨v, hv'⟩ := hc.primary hreg (Bool.not_eq_false _ ▸ hp)
      cases hv.symm.trans hv'
    have howed {d : Duty} := owed_of_not_primary (d := d) (h.untold hv) hp
    have hno {d : Duty} : held (.duty d ⟨m.nextVariable⟩) = none :=
      h.held_eq_none (hc.not_due (Nat.le_refl _) d)
    have hfiled : Filed held (m.extend region a).solver := by
      rw [Model.extend, put_solver]
      exact h.filed
    have hw := hc.widened_insert (D := fun _ => True) hreg hv trivial
    have hself := region?_extend_self (m := m) (a := a) (hc.names hreg)
    rw [ensureAttribute_of_none hreg hv, seating]
    cases hcenter : a.centerAxis? with
    | some axis =>
      obtain rfl := Attribute.eq_center hcenter
      obtain ⟨o, ho⟩ := hw.primary axis.origin_isPrimary
      obtain ⟨z, hz⟩ := hw.primary axis.size_isPrimary
      refine (hfiled.installCenter (v := ⟨m.nextVariable⟩) ho hz hno).imp fun _ m' h' => ?_
      obtain ⟨id, hh⟩ := h'
      refine ⟨_, h.extend hc hreg hv (fun d' => ?_) hh ⟨name, axis, o, z,
        (slot?_extend (hc.names hreg) hreg _).trans (if_pos rfl), (slot?_of_region hself).trans ho,
        (slot?_of_region hself).trans hz, rfl⟩⟩
      have hi : axis.center.isIntrinsic = false := by cases axis <;> rfl
      rw [howed]
      simp [hi]
    | none =>
      have hi : a.isIntrinsic = true := by
        cases a <;> first | rfl | exact absurd hp (by decide) | cases hcenter
      simp only [hi, if_true]
      refine (hfiled.installIntrinsic ⟨m.nextVariable⟩).imp fun _ m' h' => ?_
      obtain ⟨id, hh⟩ := h'
      refine ⟨_, h.extend hc hreg hv (fun d' => ?_) hh rfl⟩
      have hne (axis : Axis) : a ≠ axis.center := by
        rintro rfl
        cases axis <;> cases hi
      rw [howed]
      simp [hi, hne]

/-! ## Relations -/

omit [Scalar R] in
/-- Terms are resolved one after the other, and this changes nothing. -/
theorem comes_mapM {α β : Type} {f : α → Change R β} {P : α → β → Prop}
    (h : ∀ a, Comes False (fun _ m' => m' = m) (fun b m' => m' = m ∧ P a b) (f a m)) (l : List α) :
    Comes False (fun _ m' => m' = m) (fun bs m' => m' = m ∧ List.Forall₂ P l bs) (l.mapM f m) := by
  induction l with
  | nil => exact .ok ⟨rfl, .nil⟩
  | cons a l ih =>
    rw [List.mapM_cons]
    refine (h a).bind fun b m₁ ⟨hm₁, hb⟩ => ?_
    subst m₁
    refine ih.bind fun bs m₂ ⟨hm₂, hbs⟩ => .ok ⟨hm₂, .cons hb hbs⟩

theorem comes_constraintOf (r : Relation R) (m : Model R) : Comes False (fun _ m' => m' = m)
    (fun c m' => m.Lowers r c ∧ m' = { m with nextConstraint := m.nextConstraint + 1 })
      (constraintOf r m) := by
  refine Comes.ask_bind (fun target htarget => ?_) fun _ => rfl
  refine Comes.bind (comes_mapM (P := fun t u => m.slot? t.1 = some u.1 ∧ u.2 = -t.2)
    (fun t => Comes.ask_bind (fun v hv => .ok ⟨rfl, lookup_eq_ok_iff.1 hv, rfl⟩) fun _ => rfl) _)
    fun terms m₁ ⟨hm₁, hterms⟩ => ?_
  subst m₁
  exact .ok ⟨⟨target, terms, lookup_eq_ok_iff.1 htarget, hterms, rfl⟩, rfl⟩

theorem statementError_of_internal {f : Fault} (h : f.Internal) (text : String) :
    statementError text f = .solver f := by
  obtain rfl | ⟨b, rfl⟩ := h <;> rfl

theorem Grounded.accept (h : Grounded told held m) {r : Relation R} (hl : m.Lowers r c)
    {s : Solver R} {n : Nat} {journal : String}
    (hfiled : Filed (Function.update held (.relation m.relations.length) (some c)) s)
    (hedits : s.edits = m.solver.edits) :
    Grounded told (Function.update held (.relation m.relations.length) (some c))
      { m with solver := s, nextConstraint := n, relations := m.relations ++ [r], journal } := by
  have hlist {i : Nat} {r' : Relation R} (hi : m.relations[i]? = some r') :
      (m.relations ++ [r])[i]? = some r' := by
    rw [List.getElem?_append_left (List.getElem?_eq_some_iff.1 hi).1, hi]
  refine ⟨hfiled, fun g => ?_, fun {g c'} hg => ?_, fun hv => ?_, h.unbound, h.untold⟩
  · by_cases hg : g = .relation m.relations.length
    · subst g
      rw [Function.update_self]
      simp [Due]
    · rw [Function.update_of_ne hg, h.due]
      cases g with
      | duty d v => rfl
      | relation i =>
        have hi : i ≠ m.relations.length := fun hi => hg (congrArg _ hi)
        simp only [Due, List.length_append, List.length_singleton]
        omega
  · by_cases hne : g = .relation m.relations.length
    · subst g
      rw [Function.update_self] at hg
      obtain rfl := Option.some.inj hg
      exact ⟨r, by simp, hl.mono id⟩
    · rw [Function.update_of_ne hne] at hg
      exact (h.reads hg).mono id hlist
  · refine (h.bound hv).mono (fun c' hc' => ?_) fun e he => hedits ▸ he
    rwa [Function.update_of_ne (by simp)]

/-- A relation that is accepted is held, and one that is refused leaves nothing behind. -/
theorem Grounded.addRelation (h : Grounded told held m) (r : Relation R) :
    Upholds told told (addRelation r m) := by
  rw [Model.addRelation]
  refine Comes.bind ((comes_constraintOf r m).mono id (fun e m' hm' _ => ⟨held, hm' ▸ h⟩)
    fun _ _ hq => hq) fun c m₁ ⟨hl, hm₁⟩ => ?_
  subst m₁
  rw [bind_apply, onSolver_apply]
  have hadd := registered_add m.solver c
  dsimp only
  generalize m.solver.add c = p at hadd
  cases hadd with
  | entered tag hnew hr =>
    -- the relation that comes next has its place after all that were accepted
    have hno : held (.relation m.relations.length) = none :=
      h.held_eq_none (by simp [Due])
    exact .ok ⟨_, h.accept hl (h.filed.insert hno (by simp) hnew hr) (Prod.mk.inj hr).2⟩
  | refused hf hr => exact .error fun _ => ⟨held, h.of_register hr⟩
  | failed hf => exact .error fun hno => absurd (statementError_of_internal hf _) (hno _)

theorem Grounded.addRelations (h : Grounded told held m) (rs : List (Relation R)) :
    Upholds told told (rs.forM Model.addRelation m) := by
  induction rs generalizing m held with
  | nil => exact .ok ⟨held, h⟩
  | cons r rs ih => exact (h.addRelation r).bind fun _ m₁ ⟨_, h₁⟩ => ih h₁

theorem Grounded.addBatch (h : Grounded told held m) (hc : m.Charted)
    (texts : Option (List String)) : Upholds told told (addConstraints texts m) := by
  cases texts with
  | none => exact .error fun _ => ⟨held, h⟩
  | some texts =>
    cases hparse : texts.mapM (Relation.parse · m.density) with
    | error e =>
      rw [addConstraints_of_unread hparse]
      exact .error fun _ => ⟨held, h⟩
    | ok rs =>
      rw [addConstraints_of_read hparse]
      refine Comes.bind ((hc.materialize (I := fun m => ∃ held, Grounded told held m) _ ⟨held, h⟩
        (fun m e _ hc ⟨held, h⟩ => h.ensureRegion hc e.1)
        fun m e a region _ _ hc ⟨held, h⟩ hr => h.ensureAttribute hc hr a).mono id
        (fun e m' hf hno => ?_) fun _ _ hq => hq) fun _ m₁ ⟨_, ⟨_, h₁⟩, _⟩ => ?_
      · obtain ⟨⟨fault, rfl⟩, -⟩ := hf
        exact absurd rfl (hno fault)
      · exact (h₁.addRelations rs).bind fun _ m₂ ⟨held₂, h₂⟩ => .ok ⟨held₂, h₂.solve⟩

end Grounded

end Model

end RegionLayout
