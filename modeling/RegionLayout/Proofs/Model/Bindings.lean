-- What calls on single attributes do to the grounds. One that ties an attribute anew takes back what
-- it was told before, so that of all it was told only the last is held; and a measured size moves
-- an edit that is there already.
import RegionLayout.Proofs.Model.Grounds

namespace RegionLayout

open Solver

namespace Model

variable {R : Type} {told : Tellings R} {ref ref' : AttributeRef} {v : Variable}
  {m m' m₁ m₂ : Model R} {wish : Option (Wish R)}

/-! ## One telling more -/

theorem drawn_append_of_ne (h : ref ≠ ref') :
    Drawn (told ++ [(ref, wish)]) ref' ↔ Drawn told ref' := by
  simp [Drawn, latest_append, h, Ne.symm h]

theorem drawn_append_exactly (x : R) : Drawn (told ++ [(ref, some (.exactly x))]) ref :=
  .inl ⟨x, by rw [latest_append, if_pos rfl]⟩

/-- Once an attribute is told something else than a value, its wish says no more whether it is
drawn. -/
theorem drawn_append_iff (h : ∀ x, wish ≠ some (.exactly x)) :
    Drawn (told ++ [(ref, wish)]) ref ↔
      ref.attr.isIntrinsic = true ∧ ∀ x, (ref, some (.exactly x)) ∉ told := by
  have hne (x : R) : (ref, some (Wish.exactly x)) ≠ (ref, wish) := fun he =>
    h x (Prod.mk.inj he).2.symm
  simp [Drawn, latest_append, h, fun x => (h x).symm]

theorem drawn_append_of_exactly {x : R} (hl : latest told ref = some (.exactly x))
    (h : ∀ x, wish ≠ some (.exactly x)) : ¬ Drawn (told ++ [(ref, wish)]) ref := by
  rw [drawn_append_iff h]
  exact fun hd => hd.2 x (mem_of_latest hl)

theorem drawn_append_of_not_exactly (hl : ∀ x, latest told ref ≠ some (.exactly x))
    (h : ∀ x, wish ≠ some (.exactly x)) :
    Drawn (told ++ [(ref, wish)]) ref ↔ Drawn told ref := by
  rw [drawn_append_iff h, Drawn]
  simp [hl]

theorem owed_append_of_ne {d : Duty} (h : ref ≠ ref') :
    d.Owed (told ++ [(ref, wish)]) ref' ↔ d.Owed told ref' := by
  cases d <;> simp [Duty.Owed, drawn_append_of_ne h, latest_append, h]

theorem owed_append {d : Duty} (hp : d ≠ .pull) (hh : d ≠ .hold) :
    d.Owed (told ++ [(ref, wish)]) ref' ↔ d.Owed told ref' := by
  cases d <;> first | rfl | contradiction

/-! ## Tying a variable anew -/

section Retied

variable {held held₁ held₂ : Ground → Option (Constraint R)}

/-- Only what draws one variable or holds it down may be another, in the solver and among the
bindings. -/
structure Retied (v : Variable) (held : Ground → Option (Constraint R)) (m : Model R)
    (held' : Ground → Option (Constraint R)) (m' : Model R) : Prop where
  frame : m' = { m with
    solver := m'.solver, nextConstraint := m'.nextConstraint, bindings := m'.bindings }
  filed : Filed held' m'.solver
  kept : ∀ g, g ≠ .duty .pull v → g ≠ .duty .hold v → held' g = held g
  bindings : ∀ u, u ≠ v → m'.bindings.get? u = m.bindings.get? u
  edits : ∀ u, u ≠ v → m'.solver.edits.get? u = m.solver.edits.get? u

theorem Retied.refl (h : Filed held m.solver) : Retied v held m held m :=
  ⟨rfl, h, fun _ _ _ => rfl, fun _ _ => rfl, fun _ _ => rfl⟩

theorem Retied.trans (h : Retied v held m held₁ m₁) (h' : Retied v held₁ m₁ held₂ m₂) :
    Retied v held m held₂ m₂ where
  frame := by rw [h'.frame, h.frame]
  filed := h'.filed
  kept g hp hh := (h'.kept g hp hh).trans (h.kept g hp hh)
  bindings u hu := (h'.bindings u hu).trans (h.bindings u hu)
  edits u hu := (h'.edits u hu).trans (h.edits u hu)

theorem Retied.bound (h : Retied v held m held₁ m₁) (b : Binding R) :
    Retied v held m held₁ { m₁ with bindings := m₁.bindings.insert v b } where
  frame := by rw [h.frame]
  filed := h.filed
  kept := h.kept
  bindings u hu := by
    rw [SortedMap.get?_insert, if_neg hu]
    exact h.bindings u hu
  edits := h.edits

theorem Retied.unbound (h : Retied v held m held₁ m₁) :
    Retied v held m held₁ { m₁ with bindings := m₁.bindings.erase v } where
  frame := by rw [h.frame]
  filed := h.filed
  kept := h.kept
  bindings u hu := by
    rw [SortedMap.get?_erase, if_neg hu]
    exact h.bindings u hu
  edits := h.edits

theorem Retied.slot? (ht : Retied v held m held₁ m₁) : m₁.slot? = m.slot? := by
  rw [ht.frame]
  rfl

theorem Retied.relations (ht : Retied v held m held₁ m₁) : m₁.relations = m.relations := by
  rw [ht.frame]

theorem Retied.kept_of_ne (ht : Retied v held m held₁ m₁) {d : Duty} {u : Variable} (hu : u ≠ v) :
    held₁ (.duty d u) = held (.duty d u) :=
  ht.kept _ (by simp [hu]) (by simp [hu])

theorem ne_of_slot_ne {u : Variable} (hv : m.slot? ref = some v)
    (hv' : m.slot? ref' = some u) (hu : u ≠ v) : ref ≠ ref' := by
  rintro rfl
  exact hu (Option.some.inj (hv'.symm.trans hv))

end Retied

variable [Scalar R] {held held' held₁ : Ground → Option (Constraint R)} {c : Constraint R}

/-- The grounds that there are for a variable that was tied as its attribute is told now, and for
the others as before. -/
theorem Grounded.due_retied (h : Grounded told held m) (hc : m.Charted)
    (hv : m.slot? ref = some v) (ht : Retied v held m held' m')
    (hpull : (∃ c, held' (.duty .pull v) = some c) ↔ Drawn (told ++ [(ref, wish)]) ref)
    (hhold : (∃ c, held' (.duty .hold v) = some c) ↔ ∃ x, wish = some (.atMost x)) (g : Ground) :
    (∃ c, held' g = some c) ↔ m'.Due (told ++ [(ref, wish)]) g := by
  cases g with
  | relation i =>
    rw [ht.kept _ (by simp) (by simp), h.due, Due, Due, ht.relations]
  | duty d u =>
    by_cases hu : u = v
    · subst u
      have honly : m'.Due (told ++ [(ref, wish)]) (.duty d v) ↔
          d.Owed (told ++ [(ref, wish)]) ref := by
        rw [Due, ht.slot?]
        exact hc.due_iff hv
      rw [honly]
      by_cases hdp : d = .pull
      · subst d
        exact hpull
      by_cases hdh : d = .hold
      · subst d
        simpa [Duty.Owed, latest_append] using hhold
      rw [ht.kept _ (by simpa using hdp) (by simpa using hdh), h.due, owed_append hdp hdh]
      exact hc.due_iff hv
    · rw [ht.kept_of_ne hu, h.due, Due, Due, ht.slot?]
      refine exists_congr fun ref' => and_congr_right fun hv' => ?_
      exact (owed_append_of_ne (ne_of_slot_ne hv hv' hu)).symm

/-- A variable that was tied as its attribute is told now. -/
theorem Grounded.rebind (h : Grounded told held m) (hc : m.Charted) (hv : m.slot? ref = some v)
    (ht : Retied v held m held' m')
    (hpull : (∃ c, held' (.duty .pull v) = some c) ↔ Drawn (told ++ [(ref, wish)]) ref)
    (hhold : (∃ c, held' (.duty .hold v) = some c) ↔ ∃ x, wish = some (.atMost x))
    (hreads : ∀ d c, held' (.duty d v) = some c → d = .pull ∨ d = .hold → m.Reads c (.duty d v))
    (hbound : Binds held' m'.solver ref v wish (m'.bindings.get? v)) :
    Grounded (told ++ [(ref, wish)]) held' m' := by
  refine ⟨ht.filed, h.due_retied hc hv ht hpull hhold, fun {g c} hg => ?_,
    fun {ref' u} hv' => ?_, fun {u} hu => ?_, fun {ref'} hnone w hw => ?_⟩
  · -- what ties the variable is new, and all else is what it was
    have hread : m.Reads c g := by
      by_cases hp : g = .duty .pull v
      · subst g
        exact hreads _ c hg (.inl rfl)
      by_cases hh : g = .duty .hold v
      · subst g
        exact hreads _ c hg (.inr rfl)
      rw [ht.kept g hp hh] at hg
      exact h.reads hg
    exact hread.mono (fun hv => by rwa [ht.slot?]) fun hi => by rwa [ht.relations]
  · rw [ht.slot?] at hv'
    rw [latest_append]
    by_cases hu : u = v
    · subst u
      rw [if_pos (hc.own hv hv'), ← hc.own hv hv']
      exact hbound
    · rw [if_neg (ne_of_slot_ne hv hv' hu), ht.bindings u hu]
      exact (h.bound hv').mono (fun _ hc' => (ht.kept_of_ne hu).trans hc') fun e he =>
        (ht.edits u hu).trans he
  · rw [ht.slot?] at hu
    rw [ht.bindings u fun heq => hu ref (heq ▸ hv)]
    exact h.unbound hu
  · rw [ht.slot?] at hnone
    rcases List.mem_append.1 hw with hw | hw
    · exact h.untold hnone w hw
    · obtain ⟨rfl, -⟩ := Prod.mk.inj (List.mem_singleton.1 hw)
      cases hnone.symm.trans hv

theorem Grounded.rebind_exactly (h : Grounded told held m) (hc : m.Charted)
    (hv : m.slot? ref = some v) (ht : Retied v held m held' m') {x : R} {id : ConstraintId}
    (hp : held' (.duty .pull v) = some (pulling id v Weight.strong))
    (hh : held' (.duty .hold v) = none) (hb : m'.bindings.get? v = some .exact)
    (he : ∃ e, m'.solver.edits.get? v = some e ∧ e.target = x) :
    Grounded (told ++ [(ref, some (.exactly x))]) held' m' := by
  refine h.rebind hc hv ht (iff_of_true ⟨_, hp⟩ (drawn_append_exactly x)) (by simp [hh])
    (fun d c hd hor => ?_) (hb ▸ .exact fun _ => he)
  rcases hor with rfl | rfl
  · obtain rfl := Option.some.inj (hp.symm.trans hd)
    rfl
  · cases hh.symm.trans hd

/-- When a variable is not told a value, it stays drawn if it was drawn for another reason than the
value it was told last. -/
theorem Grounded.rebind_other (h : Grounded told held m) (hc : m.Charted)
    (hv : m.slot? ref = some v) (ht : Retied v held m held' m') (hw : ∀ x, wish ≠ some (.exactly x))
    (hp : (∃ x, latest told ref = some (.exactly x)) ∧ held' (.duty .pull v) = none ∨
      (∀ x, latest told ref ≠ some (.exactly x)) ∧ held' (.duty .pull v) = held (.duty .pull v))
    (hhold : (∃ c, held' (.duty .hold v) = some c) ↔ ∃ x, wish = some (.atMost x))
    (hreads : ∀ c, held' (.duty .hold v) = some c → ∃ y, c = holding c.id v y)
    (hbound : Binds held' m'.solver ref v wish (m'.bindings.get? v)) :
    Grounded (told ++ [(ref, wish)]) held' m' := by
  refine h.rebind hc hv ht ?_ hhold (fun d c hd hor => ?_) hbound
  · rcases hp with ⟨⟨x, hx⟩, hp⟩ | ⟨hx, hp⟩
    · rw [hp]
      exact iff_of_false (by simp) (drawn_append_of_exactly hx hw)
    · rw [hp, h.due, drawn_append_of_not_exactly hx hw]
      exact hc.due_iff hv
  · rcases hor with rfl | rfl
    · rcases hp with ⟨-, hp⟩ | ⟨-, hp⟩
      · cases hp.symm.trans hd
      · exact h.reads (hp ▸ hd)
    · exact hreads c hd

theorem Grounded.rebind_atMost (h : Grounded told held m) (hc : m.Charted)
    (hv : m.slot? ref = some v) (ht : Retied v held m held' m') {x y : R} {id : ConstraintId}
    (hp : (∃ x, latest told ref = some (.exactly x)) ∧ held' (.duty .pull v) = none ∨
      (∀ x, latest told ref ≠ some (.exactly x)) ∧ held' (.duty .pull v) = held (.duty .pull v))
    (hh : held' (.duty .hold v) = some (holding id v y))
    (hb : m'.bindings.get? v = some (.atMost id y)) (hy : y = x ∨ (y == x) = true) :
    Grounded (told ++ [(ref, some (.atMost x))]) held' m' := by
  refine h.rebind_other hc hv ht (by simp) hp (by simp [hh]) (fun c hd => ?_)
    (hb ▸ .atMost hh hy)
  obtain rfl := Option.some.inj (hh.symm.trans hd)
  exact ⟨y, rfl⟩

theorem Grounded.rebind_none (h : Grounded told held m) (hc : m.Charted)
    (hv : m.slot? ref = some v) (ht : Retied v held m held' m')
    (hp : (∃ x, latest told ref = some (.exactly x)) ∧ held' (.duty .pull v) = none ∨
      (∀ x, latest told ref ≠ some (.exactly x)) ∧ held' (.duty .pull v) = held (.duty .pull v))
    (hh : held' (.duty .hold v) = none) (hb : m'.bindings.get? v = none) :
    Grounded (told ++ [(ref, none)]) held' m' := by
  refine h.rebind_other hc hv ht (by simp) hp (by simp [hh]) (fun c hd => ?_) (hb ▸ .free)
  cases hh.symm.trans hd

theorem Grounded.hold_eq_none (h : Grounded told held m) (hc : m.Charted)
    (hv : m.slot? ref = some v) (hw : ∀ x, latest told ref ≠ some (.atMost x)) :
    held (.duty .hold v) = none :=
  h.held_eq_none fun hd => by
    obtain ⟨x, hx⟩ := (hc.due_iff hv).1 hd
    exact hw x hx

/-! ## Steps of the calls -/

theorem Filed.letGo (h : Filed held m.solver) {id : ConstraintId}
    (hg : held (.duty .hold v) = some c) (hid : c.id = id) :
    Serves (fun _ m' => Retied v held m (Function.update held (.duty .hold v) none) m' ∧
      m' = { m with solver := m'.solver })
      (onSolver .solver (·.remove id) m) := by
  refine serves_onSolver fun s hok => ?_
  obtain ⟨-, hr⟩ := register_of_remove hok
  subst hid
  refine ⟨⟨rfl, h.erase hg (by simp) hr, fun g _ hne => Function.update_of_ne hne .., fun _ _ => rfl,
    fun u _ => ?_⟩, rfl⟩
  change s.edits.get? u = _
  rw [show s.edits = m.solver.edits from (Prod.mk.inj hr).2]

theorem Filed.removeEdit (h : Filed held m.solver) (v : Variable) :
    Serves (fun _ m' => Retied v held m (Function.update held (.duty .pull v) none) m' ∧
      m' = { m with solver := m'.solver })
      (onSolver .solver (·.removeEdit v) m) := by
  refine serves_onSolver fun s hok => ?_
  obtain ⟨e, he, hr⟩ := register_of_removeEdit hok
  refine ⟨⟨rfl, h.erase_edit he hr, fun g hne _ => Function.update_of_ne hne .., fun _ _ => rfl,
    fun u hu => ?_⟩, rfl⟩
  change s.edits.get? u = _
  rw [show s.edits = m.solver.edits.erase v from (Prod.mk.inj hr).2, SortedMap.get?_erase, if_neg hu]

/-- A variable is pulled to a value, by the edit that it has or else by a new one. -/
theorem Retied.draw (h : Retied v held m held₁ m₁)
    (hreads : ∀ c, held₁ (.duty .pull v) = some c → c = pulling c.id v Weight.strong) (value : R) :
    Serves (fun _ m' => ∃ held', Retied v held m held' m' ∧
      held' (.duty .hold v) = held₁ (.duty .hold v) ∧
      (∃ id, held' (.duty .pull v) = some (pulling id v Weight.strong)) ∧
      m'.bindings.get? v = some .exact ∧ ∃ e, m'.solver.edits.get? v = some e ∧ e.target = value)
      ((if (!m₁.solver.hasEdit v) = true then
        onSolver .solver (·.addEdit v Weight.strong) >>= fun _ =>
          Model.bind v .exact >>= fun _ => onSolver .solver (·.suggest v value)
      else Model.bind v .exact >>= fun _ => onSolver .solver (·.suggest v value)) m₁) := by
  -- both ways come to a model where the variable has an edit, and go on alike
  have hpull (m₂ : Model R) (held₂) (h₂ : Retied v held m held₂ m₂)
      (hhold : held₂ (.duty .hold v) = held₁ (.duty .hold v))
      (hheld : ∃ id, held₂ (.duty .pull v) = some (pulling id v Weight.strong)) :
      Serves (fun _ m' => ∃ held', Retied v held m held' m' ∧
        held' (.duty .hold v) = held₁ (.duty .hold v) ∧
        (∃ id, held' (.duty .pull v) = some (pulling id v Weight.strong)) ∧
        m'.bindings.get? v = some .exact ∧ ∃ e, m'.solver.edits.get? v = some e ∧ e.target = value)
        ((Model.bind v .exact >>= fun _ => onSolver .solver (·.suggest v value)) m₂) := by
    refine Comes.imp ((h₂.bound .exact).filed.suggest (m := { m₂ with
      bindings := m₂.bindings.insert v .exact }) v value) fun _ m₃ ⟨hframe, hfiled, ht, hedits⟩ => ?_
    refine ⟨held₂, (h₂.bound .exact).trans ⟨?_, hfiled, fun _ _ _ => rfl, fun u _ => ?_, hedits⟩,
      hhold, hheld, ?_, ht⟩
    · rw [hframe]
    · rw [hframe]
    · rw [hframe]
      exact (SortedMap.get?_insert _ _ _ _).trans (if_pos rfl)
  cases hedit : m₁.solver.hasEdit v with
  | true =>
    obtain ⟨e, he⟩ := (SortedMap.contains_eq_true_iff _).1 hedit
    have hheld := h.filed.pulls.2 ⟨e, he, rfl⟩
    exact hpull m₁ held₁ h rfl ⟨_, hheld.trans (congrArg some (hreads _ hheld))⟩
  | false =>
    refine Comes.bind (h.filed.addEdit v Weight.strong) fun _ m₂ ⟨hframe, _, ⟨id, h₂⟩, hedits⟩ => ?_
    refine hpull m₂ _ (h.trans ⟨?_, h₂, fun g hp _ => Function.update_of_ne hp .., fun u _ => ?_,
      hedits⟩) (Function.update_of_ne (by simp) ..) ⟨id, Function.update_self ..⟩
    · rw [hframe]
    · rw [hframe]

/-- A variable is held down by a new constraint. -/
theorem Retied.holdDown (h : Retied v held m held₁ m₁) (hno : held₁ (.duty .hold v) = none)
    (value : R) :
    Serves (fun _ m' => ∃ id, Retied v held m
      (Function.update held₁ (.duty .hold v) (some (holding id v value))) m' ∧
      m'.bindings.get? v = some (.atMost id value))
      ((freshConstraint >>= fun id => onSolver .solver (·.add (.relate id (.ofVariable v) .atMost
        (.ofConstant value) Weight.strong)) >>= fun _ => Model.bind v (.atMost id value)) m₁) := by
  rw [freshConstraint_bind]
  refine Comes.bind (Q := fun _ m₂ => Retied v held m (Function.update held₁ (.duty .hold v)
    (some (holding (.declared m₁.nextConstraint) v value))) m₂) ?_ fun _ m₂ h₂ =>
      .ok ⟨.declared m₁.nextConstraint, h₂.bound _, ?_⟩
  · refine serves_onSolver fun s hok => ?_
    have hadd := registered_add m₁.solver (holding (.declared m₁.nextConstraint) v value)
    rw [show m₁.solver.add (holding (.declared m₁.nextConstraint) v value) = (.ok (), s) from hok]
      at hadd
    cases hadd with
    | entered tag hnew hr =>
      refine h.trans ⟨rfl, h.filed.insert hno (by simp) hnew hr,
        fun g _ hne => Function.update_of_ne hne .., fun _ _ => rfl, fun u _ => ?_⟩
      change s.edits.get? u = _
      rw [show s.edits = m₁.solver.edits from (Prod.mk.inj hr).2]
  · exact (SortedMap.get?_insert _ _ _ _).trans (if_pos rfl)

/-! ## The calls -/

variable {name : String} {a : Attribute}

/-- A call on one attribute: it fails without a change when there is no such attribute, and the
model is as told when it ends well. -/
theorem Grounded.comes_call {f : Change R Unit} {k : Variable → Change R Unit} {told' : Tellings R}
    (h : Grounded told held m) (hf : f = ask (·.lookup name a) >>= k)
    (hk : ∀ v, m.slot? ⟨name, a⟩ = some v →
      Serves (fun _ m' => ∃ held', Grounded told' held' m') (k v m)) :
    Upholds told told' (f m) := by
  subst hf
  refine Comes.ask_bind (fun v hv => ?_) fun _ _ => ⟨held, h⟩
  exact (hk v (lookup_eq_ok_iff.1 hv)).mono id
    (fun e m' ⟨fault, he⟩ hno => absurd he (hno fault)) fun _ _ hq => hq

theorem Grounded.setTo (h : Grounded told held m) (hc : m.Charted) (name : String) (a : Attribute)
    (value : R) :
    Upholds told (told ++ [(⟨name, a⟩, some (.exactly value))]) (setTo name a value m) := by
  refine h.comes_call rfl fun v hv => ?_
  have hdraw {m₁ : Model R} {held₁} (h₁ : Retied v held m held₁ m₁)
      (hpull : held₁ (.duty .pull v) = held (.duty .pull v))
      (hhold : held₁ (.duty .hold v) = none) :=
    (h₁.draw (fun c hp => h.reads (g := .duty .pull v) (hpull ▸ hp)) value).imp
      fun _ m' ⟨held', ht, hh, ⟨id, hp⟩, hb, he⟩ =>
        Exists.intro held' (h.rebind_exactly hc hv ht hp (hh.trans hhold) hb he)
  have hbound := h.bound hv
  rw [get_bind]
  generalize hb : m.bindings.get? v = b at hbound
  generalize hw : latest told ⟨name, a⟩ = w at hbound
  cases hbound with
  | free => exact hdraw (.refl h.filed) rfl (h.hold_eq_none hc hv (by simp [hw]))
  | exact _ => exact hdraw (.refl h.filed) rfl (h.hold_eq_none hc hv (by simp [hw]))
  | atMost hheld _ =>
    refine Comes.bind (h.filed.letGo hheld rfl) fun _ m₁ ⟨h₁, _⟩ => ?_
    exact hdraw h₁.unbound (Function.update_of_ne (by simp) ..) (Function.update_self ..)

theorem Grounded.setAtMost (h : Grounded told held m) (hc : m.Charted) (name : String)
    (a : Attribute) (value : R) :
    Upholds told (told ++ [(⟨name, a⟩, some (.atMost value))]) (setAtMost name a value m) := by
  refine h.comes_call rfl fun v hv => ?_
  have hhold {m₁ : Model R} {held₁} (h₁ : Retied v held m held₁ m₁)
      (hp : (∃ x, latest told ⟨name, a⟩ = some (.exactly x)) ∧ held₁ (.duty .pull v) = none ∨
        (∀ x, latest told ⟨name, a⟩ ≠ some (.exactly x)) ∧
          held₁ (.duty .pull v) = held (.duty .pull v))
      (hno : held₁ (.duty .hold v) = none) :
      Serves (fun _ m' => ∃ held', Grounded (told ++ [(⟨name, a⟩, some (.atMost value))]) held' m')
        ((freshConstraint >>= fun id => onSolver .solver (·.add (.relate id (.ofVariable v) .atMost
          (.ofConstant value) Weight.strong)) >>= fun _ => Model.bind v (.atMost id value)) m₁) :=
    (h₁.holdDown hno value).imp fun _ m' ⟨id, ht, hb⟩ =>
      ⟨_, (h.rebind_atMost hc hv ht (by rwa [Function.update_of_ne (by simp)])
        (Function.update_self ..) hb (.inl rfl))⟩
  have hbound := h.bound hv
  rw [get_bind]
  generalize hb : m.bindings.get? v = b at hbound
  generalize hw : latest told ⟨name, a⟩ = w at hbound
  cases hbound with
  | free =>
    exact hhold (.refl h.filed) (.inr ⟨by simp [hw], rfl⟩) (h.hold_eq_none hc hv (by simp [hw]))
  | exact _ =>
    refine Comes.bind (h.filed.removeEdit v) fun _ m₁ ⟨h₁, _⟩ => ?_
    refine hhold h₁ (.inl ⟨⟨_, hw⟩, Function.update_self ..⟩) ?_
    rw [Function.update_of_ne (by simp)]
    exact h.hold_eq_none hc hv (by simp [hw])
  | @atMost x y id hheld _ =>
    change Comes _ _ _ ((if (y == value) = true then _ else _ : Change R Unit) m)
    split
    · -- the bound that is in force is the new one already
      rename_i heq
      exact .ok ⟨held, h.rebind_atMost hc hv (.refl h.filed) (.inr ⟨by simp [hw], rfl⟩) hheld hb
        (.inr heq)⟩
    · refine Comes.bind (h.filed.letGo hheld rfl) fun _ m₁ ⟨h₁, _⟩ => ?_
      exact hhold h₁ (.inr ⟨by simp [hw], Function.update_of_ne (by simp) ..⟩)
        (Function.update_self ..)

theorem Grounded.release (h : Grounded told held m) (hc : m.Charted) (name : String)
    (a : Attribute) :
    Upholds told (told ++ [(⟨name, a⟩, none)]) (release name a m) := by
  refine h.comes_call rfl fun v hv => ?_
  let m₀ : Model R := { m with bindings := m.bindings.erase v }
  have h₀ : Retied v held m held m₀ := (Retied.refl h.filed).unbound
  have hb₀ : m₀.bindings.get? v = none := (SortedMap.get?_erase _ _ _).trans (if_pos rfl)
  have hbound := h.bound hv
  rw [get_bind]
  generalize hb : m.bindings.get? v = b at hbound
  generalize hw : latest told ⟨name, a⟩ = w at hbound
  cases hbound with
  | free =>
    exact .ok ⟨held, h.rebind_none hc hv h₀ (.inr ⟨by simp [hw], rfl⟩)
      (h.hold_eq_none hc hv (by simp [hw])) hb₀⟩
  | exact _ =>
    refine (h₀.filed.removeEdit v).imp fun _ m₁ ⟨h₁, hframe⟩ =>
      ⟨_, h.rebind_none hc hv (h₀.trans h₁) (.inl ⟨⟨_, hw⟩, Function.update_self ..⟩) ?_ ?_⟩
    · rw [Function.update_of_ne (by simp)]
      exact h.hold_eq_none hc hv (by simp [hw])
    · rw [hframe]
      exact hb₀
  | atMost hheld _ =>
    refine (h₀.filed.letGo hheld rfl).imp fun _ m₁ ⟨h₁, hframe⟩ =>
      ⟨_, h.rebind_none hc hv (h₀.trans h₁)
        (.inr ⟨by simp [hw], Function.update_of_ne (by simp) ..⟩) (Function.update_self ..) ?_⟩
    rw [hframe]
    exact hb₀

/-- A size that the host has measured moves the edit of its variable at most. -/
theorem Grounded.setIntrinsic (h : Grounded told held m) (hc : m.Charted) (name : String)
    (axis : Axis) (measured : Int) :
    Upholds told told (setIntrinsic name axis measured m) := by
  refine Comes.ask_bind (fun v hv => ?_) fun _ _ => ⟨held, h⟩
  have hv := slot_of_measured hv
  rw [get_bind]
  split
  · exact .ok ⟨held, h⟩
  · refine Comes.bind ((h.filed.suggest v (Scalar.ofInt measured)).mono id
      (fun e m' ⟨fault, he⟩ hno => absurd he (hno fault)) fun _ _ hq => hq)
      fun _ m₁ ⟨hframe, hfiled, _, hedits⟩ => .ok ⟨held, ?_⟩
    rw [hframe]
    refine ⟨hfiled, h.due, fun hg => h.reads hg, fun {ref u} hu => ?_, h.unbound, h.untold⟩
    have hbound := h.bound hu
    by_cases huv : u = v
    · -- what the host measures was not promised to stay where it was told to be
      subst u
      obtain rfl := hc.own hv hu
      change Binds held _ _ v _ (m.bindings.get? v)
      generalize m.bindings.get? v = b at hbound ⊢
      generalize latest told ⟨name, axis.intrinsic⟩ = w at hbound ⊢
      cases hbound with
      | free => exact .free
      | exact _ => exact .exact fun hi => by cases axis <;> cases hi
      | atMost hh hy => exact .atMost hh hy
    · exact hbound.mono (fun _ => id) fun e he => (hedits u huv).trans he

end Model

end RegionLayout
