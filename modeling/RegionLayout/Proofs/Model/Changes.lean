-- Calls that change a model, step by step: what one comes to, what its small steps do to the
-- model, and how a model begins. None of this depends on what numbers are computed with.
import RegionLayout.Model

namespace RegionLayout

open Solver

namespace Model

variable {R : Type} {m m' : Model R} {α β : Type} {X Y : Prop}
  {E E' : LayoutError → Model R → Prop} {Q Q' : α → Model R → Prop} {S : β → Model R → Prop}
  {region : Region} {v : Variable} {name : String} {a : Attribute}

/-! ## What a call comes to -/

/-- A call ends well, or fails with an error that has a reason, or runs out of turns. -/
inductive Comes (X : Prop) (E : LayoutError → Model R → Prop) (Q : α → Model R → Prop) :
    Except LayoutError α × Model R → Prop
  | ok {a : α} {m : Model R} (h : Q a m) : Comes X E Q (.ok a, m)
  | error {e : LayoutError} {m : Model R} (h : E e m) : Comes X E Q (.error e, m)
  | spent {m : Model R} (h : X) : Comes X E Q (.error (.solver .pivotLimit), m)

theorem Comes.mono {p : Except LayoutError α × Model R} (h : Comes X E Q p) (hX : X → Y)
    (hE : ∀ e m, E e m → E' e m) (hQ : ∀ a m, Q a m → Q' a m) : Comes Y E' Q' p := by
  cases h with
  | ok h => exact .ok (hQ _ _ h)
  | error h => exact .error (hE _ _ h)
  | spent h => exact .spent (hX h)

theorem Comes.imp {p : Except LayoutError α × Model R} (h : Comes X E Q p)
    (hQ : ∀ a m, Q a m → Q' a m) : Comes X E Q' p := h.mono id (fun _ _ he => he) hQ

/-- A call that has no reason to fail. -/
theorem Comes.sure {p : Except LayoutError α × Model R} (h : Comes X (fun _ _ => False) Q p)
    (hX : X → Y) : Comes Y E Q p := h.mono hX (fun _ _ => False.elim) fun _ _ hq => hq

theorem Comes.of_ok {a : α} (h : Comes X E Q (.ok a, m)) : Q a m := by
  cases h with
  | ok h => exact h

theorem bind_apply (f : Change R α) (g : α → Change R β) (m : Model R) :
    (f >>= g) m = match f m with
      | (.ok a, m') => g a m'
      | (.error e, m') => (.error e, m') := by
  change (match f m with
    | (a, m') => ExceptT.bindCont g a m') = _
  cases f m with
  | mk a m' => cases a <;> rfl

theorem Comes.bind {f : Change R α} {g : α → Change R β} (hf : Comes X E Q (f m))
    (hg : ∀ a m', Q a m' → Comes X E S (g a m')) : Comes X E S ((f >>= g) m) := by
  rw [bind_apply]
  generalize f m = p at hf
  cases hf with
  | ok h => exact hg _ _ h
  | error h => exact .error h
  | spent h => exact .spent h

theorem eq_of_answer {p : Except LayoutError α × Model R} {x : Except LayoutError α}
    (h : p.1 = x) : p = (x, p.2) := Prod.ext h rfl

/-- What a call that ends well comes to. -/
abbrev Yields (Q : α → Model R → Prop) : Except LayoutError α × Model R → Prop :=
  Comes True (fun _ _ => True) Q

theorem Comes.and {p : Except LayoutError α × Model R} (h : Comes X E Q p) (h' : Yields Q' p) :
    Yields (fun a m => Q a m ∧ Q' a m) p := by
  cases h with
  | ok h =>
    cases h' with
    | ok h' => exact .ok ⟨h, h'⟩
  | error => exact .error trivial
  | spent => exact .spent trivial

theorem Comes.both {p : Except LayoutError α × Model R} (h : Comes False E Q p)
    (h' : Comes False E' Q' p) :
    Comes False (fun e m => E e m ∧ E' e m) (fun a m => Q a m ∧ Q' a m) p := by
  cases h with
  | ok h =>
    cases h' with
    | ok h' => exact .ok ⟨h, h'⟩
  | error h =>
    cases h' with
    | error h' => exact .error ⟨h, h'⟩
    | spent h' => exact h'.elim
  | spent h => exact h.elim

/-! ## Steps -/

theorem get_bind (g : Model R → Change R β) (m : Model R) : (get >>= g) m = g m m := rfl

theorem ask_apply (f : Model R → Except LayoutError α) (m : Model R) : ask f m = (f m, m) := by
  rw [ask, get_bind]
  cases f m <;> rfl

theorem ask_bind {f : Model R → Except LayoutError α} {a : α} (h : f m = .ok a)
    (g : α → Change R β) : (ask f >>= g) m = g a m := by
  rw [bind_apply, ask_apply, h]

theorem Comes.ask_bind {f : Model R → Except LayoutError α} {g : α → Change R β}
    (hok : ∀ a, f m = .ok a → Comes X E S (g a m)) (herr : ∀ e, E e m) :
    Comes X E S ((ask f >>= g) m) := by
  rw [bind_apply, ask_apply]
  cases hf : f m with
  | ok a => exact hok a hf
  | error e => exact .error (herr e)

theorem onSolver_apply (wrap : Fault → LayoutError) (f : Solver R → Answer R Unit)
    (m : Model R) : onSolver wrap f m =
      ((f m.solver).1.mapError wrap, { m with solver := (f m.solver).2 }) := by
  rw [onSolver, get_bind]
  cases f m.solver with
  | mk answer s => cases answer <;> rfl

theorem yields_onSolver {wrap : Fault → LayoutError} {f : Solver R → Answer R Unit}
    {Q : Unit → Model R → Prop}
    (h : ∀ s, f m.solver = (.ok (), s) → Q () { m with solver := s }) :
    Yields Q (onSolver wrap f m) := by
  rw [onSolver_apply]
  cases hf : f m.solver with
  | mk answer s =>
    cases answer with
    | ok => exact .ok (h s hf)
    | error fault => exact .error trivial

theorem freshConstraint_bind (g : ConstraintId → Change R β) (m : Model R) :
    (freshConstraint >>= g) m =
      g (.declared m.nextConstraint) { m with nextConstraint := m.nextConstraint + 1 } := rfl

theorem freshVariables_bind (count : Nat) (g : Nat → Change R β) (m : Model R) :
    (freshVariables count >>= g) m =
      g m.nextVariable { m with nextVariable := m.nextVariable + count } := rfl

theorem variableOf_some (h : region.get? a = some v) : variableOf region a = .ok v := by
  rw [variableOf, h]

theorem forM_pair (f : α → Change R PUnit) (a b : α) :
    [a, b].forM f = f a >>= fun _ => f b >>= fun _ => pure ⟨⟩ := rfl

theorem mapM_apply {f : α → Change R β} {g : α → β} {l : List α}
    (h : ∀ a ∈ l, f a m = (.ok (g a), m)) : l.mapM f m = (.ok (l.map g), m) := by
  induction l with
  | nil => rfl
  | cons a l ih =>
    rw [List.mapM_cons, bind_apply, h a List.mem_cons_self]
    dsimp only
    rw [bind_apply, ih fun b hb => h b (List.mem_cons_of_mem _ hb)]
    rfl

/-! ## A region put in its place -/

def put (m : Model R) (region : Region) : Model R :=
  if region.name = containerName then { m with container := region }
  else { m with regions := m.regions.insert region.name region }

@[simp] theorem put_solver : (m.put region).solver = m.solver := by unfold put; split <;> rfl

@[simp] theorem put_relations : (m.put region).relations = m.relations := by
  unfold put; split <;> rfl

@[simp] theorem put_bindings : (m.put region).bindings = m.bindings := by
  unfold put; split <;> rfl

@[simp] theorem put_values : (m.put region).values = m.values := by unfold put; split <;> rfl

@[simp] theorem put_nextVariable : (m.put region).nextVariable = m.nextVariable := by
  unfold put; split <;> rfl

@[simp] theorem put_nextConstraint : (m.put region).nextConstraint = m.nextConstraint := by
  unfold put; split <;> rfl

theorem region?_put : (m.put region).region? name =
    if name = region.name then some region else m.region? name := by
  by_cases hr : region.name = containerName
  · simp only [put, hr, if_true, region?]
    split <;> rfl
  · simp only [put, hr, if_false, region?, SortedMap.get?_insert]
    by_cases hn : name = region.name
    · rw [if_pos hn, if_pos hn, if_neg (hn ▸ hr)]
    · rw [if_neg hn, if_neg hn]

theorem get?_make (name : String) (first : Nat) (a : Attribute) : (Region.make name first).get? a =
    if a.isPrimary = true then some ⟨first + a.rank⟩ else none := by
  cases a <;> rfl

/-! ## How a model begins -/

variable [Scalar R] {density : R} {limit : Nat} {texts : Option (List String)} {m₀ : Model R}

/-- A model before anything is required of it. -/
def blank (density : R) (limit : Nat) : Model R :=
  { density, solver := .empty limit, container := .make containerName 0, nextVariable := 4 }

/-- What a model requires of its container. -/
def opening (density : R) (limit : Nat) : Change R Unit := do
  installSizes (blank density limit).container
  [Attribute.left, Attribute.top].forM fun a => do
    let v ← ask fun _ => variableOf (blank density limit).container a
    require (.ofVariable v) .equal (.ofConstant 0)
  modify Model.solve

theorem opening_of_new (h : Model.new density limit = .ok m) :
    opening density limit (blank density limit) = (.ok (), m) := by
  unfold Model.new at h
  split at h
  · simp at h
  · dsimp only at h
    split at h
    · rename_i hrun
      obtain rfl := Except.ok.inj h
      exact hrun
    · simp at h

theorem new_of_opening (hd : Scalar.isPositive density = true)
    (h : (opening density limit (blank density limit)).1 = .ok ()) :
    Model.new density limit = .ok (opening density limit (blank density limit)).2 := by
  unfold Model.new
  rw [if_neg (by simp [hd])]
  dsimp only
  split
  · rename_i hrun
    rw [show opening density limit (blank density limit) = _ from hrun]
  · rename_i hrun
    rw [show opening density limit (blank density limit) = _ from hrun] at h
    simp at h

theorem batch_of_build (h : Model.build texts density limit = .ok m) :
    ∃ m₀, Model.new density limit = .ok m₀ ∧ Model.addConstraints texts m₀ = (.ok (), m) := by
  unfold Model.build at h
  cases hnew : Model.new density limit with
  | error e => simp [hnew, Bind.bind, Except.bind] at h
  | ok m₀ =>
    simp only [hnew, Bind.bind, Except.bind] at h
    split at h
    · rename_i hrun
      obtain rfl := Except.ok.inj h
      exact ⟨m₀, rfl, hrun⟩
    · simp at h

theorem build_of_new (hnew : Model.new density limit = .ok m₀)
    (hbatch : Model.addConstraints texts m₀ = (.ok (), m)) :
    Model.build texts density limit = .ok m := by
  unfold Model.build
  simp only [hnew, Bind.bind, Except.bind, hbatch]
  rfl

/-- A batch that cannot be read changes nothing. -/
theorem addConstraints_of_unread {texts : List String} {e : LayoutError}
    (h : texts.mapM (Relation.parse · m.density) = .error e) :
    Model.addConstraints (some texts) m = (.error e, m) := by
  have hask : ask (fun m : Model R => texts.mapM fun t => Relation.parse t m.density) m =
      (.error e, m) := by rw [ask_apply, h]
  change (ask (fun m : Model R => texts.mapM fun t => Relation.parse t m.density) >>= _) m = _
  rw [bind_apply, hask]

/-- One that can be read is made room for first, and then added relation by relation. -/
theorem addConstraints_of_read {texts : List String} {rs : List (Relation R)}
    (h : texts.mapM (Relation.parse · m.density) = .ok rs) :
    Model.addConstraints (some texts) m = (Model.materialize (.ofRelations rs) >>= fun _ =>
      rs.forM Model.addRelation >>= fun _ => modify Model.solve) m := by
  change (ask (fun m : Model R => texts.mapM fun t => Relation.parse t m.density) >>= _) m = _
  rw [ask_bind h]

end Model

end RegionLayout
