-- Models that were only called with success. What they want is weighed in one objective: the
-- soft relations, the measured sizes and what the bindings ask. So what a solve finds is off by
-- no more than any other layout that is as required.
import RegionLayout.Proofs.Model.Ledger

namespace RegionLayout

open Solver

/-! ## Ties -/

/-- What one call has asked of one variable: that its value compares with a number. -/
structure Tie where
  subject : Variable
  comparator : Comparator
  value : Rat
deriving DecidableEq

/-- How far the values are from what the tie asks. -/
def Tie.off (t : Tie) (x : Variable → Rat) : Rat := t.comparator.violation (x t.subject - t.value)

theorem Comparator.violation_nonneg (k : Comparator) (e : Rat) : 0 ≤ k.violation e := by
  cases k with
  | equal => exact abs_nonneg e
  | atMost =>
    change 0 ≤ max 0 e
    exact le_max_left 0 e
  | atLeast =>
    change 0 ≤ max 0 (-e)
    exact le_max_left 0 (-e)

theorem Tie.off_nonneg (t : Tie) (x : Variable → Rat) : 0 ≤ t.off x :=
  t.comparator.violation_nonneg _

/-- How far the values are from what the ties ask, all together. -/
def strain (ts : List Tie) (x : Variable → Rat) : Rat := (ts.map (·.off x)).sum

theorem strain_append (ts us : List Tie) (x : Variable → Rat) :
    strain (ts ++ us) x = strain ts x + strain us x := by
  simp [strain]

theorem strain_perm {ts us : List Tie} (h : ts.Perm us) (x : Variable → Rat) :
    strain ts x = strain us x := (h.map _).sum_eq

theorem strain_eq_zero {ts : List Tie} {x : Variable → Rat} (h : ∀ t ∈ ts, t.off x = 0) :
    strain ts x = 0 := by
  refine List.sum_eq_zero fun y hy => ?_
  obtain ⟨t, ht, rfl⟩ := List.mem_map.1 hy
  exact h t ht

theorem strain_nonneg (ts : List Tie) (x : Variable → Rat) : 0 ≤ strain ts x := by
  apply List.sum_nonneg
  intro y hy
  obtain ⟨t, -, rfl⟩ := List.mem_map.1 hy
  exact t.off_nonneg x

/-- What a binding asks by a constraint. -/
def Binding.ties (v : Variable) : Binding Rat → List Tie
  | .exact => []
  | .atMost _ value => [⟨v, .atMost, value⟩]

theorem Binding.strain_ties (v : Variable) (b : Binding Rat) (x : Variable → Rat) :
    strain (b.ties v) x = b.excess (x v) := by
  cases b <;> simp [strain, ties, excess, Tie.off]

/-- How much the layout misses a relation by that is only wished for. -/
def Relation.regret (r : Relation Rat) (ρ : AttributeRef → Rat) : Rat :=
  if r.strength = .required then 0 else
    r.strength.weight * r.comparator.violation (ρ r.target - r.rhs.eval ρ)

theorem Relation.regret_congr {r : Relation Rat} {ρ ρ' : AttributeRef → Rat}
    (h : ∀ ref ∈ r.refs, ρ ref = ρ' ref) : r.regret ρ = r.regret ρ' := by
  rw [Relation.regret, Relation.regret, Relation.sides_congr h]

namespace Model

variable {m m' m₁ : Model Rat} {W : (Variable → Rat) → Rat} {G : Variable → Option Rat}
  {x : Variable → Rat} {v u : Variable} {name : String} {a : Attribute} {value : Rat}
  {t : Tie} {r : Relation Rat} {B : SortedMap Variable (Binding Rat)}

/-- What edit variables and bindings ask of the variables. -/
def ties (m : Model Rat) : List Tie :=
  (m.solver.edits.entries.map fun e => ⟨e.1, .equal, e.2.target⟩) ++
    m.bindings.entries.flatMap fun e => e.2.ties e.1

/-- What a binding holds a variable down to. -/
def cap? (B : SortedMap Variable (Binding Rat)) (v : Variable) : Option Rat :=
  match B.get? v with
  | some (.atMost _ value) => some value
  | _ => none

theorem mem_ties : t ∈ m.ties ↔
    t.comparator = .equal ∧ m.solver.target? t.subject = some t.value ∨
      t.comparator = .atMost ∧ cap? m.bindings t.subject = some t.value := by
  obtain ⟨v, c, y⟩ := t
  simp only [ties, List.mem_append, List.mem_map, List.mem_flatMap, Tie.mk.injEq]
  refine or_congr ⟨?_, ?_⟩ ⟨?_, ?_⟩
  · rintro ⟨⟨u, e⟩, he, rfl, rfl, rfl⟩
    refine ⟨rfl, ?_⟩
    rw [Solver.target?, (SortedMap.get?_eq_some_iff _).2 he, Option.map_some]
  · rintro ⟨rfl, ht⟩
    obtain ⟨e, he, rfl⟩ := Option.map_eq_some_iff.1 ht
    exact ⟨(v, e), (SortedMap.get?_eq_some_iff _).1 he, rfl, rfl, rfl⟩
  · rintro ⟨⟨u, b⟩, hb, hv⟩
    cases b with
    | exact => simp [Binding.ties] at hv
    | atMost id y' =>
      obtain ⟨rfl, rfl, rfl⟩ := Tie.mk.inj (List.mem_singleton.1 hv)
      refine ⟨rfl, ?_⟩
      rw [cap?, (SortedMap.get?_eq_some_iff _).2 hb]
  · rintro ⟨rfl, hc⟩
    unfold cap? at hc
    split at hc
    · rename_i id y' hb
      obtain rfl := Option.some.inj hc
      exact ⟨(v, .atMost id y'), (SortedMap.get?_eq_some_iff _).1 hb, List.mem_singleton.2 rfl⟩
    · simp at hc

theorem keys_ne_of_rising {α : Type} {a b : Variable × α} (h : (compare a.1 b.1).isLT = true) :
    a.1 ≠ b.1 := by
  intro he
  rw [he] at h
  simp at h

theorem nodup_ties (m : Model Rat) : m.ties.Nodup := by
  rw [ties, List.nodup_append]
  refine ⟨?_, ?_, ?_⟩
  · refine List.pairwise_map.2 (m.solver.edits.rising.imp ?_)
    intro a b h he
    exact keys_ne_of_rising h (Tie.mk.inj he).1
  · rw [List.nodup_flatMap]
    refine ⟨fun e _ => ?_, m.bindings.rising.imp fun {a b} h t ha hb => keys_ne_of_rising h ?_⟩
    · cases e.2 <;> simp [Binding.ties]
    · have hsubject : ∀ (e : Variable × Binding Rat), t ∈ e.2.ties e.1 → e.1 = t.subject :=
        fun e he => by
          cases he' : e.2 with
          | exact => simp [Binding.ties, he'] at he
          | atMost id value =>
            rw [he', Binding.ties, List.mem_singleton] at he
            rw [he]
      rw [hsubject a ha, hsubject b hb]
  · intro t ht u hu he
    subst he
    obtain ⟨e, -, rfl⟩ := List.mem_map.1 ht
    obtain ⟨e', -, hu⟩ := List.mem_flatMap.1 hu
    cases he' : e'.2 <;> simp [Binding.ties, he'] at hu

theorem strain_flatMap {α : Type} (f : α → List Tie) (l : List α) :
    strain (l.flatMap f) x = (l.map fun a => strain (f a) x).sum := by
  induction l with
  | nil => rfl
  | cons a l ih => rw [List.flatMap_cons, strain_append, ih, List.map_cons, List.sum_cons]

theorem strain_ties : strain m.ties x =
    (m.solver.edits.entries.map fun e => |x e.1 - e.2.target|).sum + excess m.bindings x := by
  rw [ties, strain_append, strain_flatMap, strain, List.map_map]
  simp only [Binding.strain_ties]
  rfl

/-! ## What a model wants -/

/-- What the soft relations are missed by, each at its weight. -/
def wishes (m : Model Rat) (x : Variable → Rat) : Rat :=
  (m.relations.map fun r => r.regret (m.reading x)).sum

/-- What the values fall short of, all together. The ties are all strong. -/
def discord (m : Model Rat) (x : Variable → Rat) : Rat :=
  m.wishes x + Weight.strong * strain m.ties x

theorem wishes_of_required (h : ∀ r ∈ m.relations, r.strength = .required) : m.wishes x = 0 := by
  refine List.sum_eq_zero fun y hy => ?_
  obtain ⟨r, hr, rfl⟩ := List.mem_map.1 hy
  exact if_pos (h r hr)

/-- The host measures what the variable stands for. -/
def Measures (m : Model Rat) (v : Variable) : Prop :=
  ∃ name a, a.isIntrinsic = true ∧ m.varOf? ⟨name, a⟩ = some v

/-- The solver of the model is in step with what the model has asked for, which costs `W` but for
the ties, and it pulls only at what is measured or bound. -/
structure Weighs (W : (Variable → Rat) → Rat) (m : Model Rat) : Prop where
  accounts : Accounts W m.bindings m.solver.target? m.nextConstraint m.solver
  pulled : ∀ {v y}, m.solver.target? v = some y →
    m.bindings.get? v = some .exact ∨ m.Measures v

/-- A settled model whose solver weighs what the model wants. -/
structure Weighed (m : Model Rat) : Prop extends m.Settled where
  weighs : m.Weighs m.wishes

/-- The ledger says that values cost what the model says they fall short of. -/
theorem cost_eq_discord {q : Requests}
    (hq : Ledger m.wishes m.bindings m.solver.target? m.nextConstraint q) :
    q.cost x = m.discord x := by
  have hpulls : q.pulls = m.solver.edits.mapValues fun _ e => (Weight.strong, e.target) := by
    apply SortedMap.ext_get?
    intro v
    rw [hq.pulls, SortedMap.get?_mapValues, Solver.target?, Option.map_map]
    rfl
  have hcost := hq.cost x
  rw [discord, strain_ties, mul_add, add_comm (Weight.strong * _), ← add_assoc, ← hcost,
    Requests.cost, hpulls, ← List.sum_map_mul_left, SortedMap.mapValues, List.map_map]
  rfl

/-- The values of the solver fall short of what the model wants by no more than any others that
are as required. -/
theorem Weighed.least (h : m.Weighed) (hx : m.Obeys x) :
    m.discord m.solver.value ≤ m.discord x := by
  obtain ⟨q, T, ha, hq⟩ := h.weighs.accounts
  rw [← cost_eq_discord hq, ← cost_eq_discord hq, ← ha.burden, ← ha.burden]
  exact ha.toSound.least ha.optimal (ha.toEdited.meets_iff.2 ((h.kept.asks x).2 hx))

/-! ## Calls that bind -/

/-- A variable has other ties than before, and nothing else about what a model says is new. -/
structure Rebound (v : Variable) (target cap : Option Rat) (m m' : Model Rat) : Prop where
  frame : m' = { m with
    solver := m'.solver, bindings := m'.bindings, nextConstraint := m'.nextConstraint }
  targets : m'.solver.target? = Function.update m.solver.target? v target
  caps : cap? m'.bindings = Function.update (cap? m.bindings) v cap

/-- What a variable that is bound so, if at all, is held down to. -/
def heldAt? : Option (Binding Rat) → Option Rat
  | some (.atMost _ value) => some value
  | _ => none

theorem cap?_alter (B : SortedMap Variable (Binding Rat)) (b : Option (Binding Rat)) :
    cap? (B.alter v fun _ => b) = Function.update (cap? B) v (heldAt? b) := by
  funext u
  unfold cap?
  rw [SortedMap.get?_alter]
  by_cases hu : u = v
  · rw [if_pos hu, hu, Function.update_self]
    rfl
  · rw [if_neg hu, Function.update_of_ne hu]

/-- The variable is left to the relations, or pulled as a measured size. -/
theorem Weighs.measures_of_pulled (h : m.Weighs W) (hb : m.bindings.get? v ≠ some .exact)
    {y : Rat} (ht : m.solver.target? v = some y) : m.Measures v := by
  rcases h.pulled ht with he | hm
  · exact absurd he hb
  · exact hm

/-- A variable is bound anew, the edit variables pull as `G` says, and the books are kept. -/
structure Turned (W : (Variable → Rat) → Rat) (v : Variable) (b : Option (Binding Rat))
    (G : Variable → Option Rat) (m m' : Model Rat) : Prop where
  frame : m' = { m with
    solver := m'.solver, bindings := m'.bindings, nextConstraint := m'.nextConstraint }
  bindings : m'.bindings = m.bindings.alter v fun _ => b
  accounts : Accounts W m'.bindings G m'.nextConstraint m'.solver

theorem Turned.weighs {b : Option (Binding Rat)} {target : Option Rat}
    (h : Turned W v b (Function.update m.solver.target? v target) m m') (hm : m.Weighs W)
    (hv : ∀ y, target = some y → b = some .exact ∨ m.Measures v) : m'.Weighs W := by
  have htargets := h.accounts.target
  refine ⟨htargets ▸ h.accounts, fun {u y} hu => ?_⟩
  have hvar : m'.Measures u ↔ m.Measures u := by
    rw [h.frame]
    rfl
  rw [← htargets] at hu
  rw [hvar, h.bindings, SortedMap.get?_alter]
  by_cases huv : u = v
  · subst u
    rw [Function.update_self] at hu
    rw [if_pos rfl]
    exact hv y hu
  · rw [Function.update_of_ne huv] at hu
    rw [if_neg huv]
    exact hm.pulled hu

/-- A variable that is turned is rebound, and the solver weighs what it did. -/
theorem Turned.rebound {b : Option (Binding Rat)} {target : Option Rat}
    (h : Turned W v b (Function.update m.solver.target? v target) m m') (hm : m.Weighs W)
    (hv : ∀ y, target = some y → b = some .exact ∨ m.Measures v) :
    m'.Weighs W ∧ Rebound v target (heldAt? b) m m' := by
  refine ⟨h.weighs hm hv, h.frame, h.accounts.target.symm, ?_⟩
  rw [h.bindings, cap?_alter]

/-- The solver was all that changed after the variable was bound. -/
theorem Turned.of_bound {b : Option (Binding Rat)}
    (hf : m' = { m with solver := m'.solver, bindings := m.bindings.alter v fun _ => b })
    (ha : Accounts W (m.bindings.alter v fun _ => b) G m.nextConstraint m'.solver) :
    Turned W v b G m m' := by
  refine ⟨?_, ?_, ?_⟩
  · rw [hf]
  · rw [hf]
  · rw [hf]
    exact ha

/-- What only the solver did before does not show. -/
theorem Turned.of_eq {b : Option (Binding Rat)} (h : Turned W v b G m₁ m')
    (hf : m₁ = { m with solver := m₁.solver }) : Turned W v b G m m' :=
  ⟨by rw [h.frame, hf], by rw [h.bindings, hf], h.accounts⟩

theorem Accounts.pull (h : Accounts W m.bindings G m.nextConstraint m.solver)
    (hv : Unheld m.bindings v) (value : Rat) :
    Yields (fun _ m' => Turned W v (some .exact) (Function.update G v (some value)) m m')
      ((Model.bind v .exact >>= fun _ => onSolver .solver (·.suggest v value)) m) := by
  change Yields _ (onSolver .solver (·.suggest v value)
    { m with bindings := m.bindings.insert v .exact })
  exact yields_onSolver fun s hok =>
    ⟨rfl, rfl, (h.imp fun q hq => hq.bindExact hv).suggest hok⟩

/-- A variable that nothing holds down gets an edit variable, and is pulled. -/
theorem Accounts.edit (h : Accounts W m.bindings G m.nextConstraint m.solver)
    (hv : Unheld m.bindings v) (value : Rat) :
    Yields (fun _ m' => Turned W v (some .exact) (Function.update G v (some value)) m m')
      ((if (!m.solver.hasEdit v) = true then
        onSolver .solver (·.addEdit v Weight.strong) >>= fun _ =>
          Model.bind v .exact >>= fun _ => onSolver .solver (·.suggest v value)
      else Model.bind v .exact >>= fun _ => onSolver .solver (·.suggest v value)) m) := by
  split
  · refine Comes.bind (yields_onSolver (Q := fun _ m₁ => m₁ = { m with solver := m₁.solver } ∧
      Accounts W m.bindings (Function.update G v (some 0)) m.nextConstraint m₁.solver)
      fun s hok => ⟨rfl, ?_⟩) fun _ m₁ h₁ => ?_
    · exact h.step (.addEdit v Weight.strong) hok fun q hq => hq.addEdit v
    · obtain ⟨hf, ha⟩ := h₁
      have hp := Accounts.pull (m := m₁) (by rw [hf]; exact ha) (by rw [hf]; exact hv) value
      rw [Function.update_idem] at hp
      exact hp.imp fun _ m' h' => h'.of_eq hf
  · exact h.pull hv value

theorem bindings_alter (B : SortedMap Variable (Binding Rat)) (v : Variable)
    (f : Option (Binding Rat) → Option (Binding Rat)) (b : Option (Binding Rat)) :
    (B.alter v f).alter v (fun _ => b) = B.alter v fun _ => b := by
  apply SortedMap.ext_get?
  intro u
  simp only [SortedMap.get?_alter]
  split <;> rfl

/-- What was bound in between does not show. -/
theorem Turned.of_turned {b b' : Option (Binding Rat)} {G' : Variable → Option Rat}
    (h : Turned W v b G m m₁) (h' : Turned W v b' G' m₁ m') : Turned W v b' G' m m' := by
  refine ⟨?_, ?_, h'.accounts⟩
  · rw [h'.frame, h.frame]
  · rw [h'.bindings, h.bindings, bindings_alter]

/-- The edit variable of a variable is taken back. -/
theorem Accounts.letGo (h : Accounts W B G m.nextConstraint m.solver) :
    Yields (fun _ m₁ => m₁ = { m with solver := m₁.solver } ∧
      Accounts W B (Function.update G v none) m.nextConstraint m₁.solver)
      (onSolver .solver (·.removeEdit v) m) :=
  yields_onSolver fun _ hok =>
    ⟨rfl, h.step (.removeEdit v) hok fun _ hq => hq.removeEdit v⟩

/-- The constraint that holds a variable down is taken back. -/
theorem Accounts.drop (h : Accounts W B G m.nextConstraint m.solver) {id : ConstraintId}
    (hb : B.get? v = some (.atMost id value)) :
    Yields (fun _ m₁ => m₁ = { m with solver := m₁.solver } ∧
      Accounts W (B.erase v) G m.nextConstraint m₁.solver)
      (onSolver .solver (·.remove id) m) := by
  obtain ⟨n, rfl⟩ : ∃ n, id = .declared n := by
    obtain ⟨q, T, -, hq⟩ := h
    obtain ⟨n, hid, -⟩ := hq.held hb
    exact ⟨n, hid⟩
  exact yields_onSolver fun s hok =>
    ⟨rfl, h.step (.remove n) hok fun q hq => hq.drop hb⟩

theorem Weighs.setTo (h : m.Weighs W) (hv : m.lookup name a = .ok v) (value : Rat) :
    Yields (fun _ m' => m'.Weighs W ∧ Rebound v (some value) none m m')
      (setTo name a value m) := by
  have hdone : ∀ m', Turned W v (some .exact) (Function.update m.solver.target? v (some value))
      m m' → m'.Weighs W ∧ Rebound v (some value) none m m' := fun m' ht =>
    ht.rebound h fun _ _ => .inl rfl
  rw [Model.setTo, ask_bind hv, get_bind]
  cases hb : m.bindings.get? v with
  | none => exact (h.accounts.edit (unheld_of_none hb) value).imp fun _ => hdone
  | some b =>
    cases b with
    | exact => exact (h.accounts.edit (unheld_of_exact hb) value).imp fun _ => hdone
    | atMost id current =>
      refine (h.accounts.drop hb).bind fun _ m₁ h₁ => ?_
      obtain ⟨hf, ha⟩ := h₁
      have hdrop : Turned W v none m.solver.target? m
          { m₁ with bindings := m₁.bindings.erase v } := by
        rw [hf]
        exact ⟨rfl, rfl, ha⟩
      exact (hdrop.accounts.edit unheld_erase value).imp fun _ m' ht =>
        hdone m' (hdrop.of_turned ht)

/-- A variable that nothing holds down any more is held down. Its old binding may still be
noted. -/
theorem Accounts.hold (h : Accounts W B G m.nextConstraint m.solver) (hv : Unheld B v)
    (hB : ∀ b, B.insert v b = m.bindings.insert v b) (value : Rat) :
    Yields (fun _ m' => ∃ id, Turned W v (some (.atMost id value)) G m m')
      ((freshConstraint >>= fun id => onSolver .solver (·.add (.relate id (.ofVariable v) .atMost
        (.ofConstant value) Weight.strong)) >>= fun _ => Model.bind v (.atMost id value)) m) := by
  rw [freshConstraint_bind]
  refine Comes.bind (yields_onSolver (Q := fun _ m₁ =>
    m₁ = { m with solver := m₁.solver, nextConstraint := m.nextConstraint + 1 } ∧
    Accounts W (m.bindings.insert v (.atMost (.declared m.nextConstraint) value)) G
      (m.nextConstraint + 1) m₁.solver) fun s hok => ⟨rfl, ?_⟩) fun _ m₁ h₁ => ?_
  · rw [← hB]
    exact h.step (.add m.nextConstraint _ .atMost Weight.strong) hok
      fun q hq => hq.hold hv value
  · obtain ⟨hf, ha⟩ := h₁
    refine .ok ⟨.declared m.nextConstraint, ?_, ?_, ?_⟩
    · rw [hf]
    · rw [hf]
      rfl
    · rw [hf]
      exact ha

/-- The value that an edit variable pulls to when the binding is gone. -/
def released (m : Model Rat) (v : Variable) : Option Rat :=
  match m.bindings.get? v with
  | some .exact => none
  | _ => m.solver.target? v

theorem released_of_exact (h : m.bindings.get? v = some .exact) : m.released v = none := by
  rw [released, h]

theorem released_of_ne (h : m.bindings.get? v ≠ some .exact) :
    m.released v = m.solver.target? v := by
  unfold released
  split
  · exact absurd ‹_› h
  · rfl

theorem Weighs.measures_of_released (h : m.Weighs W) {y : Rat} (hy : m.released v = some y) :
    m.Measures v := by
  by_cases hb : m.bindings.get? v = some .exact
  · rw [released_of_exact hb] at hy
    simp at hy
  · rw [released_of_ne hb] at hy
    exact h.measures_of_pulled hb hy

/-- Only a variable that is bound exactly is pulled otherwise after its release. -/
theorem target?_eq_released (hb : m.bindings.get? v ≠ some .exact) :
    m.solver.target? = Function.update m.solver.target? v (m.released v) := by
  rw [released_of_ne hb, Function.update_eq_self]

theorem Weighs.setAtMost (h : m.Weighs W) (hv : m.lookup name a = .ok v) (value : Rat) :
    Yields (fun _ m' => m'.Weighs W ∧ Rebound v (m.released v) (some value) m m')
      (setAtMost name a value m) := by
  have hdone : ∀ m' G, G = Function.update m.solver.target? v (m.released v) →
      (∃ id, Turned W v (some (.atMost id value)) G m m') →
      m'.Weighs W ∧ Rebound v (m.released v) (some value) m m' := by
    rintro m' _ rfl ⟨id, ht⟩
    exact ht.rebound h fun y hy => .inr (h.measures_of_released hy)
  rw [Model.setAtMost, ask_bind hv, get_bind]
  cases hb : m.bindings.get? v with
  | none =>
    have hG := target?_eq_released (m := m) (v := v) (by simp [hb])
    exact (h.accounts.hold (unheld_of_none hb) (fun _ => rfl) value).imp fun _ m' => hdone m' _ hG
  | some b =>
    cases b with
    | exact =>
      refine h.accounts.letGo.bind fun _ m₁ h₁ => ?_
      obtain ⟨hf, ha⟩ := h₁
      have hp := Accounts.hold (m := m₁) (v := v) (by rw [hf]; exact ha)
        (by rw [hf]; exact unheld_of_exact hb) (fun _ => rfl) value
      refine hp.imp fun _ m' ht => hdone m' _ ?_ (ht.imp fun _ ht => ht.of_eq hf)
      rw [released_of_exact hb]
    | atMost id current =>
      have hG := target?_eq_released (m := m) (v := v) (by simp [hb])
      change Yields _ ((if (current == value) = true then _ else _ : Change Rat Unit) m)
      split
      · rename_i heq
        obtain rfl : current = value := by simpa using heq
        refine .ok ⟨h, rfl, hG, ?_⟩
        have hcap : cap? m.bindings v = some current := by rw [cap?, hb]
        rw [← hcap, Function.update_eq_self]
      · refine (h.accounts.drop hb).bind fun _ m₁ h₁ => ?_
        obtain ⟨hf, ha⟩ := h₁
        have hp := Accounts.hold (m := m₁) (v := v) (by rw [hf]; exact ha) unheld_erase
          (fun b => by rw [hf]; exact bindings_alter _ _ _ _) value
        exact hp.imp fun _ m' ht => hdone m' _ hG (ht.imp fun _ ht => ht.of_eq hf)

theorem Weighs.release (h : m.Weighs W) (hv : m.lookup name a = .ok v) :
    Yields (fun _ m' => m'.Weighs W ∧ Rebound v (m.released v) none m m')
      (release name a m) := by
  have hdone : ∀ m' G, G = Function.update m.solver.target? v (m.released v) →
      Turned W v none G m m' → m'.Weighs W ∧ Rebound v (m.released v) none m m' :=
    fun m' G hG ht => by
      subst hG
      exact ht.rebound h fun y hy => .inr (h.measures_of_released hy)
  rw [Model.release, ask_bind hv, get_bind]
  cases hb : m.bindings.get? v with
  | none =>
    refine .ok (hdone _ _ (target?_eq_released (by simp [hb])) ⟨rfl, rfl, ?_⟩)
    exact h.accounts.imp fun q hq => hq.unbind (unheld_of_none hb)
  | some b =>
    cases b with
    | exact =>
      have ha : Accounts W (m.bindings.erase v) m.solver.target? m.nextConstraint m.solver :=
        h.accounts.imp fun q hq => hq.unbind (unheld_of_exact hb)
      change Yields _ (onSolver .solver (·.removeEdit v)
        { m with bindings := m.bindings.erase v })
      exact (Accounts.letGo (m := { m with bindings := m.bindings.erase v }) ha).imp
        fun _ m' h' => hdone m' _ (by rw [released_of_exact hb]) (.of_bound h'.1 h'.2)
    | atMost id current =>
      change Yields _ (onSolver .solver (·.remove id)
        { m with bindings := m.bindings.erase v })
      exact (Accounts.drop (m := { m with bindings := m.bindings.erase v }) h.accounts hb).imp
        fun _ m' h' => hdone m' _ (target?_eq_released (by simp [hb])) (.of_bound h'.1 h'.2)

end Model

end RegionLayout
