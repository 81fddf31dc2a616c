-- The journal of a model. A batch that cannot be read leaves everything as it was, and one that ends
-- at a conflict has entered the relations before it. After any course of calls the solver has one
-- constraint for each relation that is entered, and the fingerprint is that of their texts.
import RegionLayout.Proofs.Model.Holdings
import RegionLayout.Proofs.Statement.Grammar
import RegionLayout.Proofs.Statement.Linear

namespace RegionLayout

open Solver

variable {R : Type} [Scalar R]

/-! ## Texts -/

theorem Relation.source_of_parse {text : String} {density : R} {r : Relation R}
    (h : Relation.parse text density = .ok r) : r.source = text := by
  unfold Relation.parse at h
  cases hs : Statement.parse text with
  | error e => simp [hs, bind, Except.bind] at h
  | ok s =>
    have htext := (Statement.read_eq_ok.1 (Statement.read_of_parse hs).1).2
    simp only [hs, bind, Except.bind, Statement.relation] at h
    split at h
    · cases h
    · cases h
      exact htext

theorem sources_of_mapM {texts : List String} {density : R} {rs : List (Relation R)}
    (h : texts.mapM (Relation.parse · density) = .ok rs) : rs.map Relation.source = texts := by
  have hall := mapM_eq_ok_iff.1 h
  clear h
  induction hall with
  | nil => rfl
  | cons hr _ ih => rw [List.map_cons, Relation.source_of_parse hr, ih]

/-- One text that cannot be read is enough. -/
theorem unread_of_mem {ε α β : Type} {f : α → Except ε β} {xs : List α} {x : α} {e : ε}
    (hx : x ∈ xs) (h : f x = .error e) : ∃ e', xs.mapM f = .error e' := by
  cases hm : xs.mapM f with
  | error e' => exact ⟨e', rfl⟩
  | ok ys =>
    obtain ⟨i, hi, rfl⟩ := List.mem_iff_getElem.1 hx
    have hall := mapM_eq_ok_iff.1 hm
    cases h.symm.trans (hall.get hi (hall.length_eq ▸ hi))

namespace Model

variable {m m' m₁ : Model R} {r : Relation R} {rs rs' : List (Relation R)} {k : Nat}
  {texts : List String}

/-- The texts of relations, each with a line end. -/
def lines (rs : List (Relation R)) : String := String.join (rs.map fun r => r.source ++ "\n")

omit [Scalar R] in
theorem lines_append (rs rs' : List (Relation R)) : lines (rs ++ rs') = lines rs ++ lines rs' := by
  simp [lines, String.join_append]

/-! ## What is entered -/

/-- The relations are entered after those that there were, and so are their texts. -/
structure Enters (rs : List (Relation R)) (m m' : Model R) : Prop where
  relations : m'.relations = m.relations ++ rs
  journal : m'.journal = m.journal ++ lines rs

omit [Scalar R] in
theorem Enters.trans (h : Enters rs m m₁) (h' : Enters rs' m₁ m') : Enters (rs ++ rs') m m' where
  relations := by rw [h'.relations, h.relations, List.append_assoc]
  journal := by rw [h'.journal, h.journal, lines_append, String.append_assoc]

/-- The relations that a model has and what is written of them. -/
def entries (m : Model R) : List (Relation R) × String := (m.relations, m.journal)

omit [Scalar R] in
theorem enters_nil (h : m'.entries = m.entries) : Enters [] m m' where
  relations := by rw [List.append_nil]; exact (Prod.mk.inj h).1
  journal := by
    rw [show lines ([] : List (Relation R)) = "" from rfl, String.append_empty]
    exact (Prod.mk.inj h).2

omit [Scalar R] in
theorem aside_entries : Aside (entries : Model R → _) := fun _ _ _ => rfl

/-! ## One relation after the other -/

theorem constraintOf_of_known (h : ∀ ref ∈ r.refs, ∃ v, m.slot? ref = some v) :
    ∃ c, constraintOf r m = (.ok c, { m with nextConstraint := m.nextConstraint + 1 }) := by
  have hask {ref : AttributeRef} (href : ref ∈ r.refs) :
      m.lookup ref.region ref.attr = .ok ((m.slot? ref).getD ⟨0⟩) := by
    obtain ⟨v, hv⟩ := h ref href
    rw [hv]
    exact lookup_eq_ok_iff.2 hv
  have hterms : (r.rhs.terms.entries.mapM fun t => do
      return (← ask (·.lookup t.1.region t.1.attr), -t.2) : Change R (List (Variable × R))) m =
        (.ok (r.rhs.terms.entries.map fun t => ((m.slot? t.1).getD ⟨0⟩, -t.2)), m) := by
    refine mapM_apply fun t ht => ?_
    rw [ask_bind (hask (Relation.mem_refs_of_term ht))]
    rfl
  rw [constraintOf, ask_bind (hask Relation.target_mem_refs), bind_apply, hterms]
  exact ⟨_, rfl⟩

/-- A relation is entered unless the solver does not take it. -/
theorem comes_addRelation (h : ∀ ref ∈ r.refs, ∃ v, m.slot? ref = some v) :
    Comes False (fun e m' => (∃ fault, e = statementError r.source fault) ∧ Enters [] m m')
      (fun _ m' => Enters [r] m m') (addRelation r m) := by
  obtain ⟨c, hc⟩ := constraintOf_of_known h
  rw [Model.addRelation, bind_apply, hc]
  dsimp only
  rw [bind_apply, onSolver_apply]
  dsimp only
  cases m.solver.add c with
  | mk answer s =>
    cases answer with
    | error fault => exact .error ⟨⟨fault, rfl⟩, enters_nil rfl⟩
    | ok =>
      refine .ok ⟨rfl, ?_⟩
      change m.journal ++ r.source ++ "\n" = _
      simp [lines, String.append_assoc]

theorem forM_cons_addRelation (r : Relation R) (rs : List (Relation R)) :
    (r :: rs).forM addRelation = addRelation r >>= fun _ => rs.forM addRelation := rfl

/-- The relations before place `k` are taken, and the one at it is not. -/
def StopsAt (rs : List (Relation R)) (m : Model R) (k : Nat) (e : LayoutError) (m' : Model R) :
    Prop :=
  ∃ r m₁, rs[k]? = some r ∧ (rs.take k).forM addRelation m = (.ok (), m₁) ∧
    addRelation r m₁ = (.error e, m') ∧ ∃ fault, e = statementError r.source fault

theorem statementError_cases (text : String) (fault : Fault) :
    (∃ reason, statementError text fault = .conflict text reason) ∨
      statementError text fault = .solver fault := by
  cases fault <;> first | exact .inl ⟨_, rfl⟩ | exact .inr rfl

/-- A conflict is reported with the text of the statement that met it. -/
theorem StopsAt.text {t : String} {reason : Solver.Fault}
    (h : StopsAt rs m k (.conflict t reason) m') : (rs.map Relation.source)[k]? = some t := by
  obtain ⟨r, -, hr, -, -, fault, he⟩ := h
  rw [List.getElem?_map, hr, Option.map_some]
  rcases statementError_cases r.source fault with ⟨reason', hc⟩ | hs
  · rw [hc] at he
    cases he
    rfl
  · rw [hs] at he
    cases he

theorem StopsAt.error_cases {e : LayoutError} (h : StopsAt rs m k e m') :
    (∃ t reason, e = .conflict t reason) ∨ ∃ fault, e = .solver fault := by
  obtain ⟨r, -, -, -, -, fault, rfl⟩ := h
  exact (statementError_cases r.source fault).imp (fun ⟨reason, hc⟩ => ⟨_, reason, hc⟩)
    fun hs => ⟨fault, hs⟩

theorem StopsAt.cons {e : LayoutError} (h : addRelation r m = (.ok (), m₁))
    (hs : StopsAt rs m₁ k e m') : StopsAt (r :: rs) m (k + 1) e m' := by
  obtain ⟨r', m₂, hr', htake, hstop, hfault⟩ := hs
  refine ⟨r', m₂, by rwa [List.getElem?_cons_succ], ?_, hstop, hfault⟩
  rw [List.take_succ_cons, forM_cons_addRelation, bind_apply, h]
  exact htake

/-- Relations are entered up to the first that is not taken. -/
theorem comes_addRelations (h : ∀ r ∈ rs, ∀ ref ∈ r.refs, ∃ v, m.slot? ref = some v) :
    Comes False (fun e m' => ∃ k, StopsAt rs m k e m' ∧ Enters (rs.take k) m m')
      (fun _ m' => Enters rs m m') (rs.forM addRelation m) := by
  induction rs generalizing m with
  | nil => exact .ok (enters_nil rfl)
  | cons r rs ih =>
    have hr := comes_addRelation (h r List.mem_cons_self)
    rw [forM_cons_addRelation, bind_apply]
    have hchart := keeps_addRelation r m
    cases hadd : addRelation r m with
    | mk answer m₁ =>
      rw [hadd] at hr hchart
      cases hr with
      | spent hx => exact hx.elim
      | @error e _ he =>
        exact .error ⟨0, ⟨r, m, rfl, rfl, hadd, he.1⟩, he.2⟩
      | @ok _ _ h₁ =>
        have hknown : ∀ r ∈ rs, ∀ ref ∈ r.refs, ∃ v, m₁.slot? ref = some v := by
          rw [slot?_of_chart hchart]
          exact fun r' hr' => h r' (List.mem_cons_of_mem r hr')
        refine (ih hknown).mono id (fun e m' ⟨k, hstop, hk⟩ => ⟨k + 1, hstop.cons hadd, ?_⟩)
          fun _ m' h' => h₁.trans h'
        exact h₁.trans hk

/-! ## Batches -/

/-- A batch that can be read is entered whole, or up to where it stops. -/
theorem Charted.comes_addConstraints (h : m.Charted)
    (hparse : texts.mapM (Relation.parse · m.density) = .ok rs) :
    Comes False
      (fun e m' => (∃ fault, e = .solver fault) ∧ Enters [] m m' ∨
        ∃ m₀ k, Model.materialize (.ofRelations rs) m = (.ok (), m₀) ∧ StopsAt rs m₀ k e m' ∧
          Enters (rs.take k) m m')
      (fun _ m' => Enters rs m m') (Model.addConstraints (some texts) m) := by
  rw [addConstraints_of_read hparse, bind_apply]
  have hmade := h.made (Demand.ofRelations rs)
  cases hm₀ : Model.materialize (Demand.ofRelations rs) m with
  | mk answer m₀ =>
    rw [hm₀] at hmade
    cases hmade with
    | spent hx => exact hx.elim
    | error hf =>
      obtain ⟨hfault, -, hg⟩ := hf
      exact .error (.inl ⟨hfault, enters_nil (by rw [hg.frame]; rfl)⟩)
    | ok hq =>
      obtain ⟨⟨-, hg⟩, hall⟩ := hq
      have hm : Enters [] m m₀ := enters_nil (by rw [hg.frame]; rfl)
      have hknown : ∀ r ∈ rs, ∀ ref ∈ r.refs, ∃ v, m₀.slot? ref = some v := fun r hr ref href => by
        obtain ⟨attributes, hmem, ha⟩ := Demand.mem_ofRelations.2 ⟨r, hr, href⟩
        exact hall ref ⟨attributes, hmem, .inr ha⟩
      refine ((comes_addRelations hknown).mono id (fun e m' ⟨k, hstop, hk⟩ =>
        .inr ⟨m₀, k, rfl, hstop, hm.trans hk⟩) fun _ _ hq => hq).bind fun _ m₂ h₂ => .ok ?_
      have hsolve : Enters [] m₂ m₂.solve := enters_nil rfl
      simpa using (hm.trans h₂).trans hsolve

theorem Charted.enters_add (h : m.Charted) (texts : Option (List String)) :
    ∃ rs, Enters rs m (Model.addConstraints texts m).2 := by
  cases texts with
  | none => exact ⟨[], enters_nil rfl⟩
  | some texts =>
    cases hparse : texts.mapM (Relation.parse · m.density) with
    | error e =>
      rw [addConstraints_of_unread hparse]
      exact ⟨[], enters_nil rfl⟩
    | ok rs =>
      have hadd := h.comes_addConstraints hparse
      generalize Model.addConstraints (some texts) m = p at hadd
      cases hadd with
      | spent hx => exact hx.elim
      | ok h' => exact ⟨rs, h'⟩
      | error he =>
        rcases he with ⟨-, h'⟩ | ⟨-, k, -, -, h'⟩
        · exact ⟨[], h'⟩
        · exact ⟨_, h'⟩

/-! ## Courses -/

/-- The journal is what the relations are written as. -/
def Written (m : Model R) : Prop := m.journal = lines m.relations

omit [Scalar R] in
theorem Written.enters (h : m.Written) (he : Enters rs m m') : m'.Written := by
  unfold Written at *
  rw [he.journal, he.relations, lines_append, h]

theorem written_new {density : R} {limit : Nat} (h : Model.new density limit = .ok m) :
    m.Written := by
  have hpin : ∀ a : Attribute, Keeps entries
      (ask (fun _ => variableOf (blank density limit).container a) >>= fun v =>
        require (.ofVariable v) .equal (.ofConstant 0) : Change R Unit) :=
    fun a => (keeps_ask _).bind fun _ => aside_entries.unmoved.require _ _ _
  have hopening : Keeps entries (opening density limit : Change R Unit) :=
    (aside_entries.unmoved.installSizes _).bind fun _ =>
      (keeps_forM fun a _ => hpin a).bind fun _ => keeps_modify fun _ => rfl
  have hblank := hopening (blank density limit)
  rw [opening_of_new h] at hblank
  have hwritten : (blank density limit).Written := rfl
  exact hwritten.enters (enters_nil hblank)

theorem Written.perform (h : m.Written) (hc : m.Charted) (c : Command R) :
    (c.perform m).2.Written := by
  cases c with
  | add texts =>
    obtain ⟨rs, hrs⟩ := hc.enters_add texts
    exact h.enters hrs
  | bind ref wish =>
    refine h.enters (enters_nil ?_)
    cases wish with
    | none => exact aside_entries.unmoved.release (fun _ _ => rfl) _ _ m
    | some wish =>
      cases wish with
      | exactly value => exact aside_entries.unmoved.setTo (fun _ _ => rfl) _ _ _ m
      | atMost value => exact aside_entries.unmoved.setAtMost (fun _ _ => rfl) _ _ _ m
  | measure name axis measured =>
    have hkeeps : Keeps entries (Command.measure name axis measured : Command R).perform :=
      (aside_entries.unmoved.setIntrinsic _ _ _).bind fun _ => keeps_pure _
    exact h.enters (enters_nil (hkeeps m))
  | solve => exact h.enters (enters_nil rfl)

variable {may : Command R → Except LayoutError Unit → Prop} {log : List (Command R)}

theorem Course.written (h : Course may log m) : m.Written := by
  induction h with
  | new h => exact written_new h
  | @build texts _ _ _ h =>
    obtain ⟨m₀, hnew, hbatch⟩ := batch_of_build h
    obtain ⟨rs, hrs⟩ := (charted_new hnew).enters_add texts
    rw [hbatch] at hrs
    exact (written_new hnew).enters hrs
  | done h c _ hok ih =>
    have hc := ih.perform h.charted c
    rwa [hok] at hc
  | failed h c _ herr ih =>
    have hc := ih.perform h.charted c
    rwa [herr] at hc

end Model

end RegionLayout
