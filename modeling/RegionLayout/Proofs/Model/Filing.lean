-- Why a constraint is in the solver of a model: for a relation that was accepted, or for a duty
-- towards the variable of an attribute. A duty comes with the attribute, or with what the attribute
-- was told last. The solver holds each constraint on a ground of its own.
import RegionLayout.Proofs.Model.Courses
import RegionLayout.Proofs.Solver.Register

namespace RegionLayout

open Solver

namespace Model

variable {R : Type}

/-! ## Grounds -/

/-- What a constraint does for a variable. -/
inductive Duty where
  /-- A size is not negative. -/
  | size
  /-- The container is at the origin. -/
  | pin
  /-- A centre lies half a size from its edge. -/
  | center
  /-- An edit pulls it to a value. -/
  | pull
  /-- It is held down to a value. -/
  | hold
deriving DecidableEq

/-- Why a constraint is in the solver. -/
inductive Ground where
  | duty (d : Duty) (v : Variable)
  | relation (i : Nat)
deriving DecidableEq

/-- The calls on single attributes that succeeded, the oldest first. -/
abbrev Tellings (R : Type) := List (AttributeRef × Option (Wish R))

/-- What an attribute was told last. One that was released or never told anything has no wish. -/
def latest (told : Tellings R) (ref : AttributeRef) : Option (Wish R) :=
  told.foldl (fun wish t => if t.1 = ref then t.2 else wish) none

/-- An attribute is drawn to the value it was told last; and one that the host measures is drawn from
the start, for as long as it was never told a value. -/
def Drawn (told : Tellings R) (ref : AttributeRef) : Prop :=
  (∃ x, latest told ref = some (.exactly x)) ∨
    ref.attr.isIntrinsic = true ∧ ∀ x, (ref, some (.exactly x)) ∉ told

/-- The duty is owed to the variable of the attribute. -/
def Duty.Owed (told : Tellings R) (ref : AttributeRef) : Duty → Prop
  | size => ∃ axis : Axis, ref.attr = axis.size
  | pin => ref.region = containerName ∧ ∃ axis : Axis, ref.attr = axis.origin
  | center => ∃ axis : Axis, ref.attr = axis.center
  | pull => Drawn told ref
  | hold => ∃ x, latest told ref = some (.atMost x)

/-- The grounds that there are. -/
def Due (told : Tellings R) (m : Model R) : Ground → Prop
  | .duty d v => ∃ ref, m.slot? ref = some v ∧ d.Owed told ref
  | .relation i => i < m.relations.length

variable {told : Tellings R} {ref : AttributeRef} {v : Variable} {m m' m₁ : Model R} {g : Ground}
  {D : AttributeRef → Prop} {wish : Option (Wish R)}

theorem latest_append (t : AttributeRef × Option (Wish R)) :
    latest (told ++ [t]) ref = if t.1 = ref then t.2 else latest told ref := by
  simp [latest, List.foldl_append]

theorem mem_of_latest {w : Wish R} (h : latest told ref = some w) : (ref, some w) ∈ told := by
  induction told using List.reverseRecOn with
  | nil => cases h
  | append_singleton told t ih =>
    rw [latest_append] at h
    split at h
    · obtain ⟨r, w'⟩ := t
      subst h
      simp_all
    · exact List.mem_append_left _ (ih h)

theorem latest_eq_none (h : ∀ wish, (ref, wish) ∉ told) : latest told ref = none := by
  cases hw : latest told ref with
  | none => rfl
  | some w => exact absurd (mem_of_latest hw) (h _)

/-- More attributes with variables make more grounds. -/
theorem due_of_spreads (h : Spreads D m m') (hr : m'.relations = m.relations) :
    m'.Due told g ↔ m.Due told g ∨ ∃ d ref v, g = .duty d v ∧
      m.slot? ref = none ∧ m'.slot? ref = some v ∧ d.Owed told ref := by
  cases g with
  | relation i => simp [Due, hr]
  | duty d v =>
    constructor
    · rintro ⟨ref, hv, howed⟩
      rcases h.fresh hv with hold | ⟨hnone, -⟩
      · exact .inl ⟨ref, hold, howed⟩
      · exact .inr ⟨d, ref, v, rfl, hnone, hv, howed⟩
    · rintro (⟨ref, hv, howed⟩ | ⟨d', ref, v', heq, -, hv, howed⟩)
      · exact ⟨ref, h.kept hv, howed⟩
      · obtain ⟨rfl, rfl⟩ := Ground.duty.inj heq
        exact ⟨ref, hv, howed⟩

/-! ## What is filed -/

section Filed

variable {held : Ground → Option (Constraint R)} {s s' : Solver R} {c : Constraint R} {tag : Tag}
  {constraints : SortedMap ConstraintId (Tag × Constraint R)}

/-- The constraints are those that are held, each on one ground. -/
structure Files (held : Ground → Option (Constraint R))
    (constraints : SortedMap ConstraintId (Tag × Constraint R)) : Prop where
  kept : ∀ {id c}, (∃ tag, constraints.get? id = some (tag, c)) ↔ ∃ g, held g = some c ∧ c.id = id
  own : ∀ {g g' c c'}, held g = some c → held g' = some c' → c.id = c'.id → g = g'

/-- The solver has what is held, and its edits are what is held to pull. -/
structure Filed (held : Ground → Option (Constraint R)) (s : Solver R) : Prop
    extends Files held s.constraints where
  pulls : ∀ {v c}, held (.duty .pull v) = some c ↔ ∃ e, s.edits.get? v = some e ∧ e.constraint = c

theorem Files.insert (h : Files held constraints) (hg : held g = none)
    (hnew : constraints.get? c.id = none) (tag : Tag) :
    Files (Function.update held g (some c)) (constraints.insert c.id (tag, c)) := by
  -- nothing that is held has the new name yet
  have hother : ∀ {g' c'}, held g' = some c' → c'.id ≠ c.id := fun hc' hid => by
    obtain ⟨tag', hget⟩ := h.kept.2 ⟨_, hc', hid⟩
    cases hnew.symm.trans hget
  have hsplit : ∀ {g' c'}, Function.update held g (some c) g' = some c' →
      g' = g ∧ c' = c ∨ g' ≠ g ∧ held g' = some c' := fun {g' c'} hg' => by
    by_cases hne : g' = g
    · subst g'
      rw [Function.update_self] at hg'
      exact .inl ⟨rfl, (Option.some.inj hg').symm⟩
    · rw [Function.update_of_ne hne] at hg'
      exact .inr ⟨hne, hg'⟩
  refine ⟨fun {id c'} => ?_, fun {g₁ g₂ c₁ c₂} h₁ h₂ hid => ?_⟩
  · rw [SortedMap.get?_insert]
    constructor
    · rintro ⟨tag', hget⟩
      split at hget
      · obtain ⟨-, rfl⟩ := Prod.mk.inj (Option.some.inj hget)
        exact ⟨g, Function.update_self .., Eq.symm ‹_›⟩
      · obtain ⟨g', hg', hid⟩ := h.kept.1 ⟨tag', hget⟩
        refine ⟨g', ?_, hid⟩
        rw [Function.update_of_ne, hg']
        rintro rfl
        cases hg.symm.trans hg'
    · rintro ⟨g', hg', rfl⟩
      rcases hsplit hg' with ⟨-, rfl⟩ | ⟨-, hg'⟩
      · exact ⟨tag, if_pos rfl⟩
      · rw [if_neg (hother hg')]
        exact h.kept.2 ⟨g', hg', rfl⟩
  · rcases hsplit h₁ with ⟨rfl, rfl⟩ | ⟨-, hc₁⟩ <;> rcases hsplit h₂ with ⟨rfl, rfl⟩ | ⟨-, hc₂⟩
    · rfl
    · exact absurd hid.symm (hother hc₂)
    · exact absurd hid (hother hc₁)
    · exact h.own hc₁ hc₂ hid

theorem Files.erase (h : Files held constraints) (hg : held g = some c) :
    Files (Function.update held g none) (constraints.erase c.id) := by
  have hsplit : ∀ {g' c'}, Function.update held g none g' = some c' →
      held g' = some c' ∧ c'.id ≠ c.id := fun {g' c'} hg' => by
    by_cases hne : g' = g
    · subst g'
      rw [Function.update_self] at hg'
      cases hg'
    · rw [Function.update_of_ne hne] at hg'
      exact ⟨hg', fun hid => hne (h.own hg' hg hid)⟩
  refine ⟨fun {id c'} => ?_, fun h₁ h₂ hid => h.own (hsplit h₁).1 (hsplit h₂).1 hid⟩
  rw [SortedMap.get?_erase]
  constructor
  · rintro ⟨tag, hget⟩
    split at hget
    · cases hget
    · obtain ⟨g', hg', rfl⟩ := h.kept.1 ⟨tag, hget⟩
      refine ⟨g', ?_, rfl⟩
      rw [Function.update_of_ne, hg']
      rintro rfl
      obtain rfl := Option.some.inj (hg.symm.trans hg')
      contradiction
  · rintro ⟨g', hg', rfl⟩
    obtain ⟨hg', hne⟩ := hsplit hg'
    rw [if_neg hne]
    exact h.kept.2 ⟨g', hg', rfl⟩

theorem Filed.of_register (h : Filed held s) (hr : s'.register = s.register) : Filed held s' := by
  obtain ⟨hc, he⟩ := Prod.mk.inj hr
  exact ⟨hc ▸ h.toFiles, by rw [he]; exact h.pulls⟩

/-- A new constraint that is none of an edit. -/
theorem Filed.insert (h : Filed held s) (hg : held g = none) (hp : ∀ v, g ≠ .duty .pull v)
    (hnew : s.constraints.get? c.id = none)
    (hr : s'.register = (s.constraints.insert c.id (tag, c), s.edits)) :
    Filed (Function.update held g (some c)) s' := by
  obtain ⟨hc, he⟩ := Prod.mk.inj hr
  refine ⟨hc ▸ h.toFiles.insert hg hnew tag, ?_⟩
  rw [he]
  intro v c'
  rw [Function.update_of_ne (hp v).symm]
  exact h.pulls

theorem Filed.erase (h : Filed held s) (hg : held g = some c) (hp : ∀ v, g ≠ .duty .pull v)
    (hr : s'.register = (s.constraints.erase c.id, s.edits)) :
    Filed (Function.update held g none) s' := by
  obtain ⟨hc, he⟩ := Prod.mk.inj hr
  refine ⟨hc ▸ h.toFiles.erase hg, ?_⟩
  rw [he]
  intro v c'
  rw [Function.update_of_ne (hp v).symm]
  exact h.pulls

theorem Filed.held_pull_eq_none (h : Filed held s) (hv : s.edits.get? v = none) :
    held (.duty .pull v) = none := by
  cases hc : held (.duty .pull v) with
  | none => rfl
  | some c =>
    obtain ⟨e, he, -⟩ := h.pulls.1 hc
    cases hv.symm.trans he

theorem Filed.insert_edit (h : Filed held s) {e : Edit R} (hv : s.edits.get? v = none)
    (hnew : s.constraints.get? e.constraint.id = none)
    (hr : s'.register = (s.constraints.insert e.constraint.id (tag, e.constraint),
      s.edits.insert v e)) :
    Filed (Function.update held (.duty .pull v) (some e.constraint)) s' := by
  obtain ⟨hc, he⟩ := Prod.mk.inj hr
  refine ⟨hc ▸ h.toFiles.insert (h.held_pull_eq_none hv) hnew tag, ?_⟩
  rw [he]
  intro u c'
  rw [SortedMap.get?_insert]
  by_cases hu : u = v
  · subst u
    simp
  · rw [Function.update_of_ne (by simp [hu]), if_neg hu]
    exact h.pulls

theorem Filed.erase_edit (h : Filed held s) {e : Edit R} (hv : s.edits.get? v = some e)
    (hr : s'.register = (s.constraints.erase e.constraint.id, s.edits.erase v)) :
    Filed (Function.update held (.duty .pull v) none) s' := by
  obtain ⟨hc, he⟩ := Prod.mk.inj hr
  refine ⟨hc ▸ h.toFiles.erase (h.pulls.2 ⟨e, hv, rfl⟩), ?_⟩
  rw [he]
  intro u c'
  rw [SortedMap.get?_erase]
  by_cases hu : u = v
  · subst u
    simp
  · rw [Function.update_of_ne (by simp [hu]), if_neg hu]
    exact h.pulls

/-- An edit moves to another target. -/
theorem Filed.move_edit (h : Filed held s) {e : Edit R} {x : R} (hv : s.edits.get? v = some e)
    (hr : s'.register = (s.constraints, s.edits.insert v { e with target := x })) :
    Filed held s' := by
  obtain ⟨hc, he⟩ := Prod.mk.inj hr
  refine ⟨hc ▸ h.toFiles, ?_⟩
  rw [he]
  intro u c'
  rw [SortedMap.get?_insert]
  by_cases hu : u = v
  · subst u
    rw [h.pulls, hv]
    simp
  · rw [if_neg hu]
    exact h.pulls

end Filed

end Model

end RegionLayout
