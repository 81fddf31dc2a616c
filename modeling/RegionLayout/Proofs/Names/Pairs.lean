-- Which pairs stand in a table of names. The two maps of a table are each other's inverse, so
-- whichever side a pair is asked by, the answer is the same: it stands if it was entered and
-- neither of its sides was entered again after that.
import RegionLayout.NameTable
import Mathlib.Data.List.Induction

namespace RegionLayout.NameTable

variable {t : NameTable} {pairs : List (Handle × String)} {h h' : Handle} {n n' : String}

/-! ## Pairs that stand -/

/-- The pair was entered, and no pair after that has its handle or its name. -/
def Stands (pairs : List (Handle × String)) (h : Handle) (n : String) : Prop :=
  ∃ before after, pairs = before ++ (h, n) :: after ∧ ∀ p ∈ after, p.1 ≠ h ∧ p.2 ≠ n

theorem not_stands_nil : ¬ Stands [] h n := by
  rintro ⟨before, after, hl, -⟩
  simp at hl

/-- The last pair stands, and of the others those that share no side with it. -/
theorem stands_snoc : Stands (pairs ++ [(h, n)]) h' n' ↔
    h' = h ∧ n' = n ∨ h' ≠ h ∧ n' ≠ n ∧ Stands pairs h' n' := by
  constructor
  · rintro ⟨before, after, hl, hafter⟩
    rcases List.eq_nil_or_concat after with rfl | ⟨after, last, rfl⟩
    · obtain ⟨-, hp⟩ := List.append_inj' hl rfl
      simp only [List.cons.injEq, Prod.mk.injEq, and_true] at hp
      exact .inl ⟨hp.1.symm, hp.2.symm⟩
    · rw [List.concat_eq_append] at hl hafter
      rw [← List.cons_append, ← List.append_assoc] at hl
      obtain ⟨rfl, hp⟩ := List.append_inj' hl rfl
      obtain rfl : (h, n) = last := by simpa using hp
      obtain ⟨hh, hn⟩ := hafter (h, n) (by simp)
      exact .inr ⟨hh.symm, hn.symm, before, after, rfl, fun p hp => hafter p (by simp [hp])⟩
  · rintro (⟨rfl, rfl⟩ | ⟨hh, hn, before, after, rfl, hafter⟩)
    · exact ⟨pairs, [], rfl, by simp⟩
    · refine ⟨before, after ++ [(h, n)], by simp, fun p hp => ?_⟩
      rcases List.mem_append.1 hp with hp | hp
      · exact hafter p hp
      · obtain rfl := List.mem_singleton.1 hp
        exact ⟨hh.symm, hn.symm⟩

/-! ## One pair entered -/

theorem get?_namesWithout (t : NameTable) (h : Handle) (n : String) :
    (t.namesWithout h).get? n = if t.name? h = some n then none else t.handle? n := by
  unfold namesWithout
  cases t.name? h with
  | none => simp [handle?]
  | some old => simp [handle?, SortedMap.get?_erase, eq_comm]

/-- The older name of the handle is free again, if it is not the name entered. -/
theorem handle?_register (t : NameTable) (h : Handle) (n n' : String) :
    (t.register h n).handle? n' =
      if n' = n then some h else if t.name? h = some n' then none else t.handle? n' := by
  have hnames : (t.register h n).byName = (t.namesWithout h).insert n h := by
    cases hother : (t.namesWithout h).get? n <;> simp only [register, hother]
  simp only [handle?, hnames, SortedMap.get?_insert, get?_namesWithout]

/-- The older handle of the name has none. It is looked for when the older name of `h` is gone, so
a pair that is entered again does not put itself out. -/
theorem name?_register (t : NameTable) (h h' : Handle) (n : String) :
    (t.register h n).name? h' = if h' = h then some n
      else if t.name? h ≠ some n ∧ t.handle? n = some h' then none else t.name? h' := by
  have hwithout := get?_namesWithout t h n
  cases hother : (t.namesWithout h).get? n with
  | none =>
    rw [hother] at hwithout
    simp only [register, hother, name?, SortedMap.get?_insert]
    grind [name?]
  | some other =>
    rw [hother] at hwithout
    by_cases hoh : other = h
    · simp only [register, hother, name?, hoh, if_true, SortedMap.get?_insert]
      grind [name?]
    · simp only [register, hother, name?, hoh, if_false, SortedMap.get?_insert,
        SortedMap.get?_erase]
      grind [name?]

/-- The two maps of the table are each other's inverse. -/
def Inverse (t : NameTable) : Prop := ∀ h n, t.name? h = some n ↔ t.handle? n = some h

/-- In a table whose maps are inverse the new pair stands, and the old pairs that share no side
with it. -/
theorem name?_register_eq_some (ht : t.Inverse) : (t.register h n).name? h' = some n' ↔
    h' = h ∧ n' = n ∨ h' ≠ h ∧ n' ≠ n ∧ t.name? h' = some n' := by
  rw [name?_register]
  have hn := ht h n
  have hn' := ht h' n
  grind

theorem handle?_register_eq_some (ht : t.Inverse) : (t.register h n).handle? n' = some h' ↔
    h' = h ∧ n' = n ∨ h' ≠ h ∧ n' ≠ n ∧ t.handle? n' = some h' := by
  rw [handle?_register]
  have hh := ht h n'
  have hh' := ht h' n'
  grind

/-! ## All pairs -/

theorem ofList_snoc (pairs : List (Handle × String)) (h : Handle) (n : String) :
    ofList (pairs ++ [(h, n)]) = (ofList pairs).register h n := by
  simp [ofList]

/-- A pair that is asked for by its handle or by its name is found just when it stands. -/
theorem find_iff_stands (pairs : List (Handle × String)) (h : Handle) (n : String) :
    ((ofList pairs).name? h = some n ↔ Stands pairs h n) ∧
      ((ofList pairs).handle? n = some h ↔ Stands pairs h n) := by
  induction pairs using List.reverseRecOn generalizing h n with
  | nil => simp [ofList, empty, name?, handle?, not_stands_nil]
  | append_singleton pairs p ih =>
    obtain ⟨h₁, n₁⟩ := p
    have ht : (ofList pairs).Inverse := fun h n => (ih h n).1.trans (ih h n).2.symm
    rw [ofList_snoc, name?_register_eq_some ht, handle?_register_eq_some ht, stands_snoc,
      (ih h n).1, (ih h n).2]
    exact ⟨Iff.rfl, Iff.rfl⟩

/-- However pairs are entered, one after the other, a handle has a name just when the name has
that handle; and that is so of a pair just when it was entered and after the last time neither
its handle nor its name was entered again. -/
theorem lookups_are_inverse (pairs : List (Handle × String)) (h : Handle) (n : String) :
    ((ofList pairs).name? h = some n ↔ (ofList pairs).handle? n = some h) ∧
    ((ofList pairs).name? h = some n ↔ ∃ before after, pairs = before ++ (h, n) :: after ∧
      (h, n) ∉ after ∧ ∀ p ∈ after, p.1 ≠ h ∧ p.2 ≠ n) := by
  obtain ⟨hname, hhandle⟩ := find_iff_stands pairs h n
  refine ⟨hname.trans hhandle.symm, hname.trans ?_⟩
  constructor
  · rintro ⟨before, after, hl, hafter⟩
    exact ⟨before, after, hl, fun hp => (hafter _ hp).1 rfl, hafter⟩
  · rintro ⟨before, after, hl, -, hafter⟩
    exact ⟨before, after, hl, hafter⟩

end RegionLayout.NameTable
