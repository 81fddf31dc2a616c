-- Finite maps kept in the order of their keys. A tableau row, a region's variables and the
-- set of named regions are all walked in key order, and every answer that lists them shows
-- that order, so it is part of the type: a key stands at most once and each entry is below
-- the next.

namespace RegionLayout

open Std

/-- Entries in strictly rising key order. -/
structure SortedMap (κ : Type) (α : Type) [Ord κ] where
  entries : List (κ × α)
  rising : entries.Pairwise fun a b => (compare a.1 b.1).isLT = true
deriving DecidableEq

namespace SortedMap

variable {κ : Type} [Ord κ] {α β : Type}

/-! ## Entry lists -/

/-- The value at `k` in a rising list. The walk stops at the first larger key. -/
def lookupIn (k : κ) : List (κ × α) → Option α
  | [] => none
  | (k', a) :: rest =>
    match compare k k' with
    | .lt => none
    | .eq => some a
    | .gt => lookupIn k rest

/-- Gives the entry at `k` the value `f` makes of the old one; `none` leaves no entry. -/
def alterIn (k : κ) (f : Option α → Option α) : List (κ × α) → List (κ × α)
  | [] => match f none with
    | none => []
    | some a => [(k, a)]
  | (k', a) :: rest =>
    match compare k k' with
    | .lt => match f none with
      | none => (k', a) :: rest
      | some b => (k, b) :: (k', a) :: rest
    | .eq => match f (some a) with
      | none => rest
      | some b => (k', b) :: rest
    | .gt => (k', a) :: alterIn k f rest

theorem isLT_iff {o : Ordering} : o.isLT = true ↔ o = .lt := by cases o <;> simp

/-- An altered list holds the key it was altered at, or keys it held before. -/
theorem key_of_mem_alterIn {k : κ} {f : Option α → Option α} {l : List (κ × α)} {e : κ × α}
    (h : e ∈ alterIn k f l) : e.1 = k ∨ ∃ e' ∈ l, e'.1 = e.1 := by
  induction l with
  | nil =>
    simp only [alterIn] at h
    split at h <;> simp_all
  | cons hd tl ih =>
    obtain ⟨k', a⟩ := hd
    simp only [alterIn] at h
    split at h
    · split at h <;> simp_all <;> grind
    · split at h <;> simp_all <;> grind
    · simp only [List.mem_cons] at h
      rcases h with rfl | h
      · exact Or.inr ⟨_, List.mem_cons_self, rfl⟩
      · rcases ih h with h | ⟨e', he', hk⟩
        · exact Or.inl h
        · exact Or.inr ⟨e', List.mem_cons_of_mem _ he', hk⟩

theorem rising_alterIn [TransOrd κ] [LawfulEqOrd κ] (k : κ) (f : Option α → Option α)
    {l : List (κ × α)} (h : l.Pairwise fun a b => (compare a.1 b.1).isLT = true) :
    (alterIn k f l).Pairwise fun a b => (compare a.1 b.1).isLT = true := by
  induction l with
  | nil => simp only [alterIn]; split <;> simp
  | cons hd tl ih =>
    obtain ⟨k', a⟩ := hd
    obtain ⟨hlt, htl⟩ := List.pairwise_cons.1 h
    simp only [alterIn]
    split
    · rename_i hk
      split
      · exact h
      · refine List.pairwise_cons.2 ⟨?_, h⟩
        intro e he
        rcases List.mem_cons.1 he with rfl | he
        · simp [hk]
        · exact isLT_iff.2 (TransCmp.lt_trans hk (isLT_iff.1 (hlt e he)))
    · split
      · exact htl
      · exact List.pairwise_cons.2 ⟨hlt, htl⟩
    · rename_i hk
      refine List.pairwise_cons.2 ⟨?_, ih htl⟩
      intro e he
      rcases key_of_mem_alterIn he with he | ⟨e', he', hke⟩
      · rw [he]; exact isLT_iff.2 (OrientedCmp.lt_of_gt hk)
      · rw [← hke]; exact hlt e' he'

/-! ## Maps -/

def empty : SortedMap κ α := ⟨[], List.Pairwise.nil⟩

instance : EmptyCollection (SortedMap κ α) := ⟨empty⟩
instance : Inhabited (SortedMap κ α) := ⟨empty⟩

/-- The value at `k`, if there is one. -/
def get? (m : SortedMap κ α) (k : κ) : Option α := lookupIn k m.entries

def contains (m : SortedMap κ α) (k : κ) : Bool := (m.get? k).isSome

def keys (m : SortedMap κ α) : List κ := m.entries.map (·.1)

def values (m : SortedMap κ α) : List α := m.entries.map (·.2)

def size (m : SortedMap κ α) : Nat := m.entries.length

def isEmpty (m : SortedMap κ α) : Bool := m.entries.isEmpty

/-- The first entry, in key order, that passes `p`. -/
def find? (m : SortedMap κ α) (p : κ → α → Bool) : Option (κ × α) :=
  m.entries.find? fun e => p e.1 e.2

/-- Every value replaced by what `f` makes of it; the keys stay. -/
def mapValues (f : κ → α → β) (m : SortedMap κ α) : SortedMap κ β where
  entries := m.entries.map fun e => (e.1, f e.1 e.2)
  rising := by
    refine List.pairwise_map.2 (m.rising.imp ?_)
    intro a b h
    exact h

/-- The entries that pass `p`. -/
def filter (p : κ → α → Bool) (m : SortedMap κ α) : SortedMap κ α where
  entries := m.entries.filter fun e => p e.1 e.2
  rising := m.rising.sublist List.filter_sublist

section Altered

variable [TransOrd κ] [LawfulEqOrd κ]

/-- Gives the entry at `k` the value `f` makes of the old one; `none` leaves no entry. -/
def alter (m : SortedMap κ α) (k : κ) (f : Option α → Option α) : SortedMap κ α :=
  ⟨alterIn k f m.entries, rising_alterIn k f m.rising⟩

/-- Puts `a` at `k`, over any value there. -/
def insert (m : SortedMap κ α) (k : κ) (a : α) : SortedMap κ α := m.alter k fun _ => some a

/-- Leaves no entry at `k`. -/
def erase (m : SortedMap κ α) (k : κ) : SortedMap κ α := m.alter k fun _ => none

/-- The map of a list of entries; of two at one key the later wins. -/
def ofList (l : List (κ × α)) : SortedMap κ α :=
  l.foldl (fun m e => m.insert e.1 e.2) ∅

end Altered

/-! ## What each operation does to a look-up -/

@[simp] theorem entries_empty : (∅ : SortedMap κ α).entries = [] := rfl

@[simp] theorem get?_empty (k : κ) : (∅ : SortedMap κ α).get? k = none := rfl

theorem contains_eq_true_iff (m : SortedMap κ α) {k : κ} :
    m.contains k = true ↔ ∃ a, m.get? k = some a := Option.isSome_iff_exists

theorem contains_eq_false_iff (m : SortedMap κ α) {k : κ} :
    m.contains k = false ↔ m.get? k = none := by
  unfold contains; cases m.get? k <;> simp

theorem lookupIn_eq_none_of_lt [TransOrd κ] {k : κ} {l : List (κ × α)}
    (h : ∀ e ∈ l, compare k e.1 = .lt) : lookupIn k l = none := by
  cases l with
  | nil => rfl
  | cons hd tl => simp [lookupIn, h hd List.mem_cons_self]

theorem lookupIn_alterIn [TransOrd κ] [LawfulEqOrd κ] [DecidableEq κ] (k j : κ)
    (f : Option α → Option α) {l : List (κ × α)}
    (h : l.Pairwise fun a b => (compare a.1 b.1).isLT = true) :
    lookupIn j (alterIn k f l) = if j = k then f (lookupIn k l) else lookupIn j l := by
  induction l with
  | nil =>
    simp only [alterIn, lookupIn]
    split <;> rename_i hf
    · split <;> simp_all [lookupIn]
    · by_cases hjk : j = k
      · subst hjk; simp [lookupIn, hf]
      · simp only [hjk, if_false, lookupIn]
        split <;> simp_all
  | cons hd tl ih =>
    obtain ⟨k', a⟩ := hd
    obtain ⟨hlt, htl⟩ := List.pairwise_cons.1 h
    have above : ∀ {i : κ}, compare i k' = .lt ∨ i = k' → lookupIn i tl = none := by
      intro i hi
      refine lookupIn_eq_none_of_lt fun e he => ?_
      rcases hi with hi | rfl
      · exact TransCmp.lt_trans hi (isLT_iff.1 (hlt e he))
      · exact isLT_iff.1 (hlt e he)
    simp only [alterIn]
    split <;> rename_i hk
    · split <;> rename_i hf
      · by_cases hjk : j = k
        · subst hjk; simp [lookupIn, hk, hf]
        · simp [hjk]
      · by_cases hjk : j = k
        · subst hjk; simp [lookupIn, hk, hf]
        · simp only [lookupIn, hjk, if_false]
          split <;> rename_i hj
          · simp [TransCmp.lt_trans hj hk]
          · exact absurd (LawfulEqCmp.eq_of_compare hj) hjk
          · rfl
    · obtain rfl := LawfulEqCmp.eq_of_compare hk
      split <;> rename_i hf
      · by_cases hjk : j = k
        · subst hjk; simp [lookupIn, above (Or.inr rfl), hf]
        · simp only [lookupIn, hjk, if_false]
          split <;> rename_i hj
          · exact above (Or.inl hj)
          · exact absurd (LawfulEqCmp.eq_of_compare hj) hjk
          · rfl
      · by_cases hjk : j = k
        · subst hjk; simp [lookupIn, hf]
        · simp only [lookupIn, hjk, if_false]
          split <;> rename_i hj
          · rfl
          · exact absurd (LawfulEqCmp.eq_of_compare hj) hjk
          · rfl
    · simp only [lookupIn, hk, ih htl]
      by_cases hjk : j = k
      · subst hjk; simp [hk]
      · simp [hjk]

variable [TransOrd κ] [LawfulEqOrd κ]

theorem get?_alter [DecidableEq κ] (m : SortedMap κ α) (k j : κ) (f : Option α → Option α) :
    (m.alter k f).get? j = if j = k then f (m.get? k) else m.get? j := by
  have h := lookupIn_alterIn k j f m.rising
  unfold get? alter
  rw [h]

theorem get?_insert [DecidableEq κ] (m : SortedMap κ α) (k j : κ) (a : α) :
    (m.insert k a).get? j = if j = k then some a else m.get? j := get?_alter m k j _

theorem get?_erase [DecidableEq κ] (m : SortedMap κ α) (k j : κ) :
    (m.erase k).get? j = if j = k then none else m.get? j := get?_alter m k j _

/-! ## Entries and look-ups -/

theorem lookupIn_eq_some_iff {k : κ} {a : α} {l : List (κ × α)}
    (h : l.Pairwise fun a b => (compare a.1 b.1).isLT = true) :
    lookupIn k l = some a ↔ (k, a) ∈ l := by
  induction l with
  | nil => simp [lookupIn]
  | cons hd tl ih =>
    obtain ⟨k', b⟩ := hd
    obtain ⟨hlt, htl⟩ := List.pairwise_cons.1 h
    have hne : ∀ a', (k', a') ∈ tl → False := by
      intro a' ha
      have := isLT_iff.1 (hlt _ ha)
      simp at this
    simp only [lookupIn, List.mem_cons, Prod.mk.injEq]
    split <;> rename_i hk
    · refine ⟨by simp, ?_⟩
      rintro (⟨rfl, -⟩ | ha)
      · simp at hk
      · have := TransCmp.lt_trans hk (isLT_iff.1 (hlt _ ha))
        simp at this
    · obtain rfl := LawfulEqCmp.eq_of_compare hk
      constructor
      · intro hb
        exact Or.inl ⟨rfl, (Option.some.inj hb).symm⟩
      · rintro (⟨-, rfl⟩ | ha)
        · rfl
        · exact (hne a ha).elim
    · rw [ih htl]
      refine ⟨Or.inr, ?_⟩
      rintro (⟨rfl, -⟩ | ha)
      · simp at hk
      · exact ha

theorem get?_eq_some_iff (m : SortedMap κ α) {k : κ} {a : α} :
    m.get? k = some a ↔ (k, a) ∈ m.entries := lookupIn_eq_some_iff m.rising

theorem get?_mapValues (m : SortedMap κ α) (f : κ → α → β) (k : κ) :
    (m.mapValues f).get? k = (m.get? k).map (f k) := by
  apply Option.ext
  intro b
  rw [get?_eq_some_iff, Option.map_eq_some_iff]
  simp only [mapValues, List.mem_map, Prod.mk.injEq, Prod.exists]
  constructor
  · rintro ⟨k', a, ha, rfl, rfl⟩
    exact ⟨a, (get?_eq_some_iff m).2 ha, rfl⟩
  · rintro ⟨a, ha, rfl⟩
    exact ⟨k, a, (get?_eq_some_iff m).1 ha, rfl, rfl⟩

theorem mem_keys (m : SortedMap κ α) {k : κ} : k ∈ m.keys ↔ ∃ a, m.get? k = some a := by
  simp [keys, get?_eq_some_iff]

theorem find?_eq_none_iff (m : SortedMap κ α) {p : κ → α → Bool} :
    m.find? p = none ↔ ∀ k a, m.get? k = some a → p k a = false := by
  simp [find?, get?_eq_some_iff, List.find?_eq_none]

/-- What is found passes, and it is the first in the order to pass. -/
theorem find?_eq_some (m : SortedMap κ α) {p : κ → α → Bool} {k : κ} {a : α}
    (h : m.find? p = some (k, a)) : m.get? k = some a ∧ p k a = true ∧
      ∀ k' a', m.get? k' = some a' → p k' a' = true → k' = k ∨ compare k k' = .lt := by
  obtain ⟨hp, as, bs, hl, has⟩ := List.find?_eq_some_iff_append.1 h
  refine ⟨(get?_eq_some_iff m).2 (by rw [hl]; simp), hp, ?_⟩
  intro k' a' hk' hp'
  have hr := m.rising
  rw [get?_eq_some_iff, hl, List.mem_append, List.mem_cons] at hk'
  rw [hl] at hr
  rcases hk' with hk' | hk' | hk'
  · have := has _ hk'
    simp [hp'] at this
  · exact Or.inl (congrArg Prod.fst hk')
  · exact Or.inr (isLT_iff.1 ((List.pairwise_cons.1 (List.pairwise_append.1 hr).2.1).1 _ hk'))

end SortedMap

end RegionLayout
