-- What a batch of relations asks for: each attribute that a relation has left, and the regions
-- of these, and nothing else.
import RegionLayout.Model.Demand

namespace RegionLayout

variable {R : Type}

/-! ## What is left in a relation -/

namespace Relation

variable {r : Relation R}

theorem target_mem_refs : r.target ∈ r.refs := List.mem_cons_self

theorem mem_refs_of_term {t : AttributeRef × R} (ht : t ∈ r.rhs.terms.entries) :
    t.1 ∈ r.refs := List.mem_cons_of_mem _ (List.mem_map_of_mem ht)

end Relation

/-! ## What a batch needs -/

namespace Demand

variable {d : Demand} {ref ref' : AttributeRef} {name : String} {attributes : List Attribute}

theorem contains_insert : (d.insert ref.region ref.attr).contains ref'.region ref'.attr = true ↔
    ref' = ref ∨ d.contains ref'.region ref'.attr = true := by
  obtain ⟨n, a⟩ := ref
  obtain ⟨n', a'⟩ := ref'
  simp only [insert, contains, SortedMap.get?_alter, AttributeRef.mk.injEq]
  by_cases hn : n' = n
  · subst hn
    rw [if_pos rfl]
    by_cases ha : a' = a
    · subst ha
      simp [SortedMap.contains, SortedMap.get?_insert]
    · cases hd : d.regions.get? n' <;>
        simp [ha, SortedMap.contains, SortedMap.get?_insert, Option.getD]
  · rw [if_neg hn]
    simp [hn]

theorem contains_foldl {refs : List AttributeRef} :
    (refs.foldl (fun d r => d.insert r.region r.attr) d).contains ref.region ref.attr = true ↔
      ref ∈ refs ∨ d.contains ref.region ref.attr = true := by
  induction refs generalizing d with
  | nil => simp
  | cons r refs ih =>
    rw [List.foldl_cons, ih, contains_insert, List.mem_cons, or_left_comm, or_assoc]

theorem mem_toList : d.contains ref.region ref.attr = true ↔
    ∃ attributes, (ref.region, attributes) ∈ d.toList ∧ ref.attr ∈ attributes := by
  unfold contains
  constructor
  · intro h
    split at h
    · rename_i attributes hd
      refine ⟨attributes.keys, List.mem_map.2 ⟨_, (SortedMap.get?_eq_some_iff _).1 hd, rfl⟩, ?_⟩
      rw [SortedMap.mem_keys]
      exact (SortedMap.contains_eq_true_iff _).1 h
    · simp at h
  · rintro ⟨attributes, hmem, ha⟩
    obtain ⟨⟨n, kept⟩, hd, heq⟩ := List.mem_map.1 hmem
    obtain ⟨rfl, rfl⟩ := Prod.mk.inj heq
    rw [(SortedMap.get?_eq_some_iff _).2 hd]
    exact (SortedMap.contains_eq_true_iff _).2 ((SortedMap.mem_keys _).1 ha)

theorem named_foldl {refs : List AttributeRef} :
    ((refs.foldl (fun d r => d.insert r.region r.attr) d).regions.get? name).isSome = true ↔
      (∃ ref ∈ refs, ref.region = name) ∨ (d.regions.get? name).isSome = true := by
  induction refs generalizing d with
  | nil => simp
  | cons ref refs ih =>
    rw [List.foldl_cons, ih, insert, SortedMap.get?_alter]
    by_cases hn : name = ref.region
    · simp [hn]
    · simp [hn, Ne.symm hn]

variable [Scalar R] {rs : List (Relation R)}

/-- A batch asks for every attribute of its relations, and for nothing else. -/
theorem mem_ofRelations : (∃ attributes, (ref.region, attributes) ∈ (ofRelations rs).toList ∧
    ref.attr ∈ attributes) ↔ ∃ r ∈ rs, ref ∈ r.refs := by
  rw [← mem_toList, ofRelations, contains_foldl, List.mem_flatMap]
  simp [empty, contains]

/-- Only regions that are named are asked for. -/
theorem named_of_mem (h : (name, attributes) ∈ (ofRelations rs).toList) :
    ∃ r ∈ rs, ∃ ref ∈ r.refs, ref.region = name := by
  obtain ⟨⟨n, kept⟩, hmem, heq⟩ := List.mem_map.1 h
  obtain ⟨rfl, -⟩ := Prod.mk.inj heq
  have hsome : ((ofRelations rs).regions.get? n).isSome = true := by
    rw [(SortedMap.get?_eq_some_iff _).2 hmem]
    rfl
  rcases named_foldl.1 hsome with ⟨ref, href, hn⟩ | hnone
  · obtain ⟨r, hr, href⟩ := List.mem_flatMap.1 href
    exact ⟨r, hr, ref, href, hn⟩
  · cases hnone

end Demand

end RegionLayout
