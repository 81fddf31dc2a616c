-- Words and lines of a text. A blank belongs to no word, and the words carry all the rest. What is
-- read once the escape sequences are gone is plain: each character stands for itself, and taking
-- sequences out once more changes nothing.
import RegionLayout.Text.Blank
import RegionLayout.Text.Escape

namespace RegionLayout.Text

variable {s : List Char} {w : List Char} {c : Char}

/-! ## Words -/

theorem flatten_splitAt (p : Char → Bool) (s : List Char) :
    (splitAt p s).flatten = s.filter fun c => !p c := by
  induction s with
  | nil => rfl
  | cons c r ih =>
    obtain ⟨w, ws, hr⟩ := List.exists_cons_of_ne_nil (splitAt_ne_nil p r)
    rw [hr] at ih
    by_cases hc : p c = true
    · simp [splitAt, hr, hc, ← ih]
    · simp [splitAt, hr, hc, ← ih]

theorem mem_splitAt {p : Char → Bool} (hw : w ∈ splitAt p s) (hc : c ∈ w) :
    c ∈ s ∧ p c = false := by
  have hmem : c ∈ (splitAt p s).flatten := List.mem_flatten_of_mem hw hc
  rw [flatten_splitAt, List.mem_filter] at hmem
  simpa using hmem

theorem splitAt_eq_singleton {p : Char → Bool} (h : ∀ c ∈ s, p c = false) : splitAt p s = [s] := by
  induction s with
  | nil => rfl
  | cons c r ih =>
    rw [splitAt, ih fun d hd => h d (List.mem_cons_of_mem _ hd), h c List.mem_cons_self]
    rfl

/-- What a text shows: its characters but for the blanks. -/
def ink (s : List Char) : List Char := s.filter fun c => !isBlank c

@[simp] theorem ink_append (a b : List Char) : ink (a ++ b) = ink a ++ ink b :=
  List.filter_append ..

@[simp] theorem ink_nil : ink [] = [] := rfl

theorem ink_flatMap {α : Type} (l : List α) (f : α → List Char) :
    ink (l.flatMap f) = l.flatMap fun a => ink (f a) := List.filter_flatMap

theorem ink_cons_of_blank (h : isBlank c = true) (s : List Char) : ink (c :: s) = ink s := by
  simp [ink, h]

/-- A run of characters without a blank. -/
def Solid (w : List Char) : Prop := ∀ c ∈ w, isBlank c = false

theorem Solid.ink_eq (h : Solid w) : ink w = w :=
  List.filter_eq_self.2 fun c hc => by simp [h c hc]

theorem mem_words (h : w ∈ words s) : w ≠ [] ∧ Solid w ∧ ∀ c ∈ w, c ∈ s := by
  obtain ⟨hw, hne⟩ := List.mem_filter.1 h
  exact ⟨by simpa using hne, fun c hc => (mem_splitAt hw hc).2, fun c hc => (mem_splitAt hw hc).1⟩

/-- The words carry all that a text shows. -/
theorem flatten_words (s : List Char) : (words s).flatten = ink s := by
  rw [words, List.flatten_filter_not_isEmpty, flatten_splitAt, ink]

theorem Solid.words_eq (h : Solid w) (hne : w ≠ []) : words w = [w] := by
  rw [words, splitAt_eq_singleton h]
  simp [hne]

/-! ## Lines -/

theorem mem_lines {l : List Char} (hl : l ∈ lines s) (hc : c ∈ l) : c ∈ s ∧ c ≠ '\n' := by
  have hpiece : l ∈ splitAt (· == '\n') s := by
    unfold lines at hl
    dsimp only at hl
    split at hl
    · exact List.dropLast_subset _ hl
    · exact hl
  obtain ⟨hs, hne⟩ := mem_splitAt hpiece hc
  exact ⟨hs, by simpa using hne⟩

theorem Solid.lines_eq (h : Solid w) (hne : w ≠ []) : lines w = [w] := by
  have hend : ∀ c ∈ w, (c == '\n') = false := by
    intro c hc
    rw [beq_eq_false_iff_ne]
    rintro rfl
    exact absurd (h _ hc) (by decide)
  unfold lines
  rw [splitAt_eq_singleton hend]
  simp [hne]

/-! ## Plain characters -/

/-- A character that stands for itself outside an escape sequence: none of the control characters
but the delete character. -/
def IsPlain (c : Char) : Prop := 0x20 ≤ c.toNat ∧ (c.toNat < 0x80 ∨ 0x9F < c.toNat)

instance (c : Char) : Decidable (IsPlain c) := inferInstanceAs (Decidable (_ ∧ _))

theorem isPlain_space : IsPlain ' ' := by decide

theorem IsPlain.ground_eq (h : IsPlain c) : ground c = (.ground, [c]) := by
  obtain ⟨hlow, hhigh⟩ := h
  unfold ground
  have hescape : (c.toNat == 0x1B) = false := by simp; omega
  have hlast : (0x80 ≤ c.toNat && c.toNat ≤ 0x9F) = false := by simp; omega
  rw [hescape, hlast, if_neg (by simp), if_neg (by omega), if_neg (by simp)]

/-- A plain text has no escape sequences. -/
theorem strip_of_plain (h : ∀ c ∈ s, IsPlain c) : strip s = s := by
  unfold strip
  induction s with
  | nil => rfl
  | cons c r ih =>
    have hc := (h c List.mem_cons_self).ground_eq
    rw [stripFrom, show feed .ground c = ground c from rfl, hc]
    simp only [List.singleton_append, ih fun d hd => h d (List.mem_cons_of_mem _ hd)]

theorem plain_of_mem_lineEnd {b : Nat} (h : c ∈ lineEnd b) : c = '\n' := by
  unfold lineEnd at h
  split at h
  · exact List.mem_singleton.1 h
  · simp at h

theorem plain_of_mem_strayByte {b : Nat} (h : c ∈ strayByte b) : IsPlain c := by
  unfold strayByte at h
  split at h
  · simp at h
  · rw [List.mem_singleton.1 h]
    decide

theorem plain_of_mem_feedBytes {state : Terminal} {bytes : List Nat}
    (h : c ∈ (feedBytes state bytes).2) : c = '\n' ∨ IsPlain c := by
  induction bytes generalizing state with
  | nil => simp [feedBytes] at h
  | cons b rest ih =>
    unfold feedBytes at h
    split at h
    · rename_i heq
      cases heq
    · simp only [List.mem_append] at h
      rename_i heq
      cases heq
      rcases h with h | h
      · exact .inr (plain_of_mem_strayByte h)
      · exact ih h
    · simp only [List.mem_append] at h
      rename_i heq
      cases heq
      rcases h with h | h
      · split at h
        · exact .inl (plain_of_mem_lineEnd h)
        · simp at h
      · exact ih h

theorem plain_of_mem_ground {d : Char} (h : c ∈ (ground d).2) : c = '\n' ∨ IsPlain c := by
  unfold ground at h
  split at h
  · simp at h
  · split at h
    · exact .inl (plain_of_mem_lineEnd h)
    · split at h
      · simp at h
      · rename_i hcontrol hlast
        obtain rfl := List.mem_singleton.1 h
        refine .inr ⟨by omega, ?_⟩
        simp at hlast
        omega

theorem plain_of_mem_stripFrom {state : Terminal} (h : c ∈ stripFrom state s) :
    c = '\n' ∨ IsPlain c := by
  induction s generalizing state with
  | nil => simp [stripFrom] at h
  | cons d r ih =>
    simp only [stripFrom, List.mem_append] at h
    rcases h with h | h
    · unfold feed at h
      split at h
      · exact plain_of_mem_ground h
      · exact plain_of_mem_feedBytes h
    · exact ih h

/-- The lines of a text without escape sequences are plain. -/
theorem plain_of_mem_lines {l : List Char} (hl : l ∈ lines (strip s)) (hc : c ∈ l) : IsPlain c := by
  obtain ⟨hmem, hne⟩ := mem_lines hl hc
  exact (plain_of_mem_stripFrom hmem).resolve_left hne

end RegionLayout.Text
