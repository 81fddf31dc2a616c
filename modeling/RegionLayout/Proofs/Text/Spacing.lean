-- Where wrapping keeps words apart. Whether a line has something on it is judged by the cells that
-- count as used, so behind words that leave none the next word is written without a space.
import RegionLayout.Proofs.Text.Filling

namespace RegionLayout.Text

variable {limit : Nat} {ws ls : List (List Char)} {word : List Char}

/-- In lines one under the other, a space or a line end stands right between the first `i` words and
those after them. -/
def Parted (ws ls : List (List Char)) (i : Nat) : Prop :=
  ∃ before sep after, ['\n'].intercalate ls = before ++ sep :: after ∧ (sep = ' ' ∨ sep = '\n') ∧
    ink before = (ws.take i).flatten

/-! ## One word after the other -/

/-- Words added later are written behind what stands. -/
theorem written_filled_append (limit : Nat) (ws more : List (List Char))
    (h : ∀ word ∈ more, Solid word) :
    ∃ v, (filled limit (ws ++ more)).written = (filled limit ws).written ++ v := by
  induction more using List.reverseRecOn with
  | nil => exact ⟨[], by simp⟩
  | append_singleton more word ih =>
    rw [List.forall_mem_append, List.forall_mem_singleton] at h
    obtain ⟨v, hv⟩ := ih h.1
    obtain ⟨b, -, hcase⟩ := (filled limit (ws ++ more)).written_addWord limit h.2
    rw [← List.append_assoc, filled_concat]
    split at hcase
    · exact ⟨v ++ b, by rw [hcase.2, hv, List.append_assoc]⟩
    · obtain ⟨sep, -, hwritten⟩ := hcase
      exact ⟨v ++ sep :: b, by rw [hwritten, hv, List.append_assoc]⟩

/-- What is written ends with the last character of the last word. -/
theorem getLast?_written (limit : Nat) (ws : List (List Char)) (h : Solid word) (hne : word ≠ []) :
    (filled limit (ws ++ [word])).written.getLast? = some (word.getLast hne) := by
  obtain ⟨b, hb, hcase⟩ := (filled limit ws).written_addWord limit h
  have hlast := hb.last.trans (List.getLast?_eq_some_getLast hne)
  rw [filled_concat]
  split at hcase
  · rw [hcase.2, List.getLast?_append, hlast]
    rfl
  · obtain ⟨sep, -, hwritten⟩ := hcase
    rw [hwritten, List.getLast?_append, List.getLast?_cons, hlast]
    rfl

/-- How a word and all after it are written behind those before it. -/
theorem written_filled_split (limit : Nat) (h : ∀ word ∈ ws, word ≠ [] ∧ Solid word) {i : Nat}
    (hi : i < ws.length) :
    ∃ b, if (filled limit (ws.take i)).used = 0 then
        b.head? = ws[i].head? ∧ (filled limit ws).written = (filled limit (ws.take i)).written ++ b
      else ∃ sep, (sep = ' ' ∨ sep = '\n') ∧
        (filled limit ws).written = (filled limit (ws.take i)).written ++ sep :: b := by
  obtain ⟨hne, hsolid⟩ := h ws[i] (List.getElem_mem hi)
  obtain ⟨b, hb, hcase⟩ := (filled limit (ws.take i)).written_addWord limit hsolid
  obtain ⟨v, hv⟩ := written_filled_append limit (ws.take (i + 1)) (ws.drop (i + 1))
    fun word hmem => (h word (List.mem_of_mem_drop hmem)).2
  rw [List.take_append_drop] at hv
  rw [← filled_concat, ← List.take_succ_eq_append_getElem hi] at hcase
  refine ⟨b ++ v, ?_⟩
  split at hcase
  · rename_i hused
    obtain ⟨hhead, hwritten⟩ := hcase
    obtain ⟨c, tail, hword⟩ := List.exists_cons_of_ne_nil hne
    rw [if_pos hused, hv, hwritten, List.head?_append, hhead, hword]
    exact ⟨rfl, List.append_assoc ..⟩
  · rename_i hused
    obtain ⟨sep, hsep, hwritten⟩ := hcase
    rw [if_neg hused, hv, hwritten]
    exact ⟨sep, hsep, List.append_assoc ..⟩

/-! ## Gaps between words -/

/-- Behind words that have used a cell the next one stands apart. -/
theorem parted_of_used (h : ∀ word ∈ ws, word ≠ [] ∧ Solid word) {i : Nat} (hi : i < ws.length)
    (hused : 0 < (filled limit (ws.take i)).used) : Parted ws (filled limit ws).toList i := by
  obtain ⟨b, hb⟩ := written_filled_split limit h hi
  rw [if_neg (Nat.ne_of_gt hused), Wrapping.written_eq_intercalate (filled limit ws)] at hb
  obtain ⟨sep, hsep, hwritten⟩ := hb
  refine ⟨_, sep, b, hwritten, hsep, ?_⟩
  exact ink_filled fun word hmem => h word (List.mem_of_mem_take hmem)

/-- Nothing parts two characters that are no blanks and stand side by side. -/
theorem not_parted_of_touching {i : Nat} {c d : Char} (hc : isBlank c = false)
    (hd : isBlank d = false) {a b : List Char} (hls : ['\n'].intercalate ls = (a ++ [c]) ++ d :: b)
    (hink : ink (a ++ [c]) = (ws.take i).flatten) : ¬ Parted ws ls i := by
  rintro ⟨before, sep, after, hsplit, hsep, hbefore⟩
  rw [hls] at hsplit
  rw [← hink] at hbefore
  -- One of the two starts is the longer one, and shows a character more.
  rcases List.append_eq_append_iff.1 hsplit with ⟨more, rfl, hmore⟩ | ⟨more, hmore, hafter⟩
  · cases more with
    | nil =>
      obtain ⟨rfl, -⟩ := List.cons.inj hmore
      rw [isBlank_of_sep hsep] at hd
      cases hd
    | cons e more =>
      obtain ⟨rfl, -⟩ := List.cons.inj hmore
      simp [ink, hc, hd] at hbefore
  · rcases List.eq_nil_or_concat' more with rfl | ⟨more, e, rfl⟩
    · obtain ⟨rfl, -⟩ := List.cons.inj hafter
      rw [isBlank_of_sep hsep] at hd
      cases hd
    · rw [← List.append_assoc] at hmore
      obtain ⟨-, he⟩ := List.append_inj' hmore rfl
      obtain rfl := List.singleton_inj.1 he
      rw [hmore] at hbefore
      simp [ink, hc] at hbefore

/-- Behind words that have used no cell the next one is written without a gap. -/
theorem not_parted_of_unused (h : ∀ word ∈ ws, word ≠ [] ∧ Solid word) {i : Nat} (hpos : 0 < i)
    (hi : i < ws.length) (hunused : (filled limit (ws.take i)).used = 0) :
    ¬ Parted ws (filled limit ws).toList i := by
  obtain ⟨k, rfl⟩ := Nat.exists_eq_succ_of_ne_zero (Nat.ne_of_gt hpos)
  have hk : k < ws.length := Nat.lt_of_succ_lt hi
  obtain ⟨hne, hsolid⟩ := h ws[k] (List.getElem_mem hk)
  obtain ⟨hne', hsolid'⟩ := h ws[k + 1] (List.getElem_mem hi)
  have hlast := getLast?_written limit (ws.take k) hsolid hne
  rw [← List.take_succ_eq_append_getElem hk] at hlast
  obtain ⟨a, ha⟩ := List.getLast?_eq_some_iff.1 hlast
  obtain ⟨b, hb⟩ := written_filled_split limit h hi
  rw [if_pos hunused, Wrapping.written_eq_intercalate (filled limit ws), ha,
    List.head?_eq_some_head hne'] at hb
  obtain ⟨b, rfl⟩ := List.head?_eq_some_iff.1 hb.1
  refine not_parted_of_touching (hsolid _ (List.getLast_mem hne))
    (hsolid' _ (List.head_mem hne')) hb.2 ?_
  rw [← ha, ink_filled fun word hmem => h word (List.mem_of_mem_take hmem)]

/-! ## Which words use a cell -/

theorem used_addChar (limit : Nat) (w : Wrapping) (c : Char) :
    (charWidth? c).getD 0 ≤ (w.addChar limit c).used := by
  unfold Wrapping.addChar
  dsimp only
  split <;> simp [Wrapping.newLine]

/-- A word that takes a cell and ends with a character that takes one leaves some used. -/
theorem used_addWord_pos (w : Wrapping) (hcells : 0 < displayWidth word)
    (hlast : ∀ c, word.getLast? = some c → 0 < (charWidth? c).getD 0) :
    0 < (w.addWord limit word).used := by
  unfold Wrapping.addWord
  dsimp only
  split
  · exact Nat.add_pos_right _ hcells
  · split
    · exact hcells
    · rcases List.eq_nil_or_concat' word with rfl | ⟨front, c, rfl⟩
      · exact absurd hcells (by decide)
      · rw [List.foldl_append]
        exact Nat.lt_of_lt_of_le (hlast c (by simp)) (used_addChar limit _ c)

/-- So words are never run together behind one that shows at its end. -/
theorem parted_of_cells (h : ∀ word ∈ ws, word ≠ [] ∧ Solid word) {i : Nat} (hi : i + 1 < ws.length)
    (hcells : 0 < displayWidth ws[i])
    (hlast : ∀ c, ws[i].getLast? = some c → 0 < (charWidth? c).getD 0) :
    Parted ws (filled limit ws).toList (i + 1) := by
  refine parted_of_used h hi ?_
  rw [List.take_succ_eq_append_getElem (Nat.lt_of_succ_lt hi), filled_concat]
  exact used_addWord_pos _ hcells hlast

/-! ## Wrapped texts -/

/-- Two words that follow each other in a line are parted by a space or a line end just where the
words up to the first of them have used a cell of the line that is being filled. -/
theorem words_are_parted_iff (text : String) (limit : Int) (hlimit : 0 < limit) :
    wrap text (some limit) =
        ((lines (strip text.toList)).flatMap (wrapLine limit.toNat)).map String.ofList ∧
      ∀ line ∈ lines (strip text.toList), ∀ i, 0 < i → i < (words line).length →
        (Parted (words line) (wrapLine limit.toNat line) i ↔
          0 < (filled limit.toNat ((words line).take i)).used) := by
  refine ⟨?_, fun line _ i hpos hi => ⟨fun hparted => ?_, fun hused => ?_⟩⟩
  · unfold wrap
    dsimp only
    rw [if_pos hlimit]
  · by_contra hnone
    exact not_parted_of_unused (forall_words line) hpos hi (by omega) hparted
  · exact parted_of_used (forall_words line) hi hused

/-- A word without a cell is parted from the next one if it stands behind one that has some. -/
theorem words_are_parted_behind_letters : 0 < (5 : Int) ∧
    wrap "ab \u200B c" (some 5) = ["ab \u200B c"] ∧
    Parted [['a', 'b'], ['\u200B'], ['c']] (wrapLine 5 "ab \u200B c".toList) 1 ∧
    Parted [['a', 'b'], ['\u200B'], ['c']] (wrapLine 5 "ab \u200B c".toList) 2 := by
  obtain ⟨-, hparted⟩ := words_are_parted_iff "ab \u200B c" 5 (by decide)
  have hmem : "ab \u200B c".toList ∈ lines (strip "ab \u200B c".toList) := by decide +kernel
  have hwords : words "ab \u200B c".toList = [['a', 'b'], ['\u200B'], ['c']] := by decide +kernel
  have hiff := hparted _ hmem
  rw [hwords] at hiff
  refine ⟨by decide, by decide +kernel, ?_, ?_⟩
  · exact (hiff 1 (by decide) (by decide)).2 (by decide +kernel)
  · exact (hiff 2 (by decide) (by decide)).2 (by decide +kernel)

/-- At the start of a line such a word uses nothing, and the next one is written right behind it. -/
theorem words_run_together_behind_blank_word :
    lines (strip "\u200B a".toList) = ["\u200B a".toList] ∧
    words "\u200B a".toList = [['\u200B'], ['a']] ∧ wrap "\u200B a" (some 5) = ["\u200Ba"] ∧
    ¬ Parted (words "\u200B a".toList) (wrapLine 5 "\u200B a".toList) 1 := by
  refine ⟨by decide +kernel, by decide +kernel, by decide +kernel, ?_⟩
  refine not_parted_of_unused (forall_words _) (by decide) (by decide +kernel) ?_
  decide +kernel

end RegionLayout.Text
