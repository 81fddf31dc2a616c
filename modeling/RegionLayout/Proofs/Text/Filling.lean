-- Filling lines with words. What is written only grows: a word is added behind a blank or a line
-- end, or, where nothing counts as used on the line, right behind what stands there. So nothing is
-- lost, and two words run together just where the first of them leaves no cell used.
import Mathlib.Data.List.Forall2
import Mathlib.Data.List.Induction
import RegionLayout.Proofs.Text.Words
import RegionLayout.Text.Wrap

namespace RegionLayout.Text

variable {limit : Nat} {w : Wrapping} {word line : List Char} {ws : List (List Char)}

/-! ## What is written -/

/-- A word written out, perhaps broken by line ends. -/
structure Spells (b word : List Char) : Prop where
  ink : ink b = word
  last : b.getLast? = word.getLast?

theorem Spells.refl (h : Solid word) : Spells word word := ⟨h.ink_eq, rfl⟩

theorem isBlank_of_sep {sep : Char} (h : sep = ' ' ∨ sep = '\n') : isBlank sep = true := by
  rcases h with rfl | rfl <;> decide

namespace Wrapping

/-- The lines one under the other. -/
def written (w : Wrapping) : List Char := (w.full.reverse.flatMap fun l => l ++ ['\n']) ++ w.current

@[simp] theorem written_newLine (w : Wrapping) : w.newLine.written = w.written ++ ['\n'] := by
  simp [written, newLine]

theorem written_eq_intercalate (w : Wrapping) : w.written = ['\n'].intercalate w.toList := by
  have hlines (ls : List (List Char)) (last : List Char) :
      (ls.flatMap fun l => l ++ ['\n']) ++ last = ['\n'].intercalate (ls ++ [last]) := by
    induction ls with
    | nil => simp
    | cons l ls ih =>
      rw [List.flatMap_cons, List.append_assoc, ih, List.cons_append,
        List.intercalate_cons_of_ne_nil (by simp)]
  simp [written, toList, hlines]

theorem ink_written (w : Wrapping) : ink w.written = w.toList.flatMap ink := by
  have hline (l : List Char) : ink (l ++ ['\n']) = ink l := by
    rw [ink_append, ink_cons_of_blank (by decide), ink_nil, List.append_nil]
  simp [written, toList, ink_flatMap, hline]

theorem written_addChar (limit : Nat) (w : Wrapping) (c : Char) :
    (w.addChar limit c).written = w.written ++ [c] ∨
      0 < w.used ∧ (w.addChar limit c).written = w.written ++ ['\n', c] := by
  unfold addChar
  dsimp only
  split
  · rename_i h
    refine .inr ⟨by simpa using (Bool.and_eq_true_iff.1 h).2, ?_⟩
    simp [written, newLine]
  · exact .inl (by simp [written])

/-- A long word is written with line ends in between, and none before it on an unused line. -/
theorem written_addChars (limit : Nat) (w : Wrapping) (h : Solid word) :
    ∃ b, Spells b word ∧ (w.used = 0 → b.head? = word.head?) ∧
      (word.foldl (addChar limit) w).written = w.written ++ b := by
  induction word generalizing w with
  | nil => exact ⟨[], ⟨rfl, rfl⟩, fun _ => rfl, by simp⟩
  | cons c word ih =>
    have hc : isBlank c = false := h c List.mem_cons_self
    obtain ⟨b, hb, -, hwritten⟩ := ih (w.addChar limit c) (List.forall_mem_cons.1 h).2
    have hspells : Spells (c :: b) (c :: word) :=
      ⟨by rw [← hb.ink]; simp [Text.ink, hc],
        by rw [List.getLast?_cons, List.getLast?_cons, hb.last]⟩
    rw [List.foldl_cons, hwritten]
    rcases written_addChar limit w c with hadd | ⟨hused, hadd⟩
    · exact ⟨c :: b, hspells, fun _ => rfl, by simp [hadd]⟩
    · refine ⟨'\n' :: c :: b, ⟨?_, ?_⟩, fun h0 => absurd h0 (Nat.ne_of_gt hused), by simp [hadd]⟩
      · rw [ink_cons_of_blank (by decide), hspells.ink]
      · rw [List.getLast?_cons_cons, hspells.last]

/-- A word is written right behind what stands on an unused line, else behind a space or a line
end. -/
theorem written_addWord (limit : Nat) (w : Wrapping) (h : Solid word) :
    ∃ b, Spells b word ∧
      if w.used = 0 then b.head? = word.head? ∧ (w.addWord limit word).written = w.written ++ b
      else ∃ sep, (sep = ' ' ∨ sep = '\n') ∧
        (w.addWord limit word).written = w.written ++ sep :: b := by
  have hlaid (v : Wrapping) (hv : v.used = 0) : ∃ b, Spells b word ∧ b.head? = word.head? ∧
      (if displayWidth word ≤ limit then
        { v with current := v.current ++ word, used := displayWidth word }
      else word.foldl (addChar limit) v).written = v.written ++ b := by
    split
    · exact ⟨word, .refl h, rfl, by simp [written]⟩
    · obtain ⟨b, hb, hhead, hwritten⟩ := written_addChars limit v h
      exact ⟨b, hb, hhead hv, hwritten⟩
  unfold addWord
  dsimp only
  by_cases hused : w.used = 0
  · simp only [hused, if_true]
    simpa using hlaid w hused
  · have hpos : 0 < w.used := Nat.pos_of_ne_zero hused
    simp only [hused, if_false, hpos, decide_true, Bool.true_and, if_true]
    split
    · exact ⟨word, .refl h, ' ', .inl rfl, by simp [written]⟩
    · obtain ⟨b, hb, -, hwritten⟩ := hlaid w.newLine rfl
      exact ⟨b, hb, '\n', .inr rfl, by rw [hwritten]; simp⟩

theorem flatten_toList (w : Wrapping) :
    w.toList.flatten = w.full.reverse.flatten ++ w.current := by
  simp [toList]

theorem flatten_newLine (w : Wrapping) : w.newLine.toList.flatten = w.toList.flatten := by
  simp [flatten_toList, newLine]

theorem flatten_addChars (limit : Nat) (w : Wrapping) (word : List Char) :
    (word.foldl (addChar limit) w).toList.flatten = w.toList.flatten ++ word := by
  induction word generalizing w with
  | nil => simp
  | cons c word ih =>
    have hadd : (w.addChar limit c).toList.flatten = w.toList.flatten ++ [c] := by
      unfold addChar
      dsimp only
      split <;> simp [flatten_toList, newLine]
    rw [List.foldl_cons, ih, hadd, List.append_assoc]
    rfl

/-- The characters of the lines are those of the words and spaces. -/
theorem mem_addWord {c : Char} (limit : Nat) (w : Wrapping) (word : List Char)
    (h : c ∈ (w.addWord limit word).toList.flatten) :
    c ∈ w.toList.flatten ∨ c ∈ word ∨ c = ' ' := by
  unfold addWord at h
  dsimp only at h
  split at h
  · simp only [flatten_toList, List.mem_append, List.mem_cons] at h ⊢
    grind
  · have hbefore : (if 0 < w.used then w.newLine else w).toList.flatten = w.toList.flatten := by
      split
      · exact flatten_newLine w
      · rfl
    rw [← hbefore]
    split at h
    · simp only [flatten_toList, List.mem_append] at h ⊢
      grind
    · rw [flatten_addChars, List.mem_append] at h
      exact h.imp id .inl

end Wrapping

/-! ## Word after word -/

/-- The lines after some words. -/
def filled (limit : Nat) (ws : List (List Char)) : Wrapping :=
  ws.foldl (Wrapping.addWord limit) .start

theorem filled_concat (limit : Nat) (ws : List (List Char)) (word : List Char) :
    filled limit (ws ++ [word]) = (filled limit ws).addWord limit word := by
  simp [filled, List.foldl_append]

theorem wrapLine_eq (limit : Nat) (line : List Char) :
    wrapLine limit line = (filled limit (words line)).toList := rfl

theorem mem_filled {c : Char} (h : c ∈ (filled limit ws).toList.flatten) :
    c ∈ ws.flatten ∨ c = ' ' := by
  induction ws using List.reverseRecOn with
  | nil => simp [filled, Wrapping.toList, Wrapping.start] at h
  | append_singleton ws word ih =>
    rw [filled_concat] at h
    rw [List.flatten_concat, List.mem_append]
    rcases Wrapping.mem_addWord limit _ word h with h | h | h
    · exact (ih h).imp .inl id
    · exact .inl (.inr h)
    · exact .inr h

/-- Lines that show all the words and nothing else. -/
theorem ink_filled (h : ∀ word ∈ ws, word ≠ [] ∧ Solid word) :
    ink (filled limit ws).written = ws.flatten := by
  induction ws using List.reverseRecOn with
  | nil => rfl
  | append_singleton ws word ih =>
    rw [List.forall_mem_append, List.forall_mem_singleton] at h
    obtain ⟨hws, hne, hsolid⟩ := h
    obtain ⟨b, hb, hcase⟩ := (filled limit ws).written_addWord limit hsolid
    rw [filled_concat, List.flatten_concat, ← ih hws]
    split at hcase
    · rw [hcase.2, ink_append, hb.ink]
    · obtain ⟨sep, hsep, hwritten⟩ := hcase
      rw [hwritten, ink_append, ink_cons_of_blank (isBlank_of_sep hsep), hb.ink]

theorem forall_words (line : List Char) : ∀ word ∈ words line, word ≠ [] ∧ Solid word :=
  fun _ h => ⟨(mem_words h).1, (mem_words h).2.1⟩

/-- The lines of one line of text show what it shows. -/
theorem ink_wrapLine (limit : Nat) (line : List Char) :
    (wrapLine limit line).flatMap ink = ink line := by
  rw [wrapLine_eq, ← Wrapping.ink_written, ink_filled (forall_words line), flatten_words]

theorem wrapLine_ne_nil (limit : Nat) (line : List Char) : wrapLine limit line ≠ [] := by
  simp [wrapLine_eq, Wrapping.toList]

/-- Wrapping loses nothing, writes nothing twice and keeps the order: each line of a text becomes
lines that show together what it shows. -/
theorem wrapping_keeps_ink (text : String) (limit : Option Int) :
    ∃ groups : List (List String), groups.flatten = wrap text limit ∧
      List.Forall₂ (fun group line => group ≠ [] ∧ (group.flatMap fun l => ink l.toList) = ink line)
        groups (lines (strip text.toList)) := by
  have hown (own : List (List Char)) (f : List Char → List (List Char))
      (hne : ∀ l, f l ≠ []) (hink : ∀ l, (f l).flatMap ink = ink l) :
      ∃ groups : List (List String), groups.flatten = (own.flatMap f).map String.ofList ∧
        List.Forall₂ (fun group line => group ≠ [] ∧
          (group.flatMap fun l => ink l.toList) = ink line) groups own := by
    refine ⟨own.map fun l => (f l).map String.ofList, ?_, ?_⟩
    · simp [List.flatMap, List.map_flatten, Function.comp_def]
    · rw [List.forall₂_map_left_iff, List.forall₂_same]
      intro l _
      refine ⟨by simpa using hne l, ?_⟩
      rw [List.flatMap_map, ← hink l]
      simp
  have hself := hown (lines (strip text.toList)) (fun l => [l]) (by simp) (by simp)
  rw [List.flatMap_singleton'] at hself
  unfold wrap
  dsimp only
  cases limit with
  | none => exact hself
  | some n =>
    dsimp only
    split
    · exact hown _ _ (wrapLine_ne_nil _) (ink_wrapLine _)
    · exact hself

end RegionLayout.Text
