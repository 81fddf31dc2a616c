-- How wide wrapped lines are. The cells that count as used bound the width of the line being filled,
-- up to the characters that are miscounted: a long word is broken by what its characters count one
-- by one, and so a line can be wider than the limit by one cell for each miscounted character.
import RegionLayout.Proofs.Text.Filling
import RegionLayout.Proofs.Text.Widths

namespace RegionLayout.Text

variable {limit : Nat} {w : Wrapping} {line word : List Char} {ws : List (List Char)}

/-! ## Lines that fit -/

/-- The line ends with a character too wide for any line, and has nothing with a width before it. -/
def EndsTooWide (limit : Nat) (line : List Char) : Prop :=
  ∃ before c, line = before ++ [c] ∧ limit < lone c ∧ Idle before ∧
    total line ≤ lone c + miscounted line

/-- The line is within the limit but for what is miscounted in it. -/
def Fits (limit : Nat) (line : List Char) : Prop :=
  total line ≤ limit + miscounted line ∨ EndsTooWide limit line

/-- What holds of the lines between two words. -/
structure Kept (limit : Nat) (w : Wrapping) : Prop where
  full : ∀ line ∈ w.full, Fits limit line
  width : total w.current ≤ w.used + miscounted w.current
  idle : w.used = 0 → Idle w.current
  used : w.used ≤ limit ∨ EndsTooWide limit w.current

/-- What holds while a long word is broken: behind what counts nothing stand characters that are
counted one by one. -/
structure Breaking (limit : Nat) (w : Wrapping) : Prop where
  full : ∀ line ∈ w.full, Fits limit line
  current : ∃ before piece, w.current = before ++ piece ∧ Idle before ∧ counted piece = w.used ∧
    (w.used ≤ limit ∨ ∃ front c, piece = front ++ [c] ∧ counted front = 0 ∧ limit < lone c)

theorem Kept.fits (h : Kept limit w) : Fits limit w.current := by
  refine h.used.imp (fun hused => ?_) id
  have := h.width
  omega

theorem Breaking.kept (h : Breaking limit w) : Kept limit w := by
  obtain ⟨before, piece, hcurrent, hbefore, hcounted, hused⟩ := h.current
  have hwidth : total w.current ≤ w.used + miscounted w.current := by
    have hpiece := total_le piece
    have hboth := hbefore piece
    have := miscounted_append_le before piece
    rw [hcurrent]
    omega
  refine ⟨h.full, hwidth, fun hzero => ?_, hused.imp id ?_⟩
  · rw [hcurrent]
    exact hbefore.append (idle_of_counted (hcounted.trans hzero))
  · rintro ⟨front, c, rfl, hfront, hc⟩
    rw [counted_append, hfront] at hcounted
    refine ⟨before ++ front, c, by rw [hcurrent, List.append_assoc], hc,
      hbefore.append (idle_of_counted hfront), ?_⟩
    simp at hcounted
    omega

/-! ## Adding a word -/

theorem Kept.newLine (h : Kept limit w) : Kept limit w.newLine :=
  ⟨List.forall_mem_cons.2 ⟨h.fits, h.full⟩, Int.le_refl 0, fun _ => idle_nil, .inl (Nat.zero_le _)⟩

theorem Kept.breaking (h : Kept limit w) (hused : w.used = 0) : Breaking limit w :=
  ⟨h.full, w.current, [], by simp, h.idle hused, by simp [hused], .inl (by omega)⟩

theorem Breaking.addChar (h : Breaking limit w) (c : Char) :
    Breaking limit (w.addChar limit c) := by
  unfold Wrapping.addChar
  dsimp only
  rw [show (charWidth? c).getD 0 = lone c from rfl]
  split
  · refine ⟨h.kept.newLine.full, [], [c], by simp [Wrapping.newLine], idle_nil,
      by simp [Wrapping.newLine], ?_⟩
    by_cases hc : lone c ≤ limit
    · exact .inl (by simpa [Wrapping.newLine] using hc)
    · exact .inr ⟨[], c, rfl, rfl, by omega⟩
  · rename_i hfits
    obtain ⟨before, piece, hcurrent, hbefore, hcounted, -⟩ := h.current
    refine ⟨h.full, before, piece ++ [c], by simp [hcurrent], hbefore, by simp [hcounted], ?_⟩
    -- The character fits, or nothing counts as used and it is put on the line all the same.
    by_cases hc : w.used + lone c ≤ limit
    · exact .inl hc
    · have hzero : w.used = 0 := by
        simp at hfits
        omega
      exact .inr ⟨piece, c, rfl, hcounted.trans hzero, by omega⟩

theorem Breaking.addChars (h : Breaking limit w) (word : List Char) :
    Breaking limit (word.foldl (Wrapping.addChar limit) w) := by
  induction word generalizing w with
  | nil => exact h
  | cons c word ih => exact ih (h.addChar c)

theorem Kept.addWord (h : Kept limit w) (hword : ∀ c ∈ word, IsPlain c) :
    Kept limit (w.addWord limit word) := by
  have hwidth := displayWidth_eq hword
  unfold Wrapping.addWord
  dsimp only
  split
  · rename_i hfits
    simp only [Bool.and_eq_true, decide_eq_true_eq] at hfits
    have hspace := total_append_space w.current word
    have hmis := miscounted_append_le w.current (' ' :: word)
    have hmis' : miscounted word ≤ miscounted (' ' :: word) := Nat.le_add_left _ _
    have := h.width
    exact ⟨h.full, by dsimp only; omega, fun hzero => by dsimp only at hzero; omega, .inl hfits.2⟩
  · -- Either way the word goes to a line on which nothing counts as used.
    have hunused : ∃ v, v = (if 0 < w.used then w.newLine else w) ∧ Kept limit v ∧ v.used = 0 := by
      refine ⟨_, rfl, ?_⟩
      split
      · exact ⟨h.newLine, rfl⟩
      · exact ⟨h, by omega⟩
    obtain ⟨v, hv, hkept, hzero⟩ := hunused
    rw [← hv]
    split
    · have hidle := hkept.idle hzero
      have hboth := hidle word
      have hmis := miscounted_append_le v.current word
      refine ⟨hkept.full, by dsimp only; omega, fun hnone => ?_, .inl ‹_›⟩
      dsimp only at hnone
      exact hidle.append (idle_of_total (by omega))
    · exact ((hkept.breaking hzero).addChars word).kept

theorem kept_start : Kept limit .start :=
  ⟨fun _ h => absurd h List.not_mem_nil, Int.le_refl 0, fun _ => idle_nil, .inl (Nat.zero_le _)⟩

theorem kept_filled (h : ∀ word ∈ ws, ∀ c ∈ word, IsPlain c) : Kept limit (filled limit ws) := by
  induction ws using List.reverseRecOn with
  | nil => exact kept_start
  | append_singleton ws word ih =>
    rw [List.forall_mem_append, List.forall_mem_singleton] at h
    rw [filled_concat]
    exact (ih h.1).addWord h.2

theorem fits_of_mem_wrapLine {text : List Char} (h : ∀ c ∈ text, IsPlain c)
    (hline : line ∈ wrapLine limit text) : Fits limit line := by
  have hkept : Kept limit (filled limit (words text)) :=
    kept_filled fun word hword c hc => h c ((mem_words hword).2.2 c hc)
  rw [wrapLine_eq, Wrapping.toList, List.mem_reverse, List.mem_cons] at hline
  rcases hline with rfl | hfull
  · exact hkept.fits
  · exact hkept.full line hfull

/-! ## Words that are not broken -/

theorem addChars_of_counted (h : w.used + counted word ≤ limit) :
    word.foldl (Wrapping.addChar limit) w =
      { w with current := w.current ++ word, used := w.used + counted word } := by
  induction word generalizing w with
  | nil => simp
  | cons c word ih =>
    rw [counted_cons] at h
    have hadd : w.addChar limit c =
        { w with current := w.current ++ [c], used := w.used + lone c } := by
      unfold Wrapping.addChar
      dsimp only
      rw [show (charWidth? c).getD 0 = lone c from rfl]
      have : ¬ limit < w.used + lone c := by omega
      simp [this]
    rw [List.foldl_cons, hadd, ih (by dsimp only; omega)]
    simp [Nat.add_assoc]

/-- A word of which the characters one by one are within the limit stays on one line, however wide
it is as a whole. -/
theorem wrapLine_of_counted (h : Solid word) (hne : word ≠ []) (hcounted : counted word ≤ limit) :
    wrapLine limit word = [word] := by
  have hbroken : word.foldl (Wrapping.addChar limit) .start = ⟨[], word, counted word⟩ := by
    rw [addChars_of_counted (by simpa [Wrapping.start] using hcounted)]
    simp [Wrapping.start]
  have hunused : ¬ 0 < Wrapping.start.used := Nat.lt_irrefl 0
  rw [wrapLine_eq, h.words_eq hne]
  change (Wrapping.start.addWord limit word).toList = [word]
  unfold Wrapping.addWord
  simp only [hunused, decide_false, Bool.false_and, Bool.false_eq_true, if_false, hbroken]
  split
  · rfl
  · rfl

/-! ## Wrapped texts -/

/-- The lines are made of the characters of the text and of spaces. -/
theorem forall_mem_wrapLine {p : Char → Prop} {text : List Char} (h : ∀ c ∈ text, p c)
    (hspace : p ' ') (hline : line ∈ wrapLine limit text) : ∀ c ∈ line, p c := by
  intro c hc
  rcases mem_filled (List.mem_flatten_of_mem hline hc) with hmem | rfl
  · rw [flatten_words] at hmem
    exact h c (List.mem_of_mem_filter hmem)
  · exact hspace

theorem miscounted_eq_zero (h : ∀ c ∈ line, isControl c = false ∧ c ≠ pictureSelector) :
    miscounted line = 0 := by
  induction line with
  | nil => rfl
  | cons c line ih =>
    obtain ⟨⟨hcontrol, -⟩, hline⟩ := List.forall_mem_cons.1 h
    have hnext : (line.head? == some pictureSelector) = false := by
      rw [beq_eq_false_iff_ne]
      exact fun hhead => (hline _ (List.mem_of_mem_head? hhead)).2 rfl
    rw [miscounted, ih hline, isMiscounted, hcontrol, hnext, Bool.and_false]
    rfl

/-- Lines without delete characters and picture selectors are within the limit if all their
characters are. -/
theorem displayWidth_le_of_ordinary {text : List Char} (hplain : ∀ c ∈ text, IsPlain c)
    (hordinary : ∀ c ∈ text, isControl c = false ∧ c ≠ pictureSelector)
    (hlone : ∀ c ∈ text, lone c ≤ limit) (hlimit : 0 < limit)
    (hline : line ∈ wrapLine limit text) : displayWidth line ≤ limit := by
  have hwidth := displayWidth_eq (forall_mem_wrapLine hplain isPlain_space hline)
  have hmis := miscounted_eq_zero (forall_mem_wrapLine hordinary (by decide) hline)
  rcases fits_of_mem_wrapLine hplain hline with hfits | ⟨before, c, rfl, hc, -⟩
  · omega
  · have hspace : lone ' ' = 1 := by decide +kernel
    have := forall_mem_wrapLine hlone (by omega) hline c (by simp)
    omega

/-! ## Wider than the limit -/

/-- A run of letters and, behind it, of delete characters. -/
def lettersAndDeletes (n k : Nat) : List Char := List.replicate n 'a' ++ List.replicate k '\x7F'

theorem counted_lettersAndDeletes (n k : Nat) : counted (lettersAndDeletes n k) = n := by
  have hletter : lone 'a' = 1 := by decide +kernel
  have hdelete : lone '\x7F' = 0 := by decide
  simp [lettersAndDeletes, counted_replicate, hletter, hdelete]

theorem miscounted_lettersAndDeletes (n k : Nat) : miscounted (lettersAndDeletes n k) = k := by
  have hletter (next : Option Char) : isMiscounted 'a' next = false := by
    have hcontrol : isControl 'a' = false := by decide
    have hbase : presentationBase.holds 'a' = false := by decide
    simp [isMiscounted, hcontrol, hbase]
  have hdelete (next : Option Char) : isMiscounted '\x7F' next = true := by
    have hcontrol : isControl '\x7F' = true := by decide
    simp [isMiscounted, hcontrol]
  have hdeletes : miscounted (List.replicate k '\x7F') = k := by
    induction k with
    | zero => rfl
    | succ k ih =>
      rw [List.replicate_succ, miscounted, hdelete, ih, Bool.toNat_true, Nat.add_comm]
  induction n with
  | zero => exact hdeletes
  | succ n ih =>
    rw [lettersAndDeletes, List.replicate_succ, List.cons_append, miscounted, hletter,
      Bool.toNat_false, Nat.zero_add]
    exact ih

theorem total_lettersAndDeletes (n k : Nat) : total (lettersAndDeletes n k) = n + k := by
  have hletter := widthBefore_of_narrow (c := 'a') (by decide) (by decide) (by decide)
  have hdelete := widthBefore_of_narrow (c := '\x7F') (by decide) (by decide) (by decide)
  have hdeletes : total (List.replicate k '\x7F') = k := by
    induction k with
    | zero => rfl
    | succ k ih =>
      rw [List.replicate_succ, total_cons, hdelete, ih]
      omega
  induction n with
  | zero => simpa [lettersAndDeletes] using hdeletes
  | succ n ih =>
    unfold lettersAndDeletes at ih ⊢
    rw [List.replicate_succ, List.cons_append, total_cons, hletter]
    omega

theorem mem_lettersAndDeletes {n k : Nat} {c : Char} (h : c ∈ lettersAndDeletes n k) :
    c = 'a' ∨ c = '\x7F' :=
  (List.mem_append.1 h).imp List.eq_of_mem_replicate List.eq_of_mem_replicate

theorem plain_lettersAndDeletes (n k : Nat) : ∀ c ∈ lettersAndDeletes n k, IsPlain c := by
  intro c hc
  rcases mem_lettersAndDeletes hc with rfl | rfl <;> decide

/-- A text of which the characters one by one fill the limit, and that is wider than it by any
amount. -/
theorem wrap_lettersAndDeletes {limit : Int} (hlimit : 0 < limit) (k : Nat) :
    wrap (String.ofList (lettersAndDeletes limit.toNat k)) (some limit) =
      [String.ofList (lettersAndDeletes limit.toNat k)] := by
  have hsolid : Solid (lettersAndDeletes limit.toNat k) := by
    intro c hc
    rcases mem_lettersAndDeletes hc with rfl | rfl <;> decide
  have hne : lettersAndDeletes limit.toNat k ≠ [] := by
    simp [lettersAndDeletes]
    omega
  unfold wrap
  dsimp only
  rw [if_pos hlimit, String.toList_ofList, strip_of_plain (plain_lettersAndDeletes _ k),
    hsolid.lines_eq hne, List.flatMap_singleton,
    wrapLine_of_counted hsolid hne (Nat.le_of_eq (counted_lettersAndDeletes _ _))]
  rfl

/-! ## How wide the lines are -/

/-- The lines are within the limit but for the characters that are miscounted, of which each can
make a line wider by a cell; and a character wider than the limit stands at the end of its line,
behind nothing that takes a cell. -/
theorem lines_are_within_limit (limit : Int) (hlimit : 0 < limit) :
    (∀ text : String, ∀ line ∈ wrap text (some limit),
      (displayWidth line.toList : Int) ≤ limit + miscounted line.toList ∨
        ∃ before c, line.toList = before ++ [c] ∧ limit < lone c ∧
          displayWidth before ≤ miscounted before ∧
          displayWidth line.toList ≤ lone c + miscounted line.toList) ∧
      ∀ k : Nat, ∃ line, wrap line (some limit) = [line] ∧ miscounted line.toList = k ∧
        (displayWidth line.toList : Int) = limit + k := by
  refine ⟨fun text line hline => ?_, fun k => ?_⟩
  · unfold wrap at hline
    dsimp only at hline
    rw [if_pos hlimit] at hline
    obtain ⟨l, hl, rfl⟩ := List.mem_map.1 hline
    obtain ⟨own, hown, hl⟩ := List.mem_flatMap.1 hl
    have hplain : ∀ c ∈ own, IsPlain c := fun c hc => plain_of_mem_lines hown hc
    have hplain' := forall_mem_wrapLine hplain isPlain_space hl
    have hwidth := displayWidth_eq hplain'
    rw [String.toList_ofList]
    rcases fits_of_mem_wrapLine hplain hl with hfits | ⟨before, c, rfl, hc, hidle, hle⟩
    · exact .inl (by omega)
    · have hbefore := displayWidth_eq fun d hd => hplain' d (List.mem_append_left _ hd)
      have := hidle.total_le
      exact .inr ⟨before, c, rfl, by omega, by omega, by omega⟩
  · refine ⟨_, wrap_lettersAndDeletes hlimit k, ?_, ?_⟩
    · rw [String.toList_ofList, miscounted_lettersAndDeletes]
    · rw [String.toList_ofList, displayWidth_eq (plain_lettersAndDeletes _ k),
        total_lettersAndDeletes]
      omega

/-- A heart that is made a picture is wider by a cell than it was counted. -/
theorem heart_is_within_limit_but_for_selector : 0 < (3 : Int) ∧
    wrap "ab\u2764\uFE0F字" (some 3) = ["ab\u2764\uFE0F", "字"] ∧
    miscounted "ab\u2764\uFE0F".toList = 1 ∧ displayWidth "ab\u2764\uFE0F".toList ≤ 3 + 1 := by
  obtain ⟨hwithin, -⟩ := lines_are_within_limit 3 (by decide)
  have hwrap : wrap "ab\u2764\uFE0F字" (some 3) = ["ab\u2764\uFE0F", "字"] := by decide +kernel
  have hmis : miscounted "ab\u2764\uFE0F".toList = 1 := by decide +kernel
  refine ⟨by decide, hwrap, hmis, ?_⟩
  rcases hwithin "ab\u2764\uFE0F字" "ab\u2764\uFE0F" (by simp [hwrap]) with
    hfits | ⟨before, c, -, hc, -⟩
  · omega
  · have := lone_le c
    omega

/-- Three such hearts stay on one line of twice the limit, though no character is wider than it. -/
theorem hearts_are_wider_than_limit :
    wrap "\u2764\uFE0F\u2764\uFE0F\u2764\uFE0F" (some 3) =
        ["\u2764\uFE0F\u2764\uFE0F\u2764\uFE0F"] ∧
      displayWidth "\u2764\uFE0F\u2764\uFE0F\u2764\uFE0F".toList = 6 ∧
      ∀ c ∈ "\u2764\uFE0F\u2764\uFE0F\u2764\uFE0F".toList, lone c ≤ 3 :=
  ⟨by decide +kernel, by decide +kernel, fun c _ => lone_le c⟩

end RegionLayout.Text
