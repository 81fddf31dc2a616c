-- What a character adds to a text, held against what it counts by itself. Letters and pictures that
-- are drawn together give cells back, never more than they were counted before; so texts have no
-- negative width. And a text is wider than its characters one by one only where a control character
-- stands, or a selector makes a picture of a narrow character.
import Mathlib.Data.List.Chain
import Mathlib.Data.List.TakeWhile
import RegionLayout.Text.Wrap

namespace RegionLayout.Text

/-! ## Tables -/

namespace Ranges

variable {rs ss : Ranges} {c : Char}

/-- Whether two lists, each from the lowest range up, have no number in common. -/
def apart : Ranges → Ranges → Bool
  | [], _ => true
  | r :: rs, ss =>
    match ss.dropWhile fun s => s.2 < r.1 with
    | [] => true
    | s :: ss => r.2 < s.1 && apart rs (s :: ss)

/-- The ranges are given from the lowest up. -/
def Rising (rs : Ranges) : Prop := rs.IsChain fun r s => r.1 ≤ s.1

instance (rs : Ranges) : Decidable rs.Rising := inferInstanceAs (Decidable (List.IsChain _ _))

theorem holds_iff : rs.holds c = true ↔ ∃ r ∈ rs, r.1 ≤ c.toNat ∧ c.toNat ≤ r.2 := by
  simp [holds]

theorem Rising.le {r : Nat × Nat} (h : Rising (r :: rs)) {s : Nat × Nat} (hs : s ∈ rs) :
    r.1 ≤ s.1 := by
  have : IsTrans (Nat × Nat) fun r s => r.1 ≤ s.1 := ⟨fun _ _ _ h h' => Nat.le_trans h h'⟩
  exact List.rel_of_pairwise_cons (List.isChain_iff_pairwise.1 h) hs

/-- A character of one list is in no list apart from it. -/
theorem holds_eq_false (hr : rs.Rising) (hs : ss.Rising) (h : apart rs ss = true)
    (hc : rs.holds c = true) : ss.holds c = false := by
  induction rs generalizing ss with
  | nil => simp [holds] at hc
  | cons r rs ih =>
    rw [Bool.eq_false_iff]
    intro hboth
    obtain ⟨q, hq, hlow, hhigh⟩ := holds_iff.1 hc
    obtain ⟨s, hmem, hs₁, hs₂⟩ := holds_iff.1 hboth
    have hle : r.1 ≤ c.toNat := by
      rcases List.mem_cons.1 hq with rfl | hq
      · exact hlow
      · exact Nat.le_trans (hr.le hq) hlow
    -- The ranges that are passed over end before `r`, so the one with `c` is among the others.
    have hkept : s ∈ ss.dropWhile fun s => s.2 < r.1 := by
      rw [← List.takeWhile_append_dropWhile (p := fun s : Nat × Nat => s.2 < r.1) (l := ss)] at hmem
      refine (List.mem_append.1 hmem).resolve_left fun htaken => ?_
      have := List.mem_takeWhile_imp htaken
      simp at this
      omega
    have hrest : Rising (ss.dropWhile fun s => s.2 < r.1) :=
      List.IsChain.suffix hs (List.dropWhile_suffix _)
    unfold apart at h
    split at h
    · rename_i hnil
      rw [hnil] at hkept
      cases hkept
    · rename_i first others hcons
      rw [hcons] at hkept hrest
      obtain ⟨hlt, hapart⟩ := Bool.and_eq_true_iff.1 h
      have hfirst : first.1 ≤ s.1 := by
        rcases List.mem_cons.1 hkept with rfl | hkept
        · exact Nat.le_refl _
        · exact hrest.le hkept
      rcases List.mem_cons.1 hq with rfl | hq
      · simp at hlt
        omega
      · have hlater := ih hr.tail hrest hapart (holds_iff.2 ⟨q, hq, hlow, hhigh⟩)
        rw [Bool.eq_false_iff] at hlater
        exact hlater (holds_iff.2 ⟨s, hkept, hs₁, hs₂⟩)

end Ranges

theorem rising_zeroWidth : zeroWidth.Rising := by decide +kernel

/-- Tables of characters that take a cell. -/
def shown : List Ranges :=
  [presentationBase, emojiPresentation, regionalIndicator, emojiModifier, arabicAlef,
    khmerSubscript, tifinaghConsonant, [(0, 0xA0)], [(0x5DC, 0x5DC)], [(0x1A10, 0x1A10)],
    [(0x2D7F, 0x2D7F)], [(0xA4FC, 0xA4FD)], [(0x10C03, 0x10C03)]]

theorem shown_apart : ∀ t ∈ shown, t.Rising ∧ t.apart zeroWidth = true := by decide +kernel

/-- A character of such a table takes a cell. -/
theorem cells_pos {t : Ranges} (ht : t ∈ shown) {c : Char} (hc : t.holds c = true) :
    0 < cells c := by
  obtain ⟨hrising, hapart⟩ := shown_apart t ht
  unfold cells
  rw [Ranges.holds_eq_false hrising rising_zeroWidth hapart hc]
  split
  · contradiction
  · split
    · decide
    · split <;> decide

theorem cells_pos_of_toNat {c : Char} {n : Nat} (hn : [(n, n)] ∈ shown) (hc : c.toNat = n) :
    0 < cells c :=
  cells_pos hn (by simp [Ranges.holds, hc])

/-! ## What is owed -/

namespace Neighbour

/-- The cells that the next characters can give back. -/
def debt : Neighbour → Int
  | .ligature .subscript | .ligature .joinedConsonant => 1
  | .emoji .joinedIndicator | .emoji (.joinedIndicators false) => 1
  | _ => 0

/-- The cells given back so far that the next character can take again. -/
def credit : Neighbour → Int
  | .emoji (.joinedIndicators true) => 2
  | _ => 0

theorem debt_nonneg (n : Neighbour) : 0 ≤ n.debt := by
  unfold debt
  split <;> decide

theorem credit_nonneg (n : Neighbour) : 0 ≤ n.credit := by
  unfold credit
  split <;> decide

/-- What a character that continues a ligature or a picture adds. -/
structure Continues (c : Char) (n : Neighbour) (k : Int) (left : Neighbour) : Prop where
  settled : left.debt ≤ k + n.debt
  counted : k + left.credit ≤ cells c + n.credit
  idle : cells c = 0 → k ≤ 0

variable {c : Char} {k : Int} {n left : Neighbour}

/-- A character that adds nothing, and owes nothing new. -/
theorem Continues.free (hdebt : left.debt ≤ n.debt) (hcredit : left.credit = 0) :
    Continues c n 0 left := by
  have := n.credit_nonneg
  exact ⟨by omega, by omega, fun _ => Int.le_refl 0⟩

/-- A character that gives a cell back. -/
theorem Continues.back (hdebt : left.debt + 1 ≤ n.debt) (hcredit : left.credit = 0) :
    Continues c n (-1) left := by
  have := n.credit_nonneg
  exact ⟨by omega, by omega, fun _ => by decide⟩

/-- A character that takes a cell by itself. -/
theorem Continues.shown (hc : 0 < cells c) (hdebt : left.debt ≤ k + n.debt)
    (hcredit : k + left.credit ≤ 1 + n.credit) : Continues c n k left :=
  ⟨hdebt, by omega, fun h => absurd h (Nat.ne_of_gt hc)⟩

theorem continues_ligature {l : Ligature} {left : Option Ligature}
    (h : l.extend? c = some (k, left)) :
    Continues c (.ligature l) k ((left.map Neighbour.ligature).getD .plain) := by
  have hnone : Continues c (.ligature l) 0 .plain := .free (debt_nonneg _) rfl
  unfold Ligature.extend? at h
  split at h
  · split at h
    · cases h
      exact hnone
    · split at h
      · cases h
        exact .free (debt_nonneg _) rfl
      · cases h
  · split at h
    · cases h
      refine .free ?_ rfl
      cases l <;> exact Int.le_refl _
    · split at h
      · cases h
        exact .free (Int.le_refl _) rfl
      · split at h
        · split at h <;> cases h
          exact hnone
        · split at h <;> cases h
          exact .free (debt_nonneg _) rfl
        · split at h <;> cases h
          exact hnone
        · split at h
          · rename_i hsign
            cases h
            have hc := cells_pos_of_toNat (by simp [shown]) hsign
            exact .shown hc (Int.le_refl 1) (Int.le_refl 1)
          · split at h <;> cases h
            exact hnone
        · split at h <;> cases h
          exact .back (by decide) rfl
        · split at h <;> cases h
          exact hnone
        · split at h <;> cases h
          exact hnone
        · split at h <;> cases h
          exact .back (by decide) rfl
        · cases h

theorem ofLast?_indicator (h : Emoji.ofLast? c = some .indicator) :
    regionalIndicator.holds c = true := by
  unfold Emoji.ofLast? at h
  split at h
  · cases h
  · split at h
    · assumption
    · split at h <;> cases h

theorem ofLast?_free {e : Emoji} (h : Emoji.ofLast? c = some e) :
    (Neighbour.emoji e).debt = 0 ∧ (Neighbour.emoji e).credit = 0 := by
  unfold Emoji.ofLast? at h
  split at h
  · cases h
    exact ⟨rfl, rfl⟩
  · split at h
    · cases h
      exact ⟨rfl, rfl⟩
    · split at h <;> cases h
      exact ⟨rfl, rfl⟩

theorem withTag?_free {e e' : Emoji} (h : e.withTag? c = some e') :
    (Neighbour.emoji e').debt = 0 ∧ (Neighbour.emoji e').credit = 0 := by
  unfold Emoji.withTag? at h
  split at h
  · split at h
    · cases h
      exact ⟨rfl, rfl⟩
    · split at h <;> cases h
      exact ⟨rfl, rfl⟩
  · split at h <;> cases h
    exact ⟨rfl, rfl⟩
  · cases h

theorem continues_emoji {e e' : Emoji} (h : e.extend? c = some (k, e')) :
    Continues c (.emoji e) k (.emoji e') := by
  have hshown (hri : regionalIndicator.holds c = true) : 0 < cells c :=
    cells_pos (by simp [shown]) hri
  unfold Emoji.extend? at h
  split at h
  · split at h <;> cases h
    exact .free (debt_nonneg _) rfl
  · split at h
    · cases h
      exact .free (debt_nonneg _) rfl
    · split at h
      · split at h <;> cases h
        exact .free (debt_nonneg _) rfl
      · split at h <;> cases h
        exact .shown (hshown ‹_›) (by decide) (by decide)
      · split at h <;> cases h
        exact .shown (hshown ‹_›) (by decide) (by decide)
      · split at h
        · cases h
          exact .free (debt_nonneg _) rfl
        · split at h
          · cases h
            exact .free (debt_nonneg _) rfl
          · split at h
            · rename_i hlast
              cases h
              exact .shown (hshown (ofLast?_indicator hlast)) (by decide) (by decide)
            · obtain ⟨e'', hlast, hpair⟩ := Option.map_eq_some_iff.1 h
              cases hpair
              obtain ⟨hdebt, hcredit⟩ := ofLast?_free hlast
              exact .free (hdebt ▸ debt_nonneg _) hcredit
      · split at h <;> cases h
        exact .shown (hshown ‹_›) (by decide) (by decide)
      · split at h <;> cases h
        exact .shown (hshown ‹_›) (by decide) (by decide)
      · split at h <;> cases h
        exact .shown (hshown ‹_›) (by decide) (by decide)
      · obtain ⟨e'', htag, hpair⟩ := Option.map_eq_some_iff.1 h
        cases hpair
        obtain ⟨hdebt, hcredit⟩ := withTag?_free htag
        exact .free (hdebt ▸ debt_nonneg _) hcredit

theorem continues (h : n.extend? c = some (k, left)) : Continues c n k left := by
  cases n with
  | plain => cases h
  | ligature l =>
    obtain ⟨⟨k, left⟩, hl, hpair⟩ := Option.map_eq_some_iff.1 h
    cases hpair
    exact continues_ligature hl
  | emoji e =>
    obtain ⟨⟨k, left⟩, he, hpair⟩ := Option.map_eq_some_iff.1 h
    cases hpair
    exact continues_emoji he

theorem cells_pos_of_ligature {l : Ligature} (h : Ligature.ofLast? c = some l) : 0 < cells c := by
  unfold Ligature.ofLast? at h
  repeat' split at h
  · exact cells_pos (by simp [shown]) ‹arabicAlef.holds c = true›
  · exact cells_pos_of_toNat (by simp [shown]) ‹c.toNat = 0x5DC›
  · exact cells_pos (by simp [shown]) ‹khmerSubscript.holds c = true›
  · exact cells_pos_of_toNat (by simp [shown]) ‹c.toNat = 0x1A10›
  · exact cells_pos (by simp [shown]) ‹tifinaghConsonant.holds c = true›
  · rename_i htone
    refine cells_pos (t := [(0xA4FC, 0xA4FD)]) (by simp [shown]) ?_
    simp [Ranges.holds] at htone ⊢
    omega
  · exact cells_pos_of_toNat (by simp [shown]) ‹c.toNat = 0x10C03›
  · cases h

theorem cells_pos_of_emoji {e : Emoji} (h : Emoji.ofLast? c = some e) : 0 < cells c := by
  unfold Emoji.ofLast? at h
  repeat' split at h
  · exact cells_pos (by simp [shown]) ‹emojiModifier.holds c = true›
  · exact cells_pos (by simp [shown]) ‹regionalIndicator.holds c = true›
  · exact cells_pos (by simp [shown]) ‹emojiPresentation.holds c = true›
  · cases h

/-- What starts a ligature or a picture takes a cell. -/
theorem ofChar_eq_plain (h : cells c = 0) : ofChar c = .plain := by
  unfold ofChar
  split
  · exact absurd h (Nat.ne_of_gt (cells_pos_of_ligature ‹_›))
  · cases he : Emoji.ofLast? c with
    | none => rfl
    | some e => exact absurd h (Nat.ne_of_gt (cells_pos_of_emoji he))

theorem credit_ofChar (c : Char) : (ofChar c).credit = 0 := by
  unfold ofChar
  split
  · rfl
  · cases he : Emoji.ofLast? c with
    | none => rfl
    | some e => exact (ofLast?_free he).2

/-- Of all characters that start something only a letter that can be a subscript owes a cell. -/
theorem ofChar_of_debt (h : (ofChar c).debt ≠ 0) :
    khmerSubscript.holds c = true ∧ ofChar c = .ligature .subscript := by
  unfold ofChar at h ⊢
  split at h
  · rename_i l hl
    unfold Ligature.ofLast? at hl
    repeat' split at hl
    all_goals cases hl
    all_goals first | exact absurd rfl h | exact ⟨‹_›, rfl⟩
  · cases he : Emoji.ofLast? c with
    | none =>
      rw [he] at h
      exact absurd rfl h
    | some e =>
      rw [he] at h
      exact absurd (ofLast?_free he).1 h

theorem debt_ofChar_le (c : Char) : (ofChar c).debt ≤ cells c := by
  by_cases h : (ofChar c).debt = 0
  · omega
  · obtain ⟨hc, hn⟩ := ofChar_of_debt h
    have := cells_pos (by simp [shown]) hc
    rw [hn]
    change (1 : Int) ≤ cells c
    omega

theorem debt_pastSelector_le (n : Neighbour) : n.pastSelector.debt ≤ n.debt := by
  cases n with
  | plain => exact Int.le_refl _
  | ligature l => exact Int.le_refl _
  | emoji e => exact debt_nonneg _

theorem credit_pastSelector (n : Neighbour) : n.pastSelector.credit = 0 := by
  cases n <;> rfl

theorem free_of_isJoined (h : n.isJoined = true) : n.debt = 0 ∧ n.credit = 0 := by
  unfold isJoined at h
  split at h
  · unfold Emoji.isJoined at h
    split at h
    · exact ⟨rfl, rfl⟩
    · exact ⟨rfl, rfl⟩
    · cases h
  · cases h

end Neighbour

/-! ## One character -/

/-- The cells that a character counts by itself, as a long word is broken. -/
def lone (c : Char) : Nat := (charWidth? c).getD 0

theorem lone_of_not_control {c : Char} (h : isControl c = false) : lone c = cells c := by
  unfold lone charWidth?
  rw [h]
  rfl

/-- No character is wider than three cells. -/
theorem lone_le (c : Char) : lone c ≤ 3 := by
  have hcells : cells c ≤ 3 := by
    unfold cells
    split
    · decide
    · split
      · decide
      · split <;> decide
  cases h : isControl c with
  | true => simp [lone, charWidth?, h]
  | false => rwa [lone_of_not_control h]

/-- The sign that has the character before it shown as a picture. -/
def pictureSelector : Char := Char.ofNat 0xFE0F

/-- Whether a character before another takes a cell more in a text than it counts by itself: a
control character, which has no width by itself, and one of one cell that is made a picture. -/
def isMiscounted (c : Char) (next : Option Char) : Bool :=
  isControl c || (presentationBase.holds c && cells c == 1 && next == some pictureSelector)

theorem not_control_of_base {c : Char} (h : presentationBase.holds c = true) :
    isControl c = false := by
  have hapart : Ranges.apart presentationBase [(0, 0x1F), (0x7F, 0x9F)] = true := by decide
  have hrising := (shown_apart presentationBase List.mem_cons_self).1
  have hc := Ranges.holds_eq_false hrising (by decide) hapart h
  simp [Ranges.holds] at hc
  simp [isControl]
  omega

namespace Context

variable {c : Char} {right : Context}

theorem debt_visible_le (right : Context) : right.visible.debt ≤ right.neighbour.debt := by
  unfold visible
  split
  · exact right.neighbour.debt_pastSelector_le
  · exact Int.le_refl _

theorem credit_visible_le (right : Context) : right.visible.credit ≤ right.neighbour.credit := by
  unfold visible
  split
  · rw [right.neighbour.credit_pastSelector]
    exact right.neighbour.credit_nonneg
  · exact Int.le_refl _

theorem withSelector_bounds (right : Context) (p : Presentation) :
    (right.withSelector p).neighbour.debt ≤ right.neighbour.debt ∧
      (right.withSelector p).neighbour.credit = 0 := by
  unfold withSelector
  dsimp only
  split
  · rename_i h
    obtain ⟨hdebt, hcredit⟩ := Neighbour.free_of_isJoined (Bool.and_eq_true_iff.1 h).2
    exact ⟨hdebt ▸ right.neighbour.debt_nonneg, hcredit⟩
  · exact ⟨Int.le_trans (right.visible.debt_pastSelector_le) right.debt_visible_le,
      right.visible.credit_pastSelector⟩

/-- What a character adds before a text. -/
structure Adds (c : Char) (next : Option Char) (right : Context) (k : Int) (left : Context) :
    Prop where
  settled : left.neighbour.debt ≤ k + right.neighbour.debt
  counted : k + left.neighbour.credit ≤
    lone c + (isMiscounted c next).toNat + right.neighbour.credit
  idle : lone c = 0 → k ≤ (isControl c).toNat

theorem adds_picture {next : Option Char} (hnext : next = some pictureSelector)
    (hc : presentationBase.holds c = true) (joined : Bool) :
    Adds c next right (if joined then 0 else 2) ⟨.emoji .picture, none⟩ := by
  have hcells : 0 < cells c := cells_pos (by simp [shown]) hc
  have hlone := lone_of_not_control (not_control_of_base hc)
  have hdebt := right.neighbour.debt_nonneg
  have hcredit := right.neighbour.credit_nonneg
  have hmis : 2 ≤ cells c + (isMiscounted c next).toNat := by
    unfold isMiscounted
    rw [hc, hnext]
    by_cases h1 : cells c = 1
    · simp [h1]
    · omega
  refine ⟨?_, ?_, fun h => absurd (hlone ▸ h) (Nat.ne_of_gt hcells)⟩
  · change (0 : Int) ≤ _
    split <;> omega
  · rw [hlone]
    change (_ : Int) + 0 ≤ _
    split <;> omega

theorem adds_low {next : Option Char} (hc : c.toNat ≤ 0xA0) :
    Adds c next right (if c.toNat < 0x20 then 0 else 1) .start := by
  have hcells : 0 < cells c :=
    cells_pos (t := [(0, 0xA0)]) (by simp [shown]) (by simp [Ranges.holds, hc])
  have hdebt := right.neighbour.debt_nonneg
  have hcredit := right.neighbour.credit_nonneg
  have hcounted : 1 ≤ lone c + (isControl c).toNat := by
    cases h : isControl c with
    | true => simp
    | false =>
      rw [lone_of_not_control h]
      exact Nat.le_add_right_of_le hcells
  have hmis : (isControl c).toNat ≤ (isMiscounted c next).toNat := by
    unfold isMiscounted
    cases isControl c <;> simp
  refine ⟨?_, ?_, fun h => ?_⟩
  · change (0 : Int) ≤ _
    split <;> omega
  · change (_ : Int) + 0 ≤ _
    split <;> omega
  · split <;> omega

/-- A character joins what it is seen before, or starts anew. -/
theorem adds_visible {next : Option Char} (hcontrol : isControl c = false) :
    Adds c next right ((right.visible.extend? c).getD (cells c, .ofChar c)).1
      ⟨((right.visible.extend? c).getD (cells c, .ofChar c)).2, none⟩ := by
  have hlone := lone_of_not_control hcontrol
  have hdebt := right.debt_visible_le
  have hcredit := right.credit_visible_le
  have hdebt' := right.neighbour.debt_nonneg
  have hcredit' := right.neighbour.credit_nonneg
  cases hext : right.visible.extend? c with
  | none =>
    have hd := Neighbour.debt_ofChar_le c
    have hc := Neighbour.credit_ofChar c
    rw [Option.getD_none]
    exact ⟨by dsimp only; omega, by dsimp only; omega, fun h => by dsimp only; omega⟩
  | some p =>
    obtain ⟨k, left⟩ := p
    obtain ⟨hsettled, hcounted, hidle⟩ := Neighbour.continues hext
    rw [Option.getD_some]
    refine ⟨by dsimp only; omega, by dsimp only; omega, fun h => ?_⟩
    have := hidle (hlone ▸ h)
    dsimp only
    omega

theorem adds_widthBefore {next : Option Char}
    (hnext : right.selector = some .picture → next = some pictureSelector) :
    Adds c next right (widthBefore c right).1 (widthBefore c right).2 := by
  have hdebt := right.neighbour.debt_nonneg
  have hcredit := right.neighbour.credit_nonneg
  unfold widthBefore
  split
  · rename_i h
    simp only [Bool.and_eq_true, decide_eq_true_eq] at h
    exact adds_picture (hnext h.1) h.2 _
  · split
    · exact adds_low ‹_›
    · have hcontrol : isControl c = false := by
        simp [isControl]
        omega
      split
      · obtain ⟨hd, hc⟩ := right.withSelector_bounds ‹_›
        exact ⟨by simpa using hd, by rw [hc]; omega, fun _ => by simp⟩
      · split
        · rename_i h
          simp only [Bool.and_eq_true, narrowsToText] at h
          have hcells : 0 < cells c := cells_pos (by simp [shown]) h.2.1.1
          have hlone := lone_of_not_control hcontrol
          refine ⟨?_, ?_, fun h0 => absurd (hlone ▸ h0) (Nat.ne_of_gt hcells)⟩
          · change (0 : Int) ≤ _
            omega
          · change (1 : Int) + 0 ≤ _
            omega
        · exact adds_visible hcontrol

end Context

/-! ## Subscripts -/

section Subscript

variable {c : Char}

/-- The letters that can be a subscript continue no ligature and no picture. -/
theorem holds_eq_false_of_subscript (hc : khmerSubscript.holds c = true) {t : Ranges}
    (ht : t ∈ [presentationBase, emojiPresentation, arabicLam, zeroWidth, ligatureTransparent,
      tifinaghConsonant, modifierBase, regionalIndicator, emojiModifier, tagLetter, tagDigit]) :
    t.holds c = false := by
  have htable : ∀ t ∈ [presentationBase, emojiPresentation, arabicLam, zeroWidth,
      ligatureTransparent, tifinaghConsonant, modifierBase, regionalIndicator, emojiModifier,
      tagLetter, tagDigit], t.Rising ∧ khmerSubscript.apart t = true := by decide +kernel
  exact Ranges.holds_eq_false (by decide) (htable t ht).1 (htable t ht).2 hc

theorem toNat_of_subscript (hc : khmerSubscript.holds c = true) :
    0x1780 ≤ c.toNat ∧ c.toNat ≤ 0x17AF := by
  have hblock : ∀ r ∈ khmerSubscript, 0x1780 ≤ r.1 ∧ r.2 ≤ 0x17AF := by decide
  obtain ⟨r, hr, hlow, hhigh⟩ := Ranges.holds_iff.1 hc
  have := hblock r hr
  omega

theorem ne_joiner_of_subscript (hc : khmerSubscript.holds c = true) : c ≠ joiner := by
  rintro rfl
  exact absurd hc (by decide)

theorem extend?_ligature_of_subscript (hc : khmerSubscript.holds c = true) (l : Ligature) :
    l.extend? c = none := by
  have hnot {t : Ranges} := holds_eq_false_of_subscript hc (t := t)
  obtain ⟨hlow, hhigh⟩ := toNat_of_subscript hc
  unfold Ligature.extend?
  rw [hnot (t := arabicLam) (by simp), isJoiningTransparent, hnot (t := zeroWidth) (by simp),
    if_neg (ne_joiner_of_subscript hc), hnot (t := ligatureTransparent) (by simp),
    hnot (t := tifinaghConsonant) (by simp)]
  split
  · rfl
  · simp only [Bool.false_eq_true, if_false, Bool.and_false]
    split <;> first | rfl | exact if_neg (by omega) | exact if_neg (by simp; omega)

theorem extend?_emoji_of_subscript (hc : khmerSubscript.holds c = true) (e : Emoji) :
    e.extend? c = none := by
  have hnot {t : Ranges} := holds_eq_false_of_subscript hc (t := t)
  obtain ⟨hlow, hhigh⟩ := toNat_of_subscript hc
  have hri : regionalIndicator.holds c = false := hnot (by simp)
  have hlast : Emoji.ofLast? c = none := by
    unfold Emoji.ofLast?
    rw [hnot (t := emojiModifier) (by simp), hri, hnot (t := emojiPresentation) (by simp)]
    rfl
  have htag (e : Emoji) : e.withTag? c = none := by
    unfold Emoji.withTag?
    rw [hnot (t := tagLetter) (by simp), hnot (t := tagDigit) (by simp)]
    split <;> rfl
  have hflag : isBlackFlag c = false := decide_eq_false (by omega)
  have hkeycap : isKeycap c = false := decide_eq_false (by omega)
  have htagEnd : isTagEnd c = false := decide_eq_false (by omega)
  unfold Emoji.extend?
  rw [if_neg (ne_joiner_of_subscript hc), hflag, hkeycap, htagEnd, hlast, hri,
    hnot (t := modifierBase) (by simp)]
  simp only [Bool.false_and, Bool.false_eq_true, if_false, htag, Option.map_none]
  split <;> rfl

/-- Before whatever it stands, such a letter starts anew. -/
theorem widthBefore_subscript (hc : khmerSubscript.holds c = true) (right : Context) :
    widthBefore c right = (↑(cells c), ⟨.ofChar c, none⟩) := by
  have hnot {t : Ranges} := holds_eq_false_of_subscript hc (t := t)
  obtain ⟨hlow, hhigh⟩ := toNat_of_subscript hc
  have hselector : Presentation.ofSelector? c = none := by
    unfold Presentation.ofSelector?
    rw [if_neg (by omega), if_neg (by omega)]
  have hextend : right.visible.extend? c = none := by
    cases right.visible with
    | plain => rfl
    | ligature l => exact Option.map_eq_none_iff.2 (extend?_ligature_of_subscript hc l)
    | emoji e => exact Option.map_eq_none_iff.2 (extend?_emoji_of_subscript hc e)
  unfold widthBefore
  rw [hnot (t := presentationBase) (by simp), narrowsToText,
    hnot (t := emojiPresentation) (by simp), hselector, hextend,
    if_neg (show ¬ c.toNat ≤ 0xA0 by omega)]
  simp

end Subscript

end RegionLayout.Text
