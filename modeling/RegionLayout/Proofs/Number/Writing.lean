-- The decimal that a double is written as. It is looked for in the range of what is near the
-- double, on grids of one to seventeen digits, and the last grid always has a point there. The text
-- is digits with at most one point among them, so every finite double reads back from its text.
import RegionLayout.Proofs.Number.Reading

namespace RegionLayout.Number

/-! ## The range of a double -/

theorem zpow_eq_div {b : ℚ} (hb : b ≠ 0) (n : ℤ) : b ^ n = b ^ n.toNat / b ^ (-n).toNat := by
  rw [← zpow_natCast, ← zpow_natCast, ← zpow_sub₀ hb]
  congr 1
  omega

/-- The four numbers of a range stand for the double, the ends of what is near it and the unit
`10 ^ k`, all on one scale. -/
structure OnScale (r : Decimal.Range) (m : ℕ) (q k : ℤ) (scale : ℚ) : Prop where
  pos : 0 < scale
  unit : (r.unit : ℚ) = 10 ^ k * scale
  value : (r.value : ℚ) = m * 2 ^ q * scale
  low : (r.low : ℚ) = (m - halfBelow m q) * 2 ^ q * scale
  high : (r.high : ℚ) = (m + 1 / 2) * 2 ^ q * scale
  closed : r.closed = (m % 2 == 0)

variable {m : ℕ} {q k : ℤ} {r : Decimal.Range} {scale : ℚ}

theorem onScale (hm : 0 < m) (q k : ℤ) : OnScale ((Decimal.Range.ofBinary m q).rescale k) m q k
    (4 * 2 ^ (-q).toNat * 10 ^ (-k).toNat) := by
  have h2 : (2 : ℚ) ^ q * 2 ^ (-q).toNat = 2 ^ q.toNat := by
    rw [zpow_eq_div two_ne_zero q, div_mul_cancel₀ _ (by positivity)]
  have h10 : (10 : ℚ) ^ k * 10 ^ (-k).toNat = 10 ^ k.toNat := by
    rw [zpow_eq_div (by norm_num) k, div_mul_cancel₀ _ (by positivity)]
  have hhalf : (((if (m == Binary64.hiddenBit && decide (q > Binary64.leastExponent)) = true
      then 4 * m - 1 else 4 * m - 2 : ℕ)) : ℚ) = 4 * (m - halfBelow m q) := by
    have hnarrow : (m == Binary64.hiddenBit && decide (q > Binary64.leastExponent)) = true ↔
        m = 2 ^ 52 ∧ -1074 < q := by
      simp [Binary64.hiddenBit, Binary64.leastExponent]
    simp only [halfBelow, hnarrow]
    split
    · rw [Nat.cast_sub (by omega)]
      push_cast
      ring
    · rw [Nat.cast_sub (by omega)]
      push_cast
      ring
  constructor
  · positivity
  · simp only [Decimal.Range.rescale, Decimal.Range.ofBinary, Nat.pow_eq]
    push_cast
    rw [← h10]
    ring
  · simp only [Decimal.Range.rescale, Decimal.Range.ofBinary, Nat.pow_eq]
    push_cast
    rw [← h2]
    ring
  · simp only [Decimal.Range.rescale, Decimal.Range.ofBinary, Nat.pow_eq]
    rw [Nat.cast_mul, Nat.cast_mul, hhalf]
    push_cast
    rw [← h2]
    ring
  · simp only [Decimal.Range.rescale, Decimal.Range.ofBinary, Nat.pow_eq]
    push_cast
    rw [← h2]
    ring
  · rfl

namespace OnScale

theorem holds_iff (h : OnScale r m q k scale) (c : ℕ) :
    r.holds c = true ↔ Near m q (c * 10 ^ k) := by
  have hx : ((c * r.unit : ℕ) : ℚ) = c * 10 ^ k * scale := by
    rw [Nat.cast_mul, h.unit, mul_assoc]
  have hlow : r.low ≤ c * r.unit ↔ (m - halfBelow m q) * 2 ^ q ≤ (c : ℚ) * 10 ^ k := by
    rw [← mul_le_mul_iff_left₀ h.pos, ← h.low, ← hx, Nat.cast_le]
  have hhigh : c * r.unit ≤ r.high ↔ (c : ℚ) * 10 ^ k ≤ (m + 1 / 2) * 2 ^ q := by
    rw [← mul_le_mul_iff_left₀ h.pos, ← h.high, ← hx, Nat.cast_le]
  have hlow' : r.low < c * r.unit ↔ (m - halfBelow m q) * 2 ^ q < (c : ℚ) * 10 ^ k := by
    rw [← mul_lt_mul_iff_left₀ h.pos, ← h.low, ← hx, Nat.cast_lt]
  have hhigh' : c * r.unit < r.high ↔ (c : ℚ) * 10 ^ k < (m + 1 / 2) * 2 ^ q := by
    rw [← mul_lt_mul_iff_left₀ h.pos, ← h.high, ← hx, Nat.cast_lt]
  unfold Decimal.Range.holds
  rw [h.closed]
  rcases Nat.mod_two_eq_zero_or_one m with hm | hm
  · simp only [hm, BEq.rfl, ↓reduceIte, Bool.and_eq_true, decide_eq_true_eq, hlow, hhigh]
    exact ⟨fun ⟨h1, h2⟩ => ⟨h1, h2, by omega⟩, fun hx => ⟨hx.low, hx.high⟩⟩
  · have hclosed : (m % 2 == 0) = false := beq_false_of_ne (by omega)
    simp only [hclosed, Bool.false_eq_true, ↓reduceIte, Bool.and_eq_true, decide_eq_true_eq, hlow',
      hhigh']
    exact ⟨fun ⟨h1, h2⟩ => ⟨h1.le, h2.le, fun _ => ⟨h1, h2⟩⟩, fun hx => hx.odd hm⟩

/-- The whole numbers next to the value. -/
theorem floor (h : OnScale r m q k scale) :
    ((r.value / r.unit : ℕ) : ℚ) * 10 ^ k ≤ m * 2 ^ q ∧
      m * 2 ^ q < (((r.value / r.unit : ℕ) : ℚ) + 1) * 10 ^ k := by
  have hpow : (0 : ℚ) < 10 ^ k := zpow_pos (by norm_num) k
  have hunit : 0 < r.unit := by
    have : (0 : ℚ) < r.unit := by
      rw [h.unit]
      exact mul_pos hpow h.pos
    exact_mod_cast this
  have hlow : ((r.value / r.unit : ℕ) : ℚ) * r.unit ≤ r.value := by
    exact_mod_cast Nat.div_mul_le_self r.value r.unit
  have hhigh : (r.value : ℚ) < ((r.value / r.unit : ℕ) + 1) * r.unit := by
    have := Nat.lt_mul_div_succ r.value hunit
    rw [mul_comm] at this
    exact_mod_cast this
  rw [h.unit, h.value, ← mul_assoc] at hlow hhigh
  exact ⟨le_of_mul_le_mul_right hlow h.pos, lt_of_mul_lt_mul_right hhigh h.pos.le⟩

end OnScale

theorem holds_of_nearest? {tie : Decimal.Tie} {c : ℕ} (h : r.nearest? tie = some c) :
    r.holds c = true := by
  cases tie <;> grind [Decimal.Range.nearest?]

theorem nearest?_ne_none (tie : Decimal.Tie)
    (h : r.holds (r.value / r.unit) = true ∨ r.holds (r.value / r.unit + 1) = true) :
    r.nearest? tie ≠ none := by
  cases tie <;> grind [Decimal.Range.nearest?]

/-! ## Seventeen digits are enough -/

theorem Near.of_lt {x : ℚ} (hlow : (m - halfBelow m q) * 2 ^ q < x)
    (hhigh : x < (m + 1 / 2) * 2 ^ q) : Near m q x :=
  ⟨hlow.le, hhigh.le, fun _ => ⟨hlow, hhigh⟩⟩

/-- On a grid so fine that the double has seventeen digits, one of the two points next to the
double is near it: the grid is finer than the doubles are there. -/
theorem near_of_grid (h : Stored m q) {c : ℕ} (hlow : (c : ℚ) * 10 ^ k ≤ m * 2 ^ q)
    (hhigh : m * 2 ^ q < ((c : ℚ) + 1) * 10 ^ k) (hgrid : 10 ^ 16 * 10 ^ k ≤ (m : ℚ) * 2 ^ q) :
    Near m q (c * 10 ^ k) ∨ Near m q ((c + 1 : ℕ) * 10 ^ k) := by
  have hu : (0 : ℚ) < 2 ^ q := zpow_pos two_pos q
  have hg : (0 : ℚ) < 10 ^ k := zpow_pos (by norm_num) k
  have hm : (m : ℚ) * 2 ^ q ≤ 2 ^ 53 * 2 ^ q := by
    gcongr
    exact_mod_cast h.bound.le
  by_cases hnarrow : m = 2 ^ 52 ∧ -1074 < q
  · have hhalf : halfBelow m q = 1 / 4 := if_pos hnarrow
    have hm : (m : ℚ) = 2 ^ 52 := by exact_mod_cast hnarrow.1
    right
    apply Near.of_lt
    · rw [hhalf]
      push_cast
      linarith
    · rw [hm] at hlow hgrid ⊢
      push_cast
      linarith
  · have hhalf : halfBelow m q = 1 / 2 := if_neg hnarrow
    by_cases hnear : m * 2 ^ q - c * 10 ^ k ≤ (10 : ℚ) ^ k / 2
    · left
      apply Near.of_lt
      · rw [hhalf]
        linarith
      · linarith
    · right
      apply Near.of_lt
      · rw [hhalf]
        push_cast
        linarith
      · push_cast
        linarith

/-- A number has at least as many digits before its point as counted. -/
theorem ten_pow_pointOf_le {num den : ℕ} (hden : 0 < den)
    (hmin : ∃ z < 400, den ≤ num * 10 ^ (z + 1)) :
    (10 : ℚ) ^ (Decimal.pointOf num den - 1) * den ≤ num := by
  unfold Decimal.pointOf
  split
  case isTrue h =>
    have hpos := Nat.length_repr_pos (n := num / den)
    have hfirst := (length_repr_bounds (Nat.div_pos h hden)).1
    have hlen : (((num / den).repr.length : ℤ) - 1) = ((num / den).repr.length - 1 : ℕ) := by omega
    rw [hlen, zpow_natCast]
    exact_mod_cast (Nat.le_div_iff_mul_le hden).1 hfirst
  case isFalse h =>
    split
    case h_1 z hz =>
      have hle : den ≤ num * 10 ^ (z + 1) := by simpa using List.find?_some hz
      have hlen : (-(z : ℤ) - 1) = -((z + 1 : ℕ) : ℤ) := by omega
      rw [hlen, zpow_neg, zpow_natCast, inv_mul_le_iff₀ (by positivity), mul_comm]
      exact_mod_cast hle
    case h_2 hz =>
      obtain ⟨z, hlt, hle⟩ := hmin
      exact absurd (decide_eq_true hle) (List.find?_eq_none.1 hz z (List.mem_range.2 hlt))

/-! ## The shortest decimal -/

theorem trim_value (fuel : ℕ) (d : Decimal) : (Decimal.trim fuel d).value = d.value := by
  induction fuel generalizing d with
  | zero => rfl
  | succ fuel ih =>
    unfold Decimal.trim
    split
    case isTrue h =>
      have hdigits : d.digits = d.digits / 10 * 10 := by
        simp at h
        omega
      rw [ih]
      unfold Decimal.value
      rw [zpow_add_one₀ (by norm_num)]
      conv_rhs => rw [hdigits]
      push_cast
      ring
    case isFalse => rfl

/-- The first digit of a double is found. -/
theorem ten_pow_pointOf_ofBinary (h : Stored m q) :
    (10 : ℚ) ^ (Decimal.pointOf (Decimal.Range.ofBinary m q).value
      (Decimal.Range.ofBinary m q).unit - 1) ≤ m * 2 ^ q := by
  have hsame : (Decimal.Range.ofBinary m q).rescale 0 = Decimal.Range.ofBinary m q := by
    simp [Decimal.Range.rescale]
  have hscale := onScale h.pos q 0
  rw [hsame] at hscale
  have hunit : (Decimal.Range.ofBinary m q).unit = 4 * 2 ^ (-q).toNat := rfl
  have hvalue : (Decimal.Range.ofBinary m q).value = 4 * m * 2 ^ q.toNat := rfl
  have hmin : ∃ z < 400, 4 * 2 ^ (-q).toNat ≤ 4 * m * 2 ^ q.toNat * 10 ^ (z + 1) := by
    have hleast := h.least
    have hone : 1 ≤ m * 2 ^ q.toNat := Nat.mul_pos h.pos (by positivity)
    have hpow : 2 ^ (-q).toNat ≤ 10 ^ ((-q).toNat / 3 + 1) := by
      calc 2 ^ (-q).toNat ≤ 2 ^ (3 * ((-q).toNat / 3 + 1)) :=
            Nat.pow_le_pow_right two_pos (by omega)
        _ = (2 ^ 3) ^ ((-q).toNat / 3 + 1) := pow_mul ..
        _ ≤ 10 ^ ((-q).toNat / 3 + 1) := Nat.pow_le_pow_left (by norm_num) _
    exact ⟨(-q).toNat / 3, by omega, by nlinarith⟩
  have hden : 0 < (Decimal.Range.ofBinary m q).unit := by
    rw [hunit]
    positivity
  rw [← hunit, ← hvalue] at hmin
  have hle := ten_pow_pointOf_le hden hmin
  rw [hscale.unit, hscale.value, zpow_zero, one_mul] at hle
  exact le_of_mul_le_mul_right hle hscale.pos

/-- The decimal that a double is written as is near the double. -/
theorem shortest_near (h : Stored m q) (tie : Decimal.Tie) :
    Near m q (Decimal.shortest tie m q).value := by
  unfold Decimal.shortest
  dsimp only
  split
  case h_1 d hhit =>
    obtain ⟨n, -, hn⟩ := List.exists_of_findSome?_eq_some hhit
    obtain ⟨c, hc, rfl⟩ := Option.map_eq_some_iff.1 hn
    rw [trim_value]
    exact ((onScale h.pos q _).holds_iff c).1 (holds_of_nearest? hc)
  case h_2 hnone =>
    -- the grid with seventeen digits cannot have failed
    have hlast := Option.map_eq_none_iff.1 (List.findSome?_eq_none_iff.1 hnone 16 (by simp))
    have hpoint := ten_pow_pointOf_ofBinary h
    generalize Decimal.pointOf _ _ = p at hlast hpoint
    have hscale := onScale h.pos q (p - (16 + 1 : ℕ))
    have hgrid : 10 ^ 16 * 10 ^ (p - (16 + 1 : ℕ)) ≤ (m : ℚ) * 2 ^ q := by
      rw [pow_mul_zpow (by norm_num)]
      convert hpoint using 2
      push_cast
      ring
    refine absurd hlast (nearest?_ne_none tie ?_)
    rw [hscale.holds_iff, hscale.holds_iff]
    exact near_of_grid h hscale.floor.1 hscale.floor.2 hgrid

/-! ## Numerals -/

/-- Digits, with a point and more digits after them where there are any, and the decimal that they
spell. -/
inductive Numeral : List Char → Decimal → Prop
  | whole {ds : List Char} (hne : ds ≠ []) (hds : ∀ c ∈ ds, c.isDigit = true) :
      Numeral ds (Decimal.ofParts ds [])
  | point {ds fs : List Char} (hne : ds ≠ []) (hds : ∀ c ∈ ds, c.isDigit = true)
      (hne' : fs ≠ []) (hfs : ∀ c ∈ fs, c.isDigit = true) :
      Numeral (ds ++ '.' :: fs) (Decimal.ofParts ds fs)

theorem readDigits_eq (acc : ℕ) (cs : List Char) :
    Decimal.readDigits acc cs = Nat.ofDigitChars 10 cs acc := Nat.ofDigitChars_eq_foldl.symm

/-- The decimal of a run of digits with a point somewhere in it. -/
theorem ofParts_value (ds fs : List Char) : (Decimal.ofParts ds fs).value =
    Nat.ofDigitChars 10 (ds ++ fs) 0 * 10 ^ (-(fs.length : ℤ)) := by
  simp only [Decimal.value, Decimal.ofParts, readDigits_eq, Nat.ofDigitChars_append]

theorem isDigit_of_mem_toDigits {n : ℕ} : ∀ c ∈ Nat.toDigits 10 n, c.isDigit = true :=
  fun _ => Nat.isDigit_of_mem_toDigits (by norm_num) (by norm_num)

theorem isDigit_of_mem_zeros {k : ℕ} : ∀ c ∈ List.replicate k '0', c.isDigit = true := by
  intro c hc
  rw [List.eq_of_mem_replicate hc]
  rfl

section Digits

variable (n k : ℕ) {e : ℤ}

/-- Zeros between the point and the digits. -/
theorem numeral_point_first (hk : ((k + (Nat.toDigits 10 n).length : ℕ) : ℤ) = -e) :
    ∃ v, Numeral ('0' :: '.' :: (List.replicate k '0' ++ Nat.toDigits 10 n)) v ∧
      v.value = Decimal.value ⟨n, e⟩ := by
  refine ⟨Decimal.ofParts ['0'] (List.replicate k '0' ++ Nat.toDigits 10 n), ?_, ?_⟩
  · change Numeral (['0'] ++ '.' :: (List.replicate k '0' ++ Nat.toDigits 10 n)) _
    refine .point (by simp) (by simp) (by simp) fun c hc => ?_
    exact (List.mem_append.1 hc).elim (isDigit_of_mem_zeros c) (isDigit_of_mem_toDigits c)
  · have hdigits : Nat.ofDigitChars 10 (['0'] ++ (List.replicate k '0' ++ Nat.toDigits 10 n)) 0 =
        n := by
      simp [Nat.ofDigitChars_append, Nat.ofDigitChars_cons]
    rw [ofParts_value, hdigits, List.length_append, List.length_replicate, hk, neg_neg]
    rfl

/-- Zeros behind the digits. -/
theorem numeral_whole (hk : (k : ℤ) = e) :
    ∃ v, Numeral (Nat.toDigits 10 n ++ List.replicate k '0') v ∧
      v.value = Decimal.value ⟨n, e⟩ := by
  refine ⟨Decimal.ofParts (Nat.toDigits 10 n ++ List.replicate k '0') [], ?_, ?_⟩
  · refine .whole (by simp) fun c hc => ?_
    exact (List.mem_append.1 hc).elim (isDigit_of_mem_toDigits c) (isDigit_of_mem_zeros c)
  · rw [ofParts_value, List.append_nil, Nat.ofDigitChars_append, Nat.ofDigitChars_ten_toDigits,
      Nat.ofDigitChars_replicate_zero, Decimal.value, ← hk, zpow_natCast, List.length_nil]
    push_cast
    ring

/-- The point among the digits. -/
theorem numeral_point_among (hpos : 0 < k) (hlt : k < (Nat.toDigits 10 n).length)
    (hk : (k : ℤ) = e + (Nat.toDigits 10 n).length) :
    ∃ v, Numeral ((Nat.toDigits 10 n).take k ++ '.' :: (Nat.toDigits 10 n).drop k) v ∧
      v.value = Decimal.value ⟨n, e⟩ := by
  refine ⟨Decimal.ofParts ((Nat.toDigits 10 n).take k) ((Nat.toDigits 10 n).drop k), ?_, ?_⟩
  · refine .point ?_ (fun c hc => isDigit_of_mem_toDigits c (List.mem_of_mem_take hc)) ?_
      (fun c hc => isDigit_of_mem_toDigits c (List.mem_of_mem_drop hc))
    · apply List.ne_nil_of_length_pos
      rw [List.length_take]
      omega
    · apply List.ne_nil_of_length_pos
      rw [List.length_drop]
      omega
  · have he : -(((Nat.toDigits 10 n).drop k).length : ℤ) = e := by
      rw [List.length_drop]
      omega
    rw [ofParts_value, List.take_append_drop, Nat.ofDigitChars_ten_toDigits, he]
    rfl

end Digits

/-- A positive decimal is written as a numeral that spells a decimal of the same value. -/
theorem write_plain {d : Decimal} :
    ∃ v, Numeral (d.write Decimal.plain).toList v ∧ v.value = d.value := by
  obtain ⟨n, e⟩ := d
  have hlen : n.repr.length = (Nat.toDigits 10 n).length := by
    rw [← String.length_toList, Nat.toList_repr]
  unfold Decimal.write Decimal.plain
  dsimp only
  rw [if_pos rfl, hlen]
  generalize hp : e + ((Nat.toDigits 10 n).length : ℤ) = p
  split
  case isTrue h =>
    have htext : ("0." ++ Decimal.zeros (-p).toNat ++ n.repr).toList =
        '0' :: '.' :: (List.replicate (-p).toNat '0' ++ Nat.toDigits 10 n) := by
      simp [Decimal.zeros]
    rw [htext]
    exact numeral_point_first n _ (by omega)
  case isFalse h =>
    split
    case isTrue h' =>
      have htext : (n.repr ++ Decimal.zeros (p.toNat - (Nat.toDigits 10 n).length) ++ "").toList =
          Nat.toDigits 10 n ++ List.replicate (p.toNat - (Nat.toDigits 10 n).length) '0' := by
        simp [Decimal.zeros]
      rw [htext]
      exact numeral_whole n _ (by omega)
    case isFalse h' =>
      have htext :
          ((n.repr.take p.toNat).toString ++ "." ++ (n.repr.drop p.toNat).toString).toList =
          (Nat.toDigits 10 n).take p.toNat ++ '.' :: (Nat.toDigits 10 n).drop p.toNat := by
        simp
      rw [htext]
      exact numeral_point_among n _ (by omega) (by omega) (by omega)

/-! ## The text of a double -/

/-- A double is written as a numeral that reads back as the double, after a minus sign if the
double has one. -/
inductive Written (x : Float) : List Char → Prop
  | plain {ds : List Char} {v : Decimal} (h : Numeral ds v) (hx : v.toFloat * 1 = x) : Written x ds
  | minus {ds : List Char} {v : Decimal} (h : Numeral ds v) (hx : v.toFloat * 1 * -1 = x) :
      Written x ('-' :: ds)

theorem IsZero.written {x : Float} (h : IsZero x) : Written x (Scalar.text x).toList := by
  obtain ⟨s, hx⟩ := h
  have hzero : Numeral "0".toList (Decimal.ofParts ['0'] []) := .whole (by simp) (by simp)
  change Written x (Decimal.writeFloat Decimal.plain x).toList
  unfold Decimal.writeFloat
  rw [ofFloat_zero hx]
  cases s
  · exact .minus hzero (eq_of_zero rfl hx)
  · exact .plain hzero (eq_of_zero rfl hx)

theorem IsRegular.written {x : Float} (h : IsRegular x) : Written x (Scalar.text x).toList := by
  obtain ⟨s, m, q, hm, hx⟩ := h
  have hstored := stored_of_parts hx
  obtain ⟨v, hv, hvalue⟩ := write_plain (d := Decimal.shortest .up m q)
  have hnear := shortest_near hstored .up
  rw [← hvalue] at hnear
  have hparts := mul_unit (parts_toFloat hstored hnear) parts_one
  change Written x (Decimal.writeFloat Decimal.plain x).toList
  unfold Decimal.writeFloat
  rw [ofFloat_finite hx]
  dsimp only
  rw [if_neg hm.ne']
  cases s
  · change Written x ("-" ++ Decimal.write Decimal.plain (Decimal.shortest .up m q)).toList
    rw [String.toList_append]
    exact .minus hv (eq_of_finite (mul_unit hparts parts_neg_one) hx)
  · exact .plain hv (eq_of_finite hparts hx)

/-- Every finite double reads back from its text. -/
theorem written {x : Float} (h : x.isFinite = true) : Written x (Scalar.text x).toList :=
  (isFinite_iff.1 h).elim IsZero.written IsRegular.written

end RegionLayout.Number
