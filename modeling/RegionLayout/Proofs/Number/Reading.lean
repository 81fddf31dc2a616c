-- Which double a decimal is read as. Small decimals take one exact product or quotient of doubles,
-- large ones a quotient of whole numbers that is long enough; on each way the decimal is rounded
-- once. So a decimal that is near a double, nearer than half way to its neighbours, is read as it.
import RegionLayout.Proofs.Number.Doubles

namespace RegionLayout.Number

open Float.Model Float.Model.UnpackedFloat

/-! ## From decimals to doubles -/

/-- What a decimal comes to. -/
def Decimal.value (d : Decimal) : ℚ := d.digits * 10 ^ d.exponent

section Reading

variable {m m₁ m₂ : ℕ} {q e₁ e₂ : ℤ} {x : ℚ}

/-- A product of finite doubles is rounded from the exact product. -/
theorem mul_of_near (h : Stored m q) (hx : Near m q x) (h₁ : 0 < m₁) (h₂ : 0 < m₂)
    (hvalue : x = m₁ * 2 ^ e₁ * (m₂ * 2 ^ e₂)) (hlong : 2 ^ 52 ≤ m₁ * m₂) :
    UnpackedFloat.mul .binary64 (.finite .positive m₁ e₁ h₁) (.finite .positive m₂ e₂ h₂) =
      .finite .positive m q h.pos := by
  change roundWithAccuracy .binary64 .positive (m₁ * m₂) (e₁ + e₂) .exact = _
  have hexact : ((m₁ * m₂ : ℕ) : ℚ) = x / 2 ^ (e₁ + e₂) := by
    rw [eq_div_iff (zpow_pos two_pos _).ne', hvalue, zpow_add₀ two_ne_zero]
    push_cast
    ring
  apply round_of_near h hx
  · rw [← hexact]
    exact CutOff.exact _
  · have hlog : 52 ≤ (m₁ * m₂).log2 := (Nat.le_log2 (by positivity)).2 hlong
    rw [target_eq]
    omega

/-- A dividend long enough for its divisor leaves a quotient of fifty-three bits or more. -/
theorem log2_div (h₁ : 0 < m₁) (h₂ : 0 < m₂) {k : ℕ} (hk : m₂.log2 + 53 ≤ m₁.log2 + k) :
    52 ≤ (m₁ * 2 ^ k / m₂).log2 := by
  have hquotient : 2 ^ 52 ≤ m₁ * 2 ^ k / m₂ := by
    rw [Nat.le_div_iff_mul_le h₂]
    calc 2 ^ 52 * m₂ ≤ 2 ^ 52 * 2 ^ (m₂.log2 + 1) := by gcongr; exact Nat.lt_log2_self.le
      _ = 2 ^ (m₂.log2 + 53) := by rw [← pow_add]; congr 1; omega
      _ ≤ 2 ^ (m₁.log2 + k) := Nat.pow_le_pow_right two_pos hk
      _ = 2 ^ m₁.log2 * 2 ^ k := pow_add ..
      _ ≤ m₁ * 2 ^ k := by gcongr; exact Nat.log2_self_le h₁.ne'
  exact (Nat.le_log2 (by omega)).2 hquotient

/-- So is a quotient: enough bits are put behind the dividend. -/
theorem div_of_near (h : Stored m q) (hx : Near m q x) (h₁ : 0 < m₁) (h₂ : 0 < m₂)
    (hvalue : x = m₁ * 2 ^ e₁ / (m₂ * 2 ^ e₂)) :
    UnpackedFloat.div .binary64 (.finite .positive m₁ e₁ h₁) (.finite .positive m₂ e₂ h₂) =
      .finite .positive m q h.pos := by
  generalize ht : min (e₁ - e₂) (Format.binary64.targetExponent
    (totalExponent m₁ e₁ - totalExponent m₂ e₂)) = t
  have htarget : t = min (e₁ - e₂)
      (max (m₁.log2 + e₁ - (m₂.log2 + e₂) - 53) (-1074)) := by
    rw [← ht]
    simp only [Format.targetExponent, totalExponent, Format.mantissaBits, Format.minExponent]
    norm_num
    omega
  have hk : t = e₁ - e₂ - (e₁ - e₂ - t).toNat := by omega
  change roundWithAccuracy .binary64 .positive (m₁ <<< (e₁ - e₂ - min _ _).toNat / m₂) (min _ _)
    (accuracyOfFraction (m₁ <<< (e₁ - e₂ - min _ _).toNat % m₂) m₂) = _
  rw [ht, Nat.shiftLeft_eq]
  apply round_of_near h hx
  · have hcut := CutOff.quotient (m₁ * 2 ^ (e₁ - e₂ - t).toNat) h₂
    rw [mul_two_pow_eq m₁ _ (e₁ - e₂), ← hk, zpow_sub₀ two_ne_zero] at hcut
    have hexact : x / 2 ^ t = m₁ * (2 ^ e₁ / 2 ^ e₂) / 2 ^ t / m₂ := by
      rw [hvalue]
      field_simp
    rw [hexact]
    exact hcut
  · rw [target_eq]
    by_cases hleast : t ≤ -1074
    · omega
    · have := log2_div h₁ h₂ (k := (e₁ - e₂ - t).toNat) (by omega)
      omega

/-- A whole number at an exponent is rounded too; first it gets the bits that it is short of. -/
theorem round_nat_of_near {n : ℕ} {e : ℤ} (h : Stored m q) (hx : Near m q (n * 2 ^ e)) (hn : 0 < n)
    (s : Sign) : UnpackedFloat.round .binary64 s n e = .finite s m q h.pos := by
  generalize ht : Format.binary64.targetExponent (totalExponent n e) = t
  have htarget := target_eq n e
  change roundWithAccuracy .binary64 s (n <<< (e - Format.binary64.targetExponent _).toNat)
    (e - (e - Format.binary64.targetExponent _).toNat) .exact = _
  rw [ht, Nat.shiftLeft_eq]
  apply round_of_near h hx
  · have hcut := CutOff.exact (n * 2 ^ (e - t).toNat)
    rw [mul_two_pow_eq n _ e] at hcut
    exact hcut
  · rw [target_eq, log2_mul_two_pow hn]
    omega

end Reading

/-- A significand is lengthened to fifty-three bits without a change of value. -/
theorem stored_mul_two_pow {n : ℕ} (hn : 0 < n) (hlt : n < 2 ^ 53) {e : ℤ} (hleast : -1022 ≤ e)
    (hmost : e ≤ 971) :
    Stored (n * 2 ^ (52 - n.log2)) (e + n.log2 - 52) ∧ 2 ^ 52 ≤ n * 2 ^ (52 - n.log2) ∧
      ((n * 2 ^ (52 - n.log2) : ℕ) : ℚ) * 2 ^ (e + n.log2 - 52) = n * 2 ^ e := by
  have hlog : n.log2 ≤ 52 := Nat.lt_succ_iff.1 ((Nat.log2_lt hn.ne').2 hlt)
  have hpos : 0 < n * 2 ^ (52 - n.log2) := by positivity
  have hlogm : (n * 2 ^ (52 - n.log2)).log2 = 52 := by
    rw [log2_mul_two_pow hn]
    omega
  obtain ⟨hlead, hbound⟩ := (Nat.log2_eq_iff hpos.ne').1 hlogm
  refine ⟨⟨hpos, hbound, by omega, by omega, .inl hlead⟩, hlead, ?_⟩
  have hexponent : e - ((52 - n.log2 : ℕ) : ℤ) = e + n.log2 - 52 := by omega
  rw [mul_two_pow_eq n _ e, hexponent, div_mul_cancel₀ _ (zpow_pos two_pos _).ne']

/-- A whole number that fits in a significand is a double. -/
theorem parts_ofNat {n : ℕ} (hn : 0 < n) (hlt : n < 2 ^ 53) :
    ∃ m q, ∃ h : 0 < m, parts n.toUInt64.toFloat = .finite .positive m q h ∧
      2 ^ 52 ≤ m ∧ (m : ℚ) * 2 ^ q = n := by
  obtain ⟨hstored, hlead, hvalue⟩ := stored_mul_two_pow hn hlt (e := 0) (by norm_num) (by norm_num)
  have hnear := Near.self (n * 2 ^ (52 - n.log2)) (0 + n.log2 - 52)
  rw [hvalue] at hnear
  have hround := round_nat_of_near hstored hnear hn .positive
  have hnat : n.toUInt64.toNat = n := UInt64.toNat_ofNat_of_lt' (hlt.trans (by norm_num))
  refine ⟨_, _, hstored.pos, ?_, hlead, by rw [hvalue, zpow_zero, mul_one]⟩
  change parts (.ofModel (.pack (normalize .binary64 (n.toUInt64.toNat : ℤ) 0 .positive))) = _
  unfold UnpackedFloat.normalize
  rw [hnat, Int.compare_eq_gt.2 (by omega)]
  simp only [Int.toNat_natCast, hround]
  exact parts_pack hstored .positive

theorem powerOfTen_bits : ∀ e : Fin 23,
    (Float.exactlyRepresentablePowersOfTen[e]).toModel.toBits.toBitVec.toNat =
      bitsOf .positive (5 ^ e.val * 2 ^ (52 - (5 ^ e.val).log2)) (e + (5 ^ e.val).log2 - 52) := by
  decide

/-- The powers of ten that are kept as doubles are exact. -/
theorem parts_powerOfTen {e : ℕ} (he : e < Float.exactlyRepresentablePowersOfTen.size) :
    ∃ m q, ∃ h : 0 < m, parts Float.exactlyRepresentablePowersOfTen[e] = .finite .positive m q h ∧
      (m : ℚ) * 2 ^ q = 10 ^ e := by
  have he' : e < 23 := he
  have hlt : 5 ^ e < 2 ^ 53 :=
    (Nat.pow_le_pow_right (by norm_num) (Nat.lt_succ_iff.1 he')).trans_lt (by norm_num)
  obtain ⟨hstored, -, hvalue⟩ := stored_mul_two_pow (by positivity : 0 < 5 ^ e) hlt (e := e)
    (by omega) (by omega)
  refine ⟨_, _, hstored.pos, (unpack_finite_iff _ _).2 ⟨hstored, powerOfTen_bits ⟨e, he'⟩⟩, ?_⟩
  rw [hvalue, zpow_natCast]
  push_cast
  rw [← mul_pow]
  norm_num

section Decimals

variable {m n : ℕ} {q e : ℤ}

/-- A decimal near a double is no zero, and its exponent is of a size that is computed with. -/
theorem exponent_bounds (h : Stored m q) (hx : Near m q (n * 10 ^ e)) :
    0 < n ∧ e ≤ 1024 ∧ -1076 - (n.log2 : ℤ) < e := by
  obtain ⟨hlow, hhigh⟩ := hx.bounds h
  have hpow : (0 : ℚ) < 10 ^ e := zpow_pos (by norm_num) e
  have hn : 0 < n := by
    by_contra hzero
    rw [Nat.eq_zero_of_not_pos hzero, Nat.cast_zero, zero_mul] at hlow
    exact absurd hlow (not_le.2 (zpow_pos two_pos _))
  have hone : (1 : ℚ) ≤ n := by exact_mod_cast hn
  refine ⟨hn, ?_, ?_⟩
  · by_contra hlarge
    have hten : (2 : ℚ) ^ (1024 : ℤ) ≤ 10 ^ e := by
      calc (2 : ℚ) ^ (1024 : ℤ) ≤ 2 ^ e := zpow_le_zpow_right₀ one_le_two (by omega)
        _ ≤ 10 ^ e := zpow_le_zpow_left₀ (by omega) (by norm_num) (by norm_num)
    exact absurd hhigh (not_lt.2 (hten.trans (le_mul_of_one_le_left hpow.le hone)))
  · by_contra hsmall
    have hten : (10 : ℚ) ^ e ≤ 2 ^ e := by
      obtain ⟨k, rfl⟩ : ∃ k : ℕ, e = -k := ⟨e.natAbs, by omega⟩
      rw [zpow_neg, zpow_neg, zpow_natCast, zpow_natCast]
      gcongr
      norm_num
    have hlog : (n : ℚ) < 2 ^ (n.log2 + 1) := by exact_mod_cast Nat.lt_log2_self
    have : (n : ℚ) * 10 ^ e < 2 ^ (-1075 : ℤ) := by
      calc (n : ℚ) * 10 ^ e < 2 ^ (n.log2 + 1) * 10 ^ e := by gcongr
        _ ≤ 2 ^ (n.log2 + 1) * 2 ^ e := by gcongr
        _ = 2 ^ ((n.log2 + 1 : ℕ) + e) := pow_mul_zpow two_ne_zero _ e
        _ ≤ 2 ^ (-1075 : ℤ) := zpow_le_zpow_right₀ one_le_two (by push_cast; omega)
    linarith

theorem parts_div {x y : Float} : parts (x / y) =
    parts (.ofModel (.pack (UnpackedFloat.div .binary64 (parts x) (parts y)))) := rfl

theorem zpow_eq_pow {e : ℤ} (he : 0 ≤ e) : (10 : ℚ) ^ e = 10 ^ e.natAbs := by
  rw [← zpow_natCast]
  congr 1
  omega

theorem zpow_eq_one_div {e : ℤ} (he : e < 0) : (10 : ℚ) ^ e = 1 / 10 ^ e.natAbs := by
  rw [one_div, ← zpow_natCast, ← zpow_neg]
  congr 1
  omega

/-- A short decimal is read by one product or quotient of doubles, both exact. -/
theorem parts_mul_or_div (h : Stored m q) (hx : Near m q (n * 10 ^ e)) (hn : 0 < n)
    (hlt : n < 2 ^ 53) (htable : e.natAbs < Float.exactlyRepresentablePowersOfTen.size) :
    parts (if e < 0 then n.toUInt64.toFloat / Float.exactlyRepresentablePowersOfTen[e.natAbs]
      else n.toUInt64.toFloat * Float.exactlyRepresentablePowersOfTen[e.natAbs]) =
        .finite .positive m q h.pos := by
  obtain ⟨m₁, e₁, h₁, hparts₁, hlead, hvalue₁⟩ := parts_ofNat hn hlt
  obtain ⟨m₂, e₂, h₂, hparts₂, hvalue₂⟩ := parts_powerOfTen htable
  by_cases he : e < 0
  · rw [if_pos he, parts_div, hparts₁, hparts₂, div_of_near h hx h₁ h₂, parts_pack h]
    rw [hvalue₁, hvalue₂, zpow_eq_one_div he]
    ring
  · rw [if_neg he, parts_mul, hparts₁, hparts₂, mul_of_near h hx h₁ h₂, parts_pack h]
    · rw [hvalue₁, hvalue₂, zpow_eq_pow (by omega)]
    · exact hlead.trans (Nat.le_mul_of_pos_right _ h₂)

/-- Any other decimal is read by the same operation on whole numbers, rounded once. -/
theorem pack_ofScientific (h : Stored m q) (hx : Near m q (n * 10 ^ e)) :
    Float.Model.pack (UnpackedFloat.ofScientific .binary64 n e) =
      .pack (.finite .positive m q h.pos) := by
  obtain ⟨hn, hmost, hleast⟩ := exponent_bounds h hx
  unfold UnpackedFloat.ofScientific
  rw [dif_neg hn.ne', if_neg (by norm_num; omega), if_neg (by norm_num; omega)]
  congr 1
  by_cases he : 0 ≤ e
  · rw [if_pos he]
    have hnat : e.toNat = e.natAbs := by omega
    apply mul_of_near h hx
    · change _ = ((n <<< 53 : ℕ) : ℚ) * 2 ^ (-53 : ℤ) * ((10 ^ e.toNat : ℕ) * 2 ^ (0 : ℤ))
      rw [zpow_eq_pow he, Nat.shiftLeft_eq, mul_two_pow_eq n 53 0, hnat]
      norm_num
    · change 2 ^ 52 ≤ n <<< 53 * 10 ^ e.toNat
      have hten : 0 < 10 ^ e.toNat := by positivity
      rw [Nat.shiftLeft_eq]
      nlinarith
  · rw [if_neg he]
    have hnat : (-e).toNat = e.natAbs := by omega
    apply div_of_near h hx hn
    rw [zpow_eq_one_div (by omega), hnat]
    norm_num
    ring

/-- A decimal near a double is read as that double. -/
theorem parts_ofScientific (h : Stored m q) (hx : Near m q (n * 10 ^ e)) :
    parts (Float.ofScientific n (e < 0) e.natAbs) = .finite .positive m q h.pos := by
  unfold Float.ofScientific
  split
  case isTrue hfast =>
    have hread := parts_mul_or_div h hx (exponent_bounds h hx).1 hfast.1
      (Nat.lt_succ_iff.2 hfast.2)
    by_cases he : e < 0
    · rw [if_pos he] at hread
      rw [if_pos (decide_eq_true he)]
      exact hread
    · rw [if_neg he] at hread
      rw [if_neg (by simp [he])]
      exact hread
  case isFalse hslow =>
    have hexponent : (if decide (e < 0) = true then Int.negOfNat e.natAbs else Int.ofNat e.natAbs) =
        e := by
      simp only [decide_eq_true_eq, Int.negOfNat_eq, Int.ofNat_eq_natCast]
      omega
    rw [hexponent]
    change (Float.Model.pack (UnpackedFloat.ofScientific .binary64 n e)).unpack = _
    rw [pack_ofScientific h hx, unpack_pack h]

/-- The first digit of a number, by how many digits there are. -/
theorem length_repr_bounds (hn : 0 < n) :
    10 ^ (n.repr.length - 1) ≤ n ∧ n < 10 ^ n.repr.length := by
  have hpos := Nat.length_repr_pos (n := n)
  refine ⟨?_, (Nat.length_repr_le_iff hpos).1 le_rfl⟩
  by_cases hone : n.repr.length = 1
  · rw [hone]
    omega
  · by_contra hlt
    have := (Nat.length_repr_le_iff (n := n) (k := n.repr.length - 1) (by omega)).2 (by omega)
    omega

/-- Three bits are less than a decimal digit. -/
theorem two_zpow_le {i k : ℤ} (hk : 0 ≤ k) (hi : i ≤ 3 * k) : (2 : ℚ) ^ i ≤ 10 ^ k :=
  calc (2 : ℚ) ^ i ≤ 2 ^ (3 * k) := zpow_le_zpow_right₀ one_le_two hi
    _ = (2 ^ (3 : ℤ)) ^ k := zpow_mul ..
    _ ≤ 10 ^ k := zpow_le_zpow_left₀ hk (by norm_num) (by norm_num)

theorem value_bounds {x : ℚ} (h : Stored m q) (hx : Near m q x) :
    10 ^ (-359 : ℤ) ≤ x ∧ x < 10 ^ (342 : ℤ) := by
  obtain ⟨hlow, hhigh⟩ := hx.bounds h
  constructor
  · refine le_trans ?_ hlow
    rw [zpow_neg, zpow_neg]
    exact inv_anti₀ (zpow_pos two_pos _) (two_zpow_le (by norm_num) (by norm_num))
  · exact hhigh.trans_le (two_zpow_le (by norm_num) (by norm_num))

/-- A decimal near a double is read as the double. -/
theorem parts_toFloat {d : Decimal} (h : Stored m q) (hx : Near m q d.value) :
    parts d.toFloat = .finite .positive m q h.pos := by
  obtain ⟨digits, e⟩ := d
  have hbounds := value_bounds h hx
  unfold Decimal.value at hx hbounds
  dsimp only at hx hbounds
  have hn := (exponent_bounds h hx).1
  obtain ⟨hfirst, hlast⟩ := length_repr_bounds hn
  have hlen := Nat.length_repr_pos (n := digits)
  have hpow : (0 : ℚ) < 10 ^ e := zpow_pos (by norm_num) e
  have hten : (1 : ℚ) < 10 := by norm_num
  have hhigh : (digits.repr.length - 1 : ℕ) + e < 342 := by
    apply exponent_lt (x := digits * 10 ^ e) hten _ hbounds.2
    rw [← pow_mul_zpow (by norm_num)]
    gcongr
    exact_mod_cast hfirst
  have hlow : -359 < digits.repr.length + e := by
    apply exponent_lt (x := digits * 10 ^ e) hten hbounds.1
    rw [← pow_mul_zpow (by norm_num)]
    gcongr
    exact_mod_cast hlast
  unfold Decimal.toFloat
  dsimp only
  rw [if_neg hn.ne', if_neg (by omega), if_neg (by omega)]
  exact parts_ofScientific h hx

end Decimals

end RegionLayout.Number
