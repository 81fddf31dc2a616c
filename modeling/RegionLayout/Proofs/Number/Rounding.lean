-- Which doubles the rounder of doubles picks. A rounder shortens a mantissa bit by bit and keeps
-- two bits of what it drops: whether half a unit was dropped, and whether anything below that
-- was. The two are enough to find the nearest double, so any number that lies nearer to a
-- double than half way to its neighbours is rounded to that double.
import Mathlib
import RegionLayout.Number.Decimal

namespace RegionLayout.Number

open Float.Model Float.Model.UnpackedFloat

/-! ## A mantissa and what was dropped from it -/

/-- What the mantissa comes to with its round bit, in units of the mantissa. -/
def kept (em : ExtendedMantissa) : ℚ := em.mantissa + if em.roundBit then 1 / 2 else 0

/-- The mantissa is `x` cut off after the round bit, and the sticky bit tells whether the cut
dropped something. -/
structure CutOff (em : ExtendedMantissa) (x : ℚ) : Prop where
  low : kept em ≤ x
  high : x < kept em + 1 / 2
  sticky : em.stickyBit = true ↔ kept em < x

namespace CutOff

variable {em : ExtendedMantissa} {x : ℚ}

theorem exact (m : ℕ) : CutOff (.ofMantissaAndAccuracy m .exact) m := by
  constructor <;> simp [ExtendedMantissa.ofMantissaAndAccuracy, kept]

/-- A whole number and a proper fraction, cut off to the whole number. -/
theorem inexact (m : ℕ) {t : ℚ} (h0 : 0 < t) (h1 : t < 1) :
    CutOff (.ofMantissaAndAccuracy m (.inexact (compare t (1 / 2)))) (m + t) := by
  rcases lt_trichotomy t (1 / 2) with h | h | h
  · rw [compare_lt_iff_lt.2 h]
    constructor <;> simp [ExtendedMantissa.ofMantissaAndAccuracy, kept] <;> linarith
  · rw [compare_eq_iff_eq.2 h]
    constructor <;> simp [ExtendedMantissa.ofMantissaAndAccuracy, kept] <;> linarith
  · rw [compare_gt_iff_gt.2 h]
    constructor <;> simp [ExtendedMantissa.ofMantissaAndAccuracy, kept] <;> linarith

/-- A quotient cut off to a whole number, with the accuracy its remainder tells. -/
theorem quotient (num : ℕ) {den : ℕ} (hd : 0 < den) :
    CutOff (.ofMantissaAndAccuracy (num / den) (accuracyOfFraction (num % den) den))
      ((num : ℚ) / den) := by
  have hd' : (0 : ℚ) < den := by exact_mod_cast hd
  have hsplit : (num : ℚ) / den = (num / den : ℕ) + ((num % den : ℕ) : ℚ) / den := by
    have : (num : ℚ) = den * (num / den : ℕ) + (num % den : ℕ) := by
      exact_mod_cast (Nat.div_add_mod num den).symm
    field_simp
    linarith
  have hlt : ((num % den : ℕ) : ℚ) < den := by exact_mod_cast Nat.mod_lt num hd
  rw [hsplit]
  generalize num % den = r at *
  unfold accuracyOfFraction
  split
  case isTrue hr => simpa [hr] using exact (num / den)
  case isFalse hr =>
    have hr' : (0 : ℚ) < r := by exact_mod_cast Nat.pos_of_ne_zero hr
    have hhalf : compare (2 * r) den = compare ((r : ℚ) / den) (1 / 2) := by
      rcases lt_trichotomy (2 * r) den with h | h | h
      · have : (2 * r : ℚ) < den := by exact_mod_cast h
        rw [compare_lt_iff_lt.2 h, compare_lt_iff_lt.2 ((div_lt_iff₀ hd').2 (by linarith))]
      · have : (2 * r : ℚ) = den := by exact_mod_cast h
        rw [compare_eq_iff_eq.2 h, compare_eq_iff_eq.2 ((div_eq_iff hd'.ne').2 (by linarith))]
      · have : (den : ℚ) < 2 * r := by exact_mod_cast h
        rw [compare_gt_iff_gt.2 h, compare_gt_iff_gt.2 ((lt_div_iff₀ hd').2 (by linarith))]
    rw [hhalf]
    exact inexact _ (div_pos hr' hd') ((div_lt_one hd').2 hlt)

theorem floor (h : CutOff em x) : em.mantissa ≤ x ∧ x < em.mantissa + 1 := by
  obtain ⟨m, round, sticky⟩ := em
  obtain ⟨low, high, -⟩ := h
  cases round <;> simp [kept] at * <;> constructor <;> linarith

theorem shiftRightOne (h : CutOff em x) : CutOff em.shiftRightOne (x / 2) := by
  obtain ⟨m, round, sticky⟩ := em
  obtain ⟨low, high, hsticky⟩ := h
  have hm : (m : ℚ) = (m % 2 : ℕ) + 2 * (m / 2 : ℕ) := by exact_mod_cast (Nat.mod_add_div m 2).symm
  rcases Nat.mod_two_eq_zero_or_one m with hbit | hbit <;> rw [hbit] at hm <;>
    cases round <;> cases sticky <;>
    simp [kept] at low high hsticky <;>
    constructor <;>
    simp [ExtendedMantissa.shiftRightOne, kept, hbit] at * <;> linarith

theorem shiftRight (h : CutOff em x) (n : ℕ) : CutOff (em >>> n) (x / 2 ^ n) := by
  change CutOff (n.repeat ExtendedMantissa.shiftRightOne em) _
  induction n with
  | zero => simpa [Nat.repeat] using h
  | succ n ih =>
    rw [Nat.repeat, pow_succ, ← div_div]
    exact ih.shiftRightOne

/-- The rounded mantissa is the whole number nearest to `x`, of two the even one. -/
theorem rounded (h : CutOff em x) {n : ℕ} (hlow : (n : ℚ) - 1 / 2 ≤ x)
    (hhigh : x ≤ n + 1 / 2) (htie : n % 2 = 1 → (n : ℚ) - 1 / 2 < x ∧ x < n + 1 / 2) :
    em.roundedMantissa = n := by
  obtain ⟨m, round, sticky⟩ := em
  obtain ⟨low, high, hsticky⟩ := h
  have hle : m ≤ n := by
    have : (m : ℚ) < n + 1 := by
      cases round <;> simp [kept] at low high <;> linarith
    exact_mod_cast Nat.lt_succ_iff.1 (by exact_mod_cast this)
  have hge : n ≤ m + 1 := by
    have : (n : ℚ) < m + 2 := by
      cases round <;> simp [kept] at low high <;> linarith
    exact_mod_cast Nat.lt_succ_iff.1 (by exact_mod_cast this)
  unfold ExtendedMantissa.roundedMantissa
  -- a tie is the round bit alone: it goes to the even neighbour
  obtain rfl | rfl : n = m ∨ n = m + 1 := by omega
  · cases round <;> cases sticky <;> simp [kept] at * <;>
      simp [ExtendedMantissa.accuracy, Accuracy.roundToNearestEven]
    · by_contra hodd
      linarith [(htie (by omega)).2]
    · linarith
  · cases round <;> cases sticky <;> simp [kept] at * <;>
      simp [ExtendedMantissa.accuracy, Accuracy.roundToNearestEven]
    · linarith
    · linarith
    · by_contra heven
      linarith [(htie (by omega)).1]

end CutOff

/-! ## The doubles and what is near them -/

/-- A significand and an exponent as a double stores them. Below the least exponent there is
none, so there the significand may be short of its leading bit. -/
structure Stored (m : ℕ) (q : ℤ) : Prop where
  pos : 0 < m
  bound : m < 2 ^ 53
  least : -1074 ≤ q
  most : q ≤ 971
  lead : 2 ^ 52 ≤ m ∨ q = -1074

/-- Half the way from `m · 2 ^ q` to the double below it, in units of `2 ^ q`. The double below
a power of two is only half as far. -/
def halfBelow (m : ℕ) (q : ℤ) : ℚ := if m = 2 ^ 52 ∧ -1074 < q then 1 / 4 else 1 / 2

/-- No further from `m · 2 ^ q` than half the way to the doubles next to it, and nearer than
that unless the significand is even. -/
structure Near (m : ℕ) (q : ℤ) (x : ℚ) : Prop where
  low : (m - halfBelow m q) * 2 ^ q ≤ x
  high : x ≤ (m + 1 / 2) * 2 ^ q
  odd : m % 2 = 1 → (m - halfBelow m q) * 2 ^ q < x ∧ x < (m + 1 / 2) * 2 ^ q

theorem halfBelow_le (m : ℕ) (q : ℤ) : halfBelow m q ≤ 1 / 2 := by
  unfold halfBelow
  split <;> norm_num

theorem halfBelow_pos (m : ℕ) (q : ℤ) : 0 < halfBelow m q := by
  unfold halfBelow
  split <;> norm_num

/-- A double is near itself. -/
theorem Near.self (m : ℕ) (q : ℤ) : Near m q (m * 2 ^ q) := by
  have hpos : (0 : ℚ) < 2 ^ q := zpow_pos two_pos q
  have hlow : (m - halfBelow m q) * 2 ^ q < m * 2 ^ q := by
    gcongr
    linarith [halfBelow_pos m q]
  have hhigh : (m : ℚ) * 2 ^ q < (m + 1 / 2) * 2 ^ q := by
    gcongr
    linarith
  exact ⟨hlow.le, hhigh.le, fun _ => ⟨hlow, hhigh⟩⟩

theorem log2_mul_two_pow {m : ℕ} (hm : 0 < m) (k : ℕ) : (m * 2 ^ k).log2 = m.log2 + k := by
  rw [Nat.log2_eq_iff (by positivity)]
  have hm := (Nat.log2_eq_iff hm.ne').1 rfl
  rw [pow_add, add_right_comm, pow_add]
  exact ⟨Nat.mul_le_mul_right _ hm.1, Nat.mul_lt_mul_of_pos_right hm.2 (by positivity)⟩

/-- A mantissa lengthened by some bits, at the exponent that is as much lower. -/
theorem mul_two_pow_eq (m k : ℕ) (q : ℤ) :
    ((m * 2 ^ k : ℕ) : ℚ) = m * 2 ^ q / 2 ^ (q - k) := by
  rw [zpow_sub₀ two_ne_zero, zpow_natCast]
  push_cast
  field_simp

theorem target_eq (m : ℕ) (e : ℤ) :
    Format.binary64.targetExponent (totalExponent m e) = max (m.log2 + e - 52) (-1074) := by
  simp only [Format.targetExponent, totalExponent, Format.mantissaBits, Format.minExponent]
  norm_num
  omega

theorem Stored.target {m : ℕ} {q : ℤ} (h : Stored m q) :
    Format.binary64.targetExponent (totalExponent m q) = q := by
  have hlog : m.log2 < 53 := (Nat.log2_lt h.pos.ne').2 h.bound
  have hleast := h.least
  rw [target_eq]
  rcases h.lead with hlead | hq
  · have : 52 ≤ m.log2 := (Nat.le_log2 h.pos.ne').2 hlead
    omega
  · omega

/-! ## Rounding -/

/-- Shortening a mantissa to an exponent cuts the same number off at that exponent. -/
theorem CutOff.shiftToExponent {x : ℚ} {m : ℕ} {e t : ℤ} {acc : Accuracy} (he : e ≤ t)
    (h : CutOff (.ofMantissaAndAccuracy m acc) (x / 2 ^ e)) :
    CutOff (UnpackedFloat.shiftToExponent m e acc t).1 (x / 2 ^ t) ∧
      (UnpackedFloat.shiftToExponent m e acc t).2 = t := by
  have hk : e + ((t - e).toNat : ℤ) = t := by omega
  have hpow : (2 : ℚ) ^ t = 2 ^ e * 2 ^ (t - e).toNat := by
    rw [← zpow_natCast, ← zpow_add₀ two_ne_zero, hk]
  refine ⟨?_, hk⟩
  rw [hpow, ← div_div]
  exact h.shiftRight _

/-- A mantissa at its own exponent is left as it is. -/
theorem shiftToTarget_stored {m : ℕ} {q : ℤ} (h : Stored m q) :
    shiftToTargetExponent .binary64 m q .exact = (⟨m, false, false⟩, q) := by
  unfold shiftToTargetExponent
  rw [h.target]
  simp [UnpackedFloat.shiftToExponent, HShiftRight.hShiftRight, Nat.repeat,
    ExtendedMantissa.ofMantissaAndAccuracy]

/-- A mantissa that rounding has made one bit too long loses that bit. -/
theorem shiftToTarget_carry {q : ℤ} (hq : -1074 < q) :
    shiftToTargetExponent .binary64 (2 ^ 53) (q - 1) .exact = (⟨2 ^ 52, false, false⟩, q) := by
  have ht : Format.binary64.targetExponent (totalExponent (2 ^ 53) (q - 1)) = q := by
    rw [target_eq, Nat.log2_two_pow]
    omega
  unfold shiftToTargetExponent
  rw [ht]
  simp [UnpackedFloat.shiftToExponent, HShiftRight.hShiftRight, Nat.repeat,
    ExtendedMantissa.ofMantissaAndAccuracy, ExtendedMantissa.shiftRightOne]

/-- A power below a number below a power of the same base. -/
theorem exponent_lt {b x : ℚ} {i j : ℤ} (hb : 1 < b) (hlow : b ^ i ≤ x) (hhigh : x < b ^ j) :
    i < j :=
  (zpow_lt_zpow_iff_right₀ hb).1 (hlow.trans_lt hhigh)

theorem pow_mul_zpow {b : ℚ} (hb : b ≠ 0) (i : ℕ) (j : ℤ) : b ^ i * b ^ j = b ^ (i + j) := by
  rw [← zpow_natCast, ← zpow_add₀ hb]

theorem Near.lt {m : ℕ} {q : ℤ} {x : ℚ} (h : Stored m q) (hx : Near m q x) :
    x < 2 ^ (53 + q) := by
  have hm : (m : ℚ) + 1 ≤ 2 ^ 53 := by exact_mod_cast h.bound
  calc x ≤ (m + 1 / 2) * 2 ^ q := hx.high
    _ < 2 ^ 53 * 2 ^ q := by gcongr; linarith
    _ = 2 ^ (53 + q) := pow_mul_zpow two_ne_zero 53 q

/-- No number near a double overflows, and none is lost below the smallest double. -/
theorem Near.bounds {m : ℕ} {q : ℤ} {x : ℚ} (h : Stored m q) (hx : Near m q x) :
    2 ^ (-1075 : ℤ) ≤ x ∧ x < 2 ^ (1024 : ℤ) := by
  have hm : (1 : ℚ) ≤ m := by exact_mod_cast h.pos
  have hhalf := halfBelow_le m q
  have hleast := h.least
  have hmost := h.most
  constructor
  · calc (2 : ℚ) ^ (-1075 : ℤ) ≤ 2 ^ (q - 1) := zpow_le_zpow_right₀ one_le_two (by omega)
      _ = 1 / 2 * 2 ^ q := by rw [zpow_sub_one₀ two_ne_zero]; ring
      _ ≤ (m - halfBelow m q) * 2 ^ q := by gcongr; linarith
      _ ≤ x := hx.low
  · exact (hx.lt h).trans_le (zpow_le_zpow_right₀ one_le_two (by omega))

/-- A number near a double with a leading bit has that bit too, unless the bit is all there is
of the significand and the number is below it. -/
theorem Near.le {m : ℕ} {q : ℤ} {x : ℚ} (hx : Near m q x) (hlead : 2 ^ 52 ≤ m) :
    2 ^ (51 + q) ≤ x ∧ (m ≠ 2 ^ 52 → 2 ^ (52 + q) ≤ x) := by
  have hm : (2 : ℚ) ^ 52 ≤ m := by exact_mod_cast hlead
  have hhalf := halfBelow_le m q
  constructor
  · calc (2 : ℚ) ^ (51 + q) = 2 ^ 51 * 2 ^ q := (pow_mul_zpow two_ne_zero 51 q).symm
      _ ≤ (m - halfBelow m q) * 2 ^ q := by gcongr; linarith
      _ ≤ x := hx.low
  · intro hne
    have hm : (2 : ℚ) ^ 52 + 1 ≤ m := by exact_mod_cast hlead.lt_of_ne' hne
    calc (2 : ℚ) ^ (52 + q) = 2 ^ 52 * 2 ^ q := (pow_mul_zpow two_ne_zero 52 q).symm
      _ ≤ (m - halfBelow m q) * 2 ^ q := by gcongr; linarith
      _ ≤ x := hx.low

/-- The exponent that a number near a double is rounded at: the double's own, or the one below
it for a number below a power of two. -/
theorem Near.exponent {m : ℕ} {q : ℤ} {x : ℚ} (h : Stored m q) (hx : Near m q x) {n : ℕ} {e : ℤ}
    (hlow : (n : ℚ) ≤ x / 2 ^ e) (hhigh : x / 2 ^ e < n + 1)
    (he : e ≤ max (n.log2 + e - 52) (-1074)) :
    max (n.log2 + e - 52) (-1074) = q ∨
      max (n.log2 + e - 52) (-1074) = q - 1 ∧ m = 2 ^ 52 ∧ -1074 < q ∧ x < 2 ^ (52 + q) := by
  have hpos : (0 : ℚ) < 2 ^ e := zpow_pos two_pos e
  rw [le_div_iff₀ hpos] at hlow
  rw [div_lt_iff₀ hpos] at hhigh
  have hleast := h.least
  have habove : x < 2 ^ ((n.log2 + 1 : ℕ) + e) := by
    have hn : (n : ℚ) + 1 ≤ 2 ^ (n.log2 + 1) := by exact_mod_cast Nat.lt_log2_self
    calc x < (n + 1) * 2 ^ e := hhigh
      _ ≤ 2 ^ (n.log2 + 1) * 2 ^ e := by gcongr
      _ = 2 ^ ((n.log2 + 1 : ℕ) + e) := pow_mul_zpow two_ne_zero _ e
  have hle : max (n.log2 + e - 52) (-1074) ≤ q := by
    by_cases hn : n = 0
    · rw [hn, Nat.log2_zero] at he ⊢
      omega
    · have hbelow : 2 ^ (n.log2 + e) ≤ x := by
        have hn : (2 : ℚ) ^ n.log2 ≤ n := by exact_mod_cast Nat.log2_self_le hn
        calc (2 : ℚ) ^ (n.log2 + e) = 2 ^ n.log2 * 2 ^ e := (pow_mul_zpow two_ne_zero _ e).symm
          _ ≤ n * 2 ^ e := by gcongr
          _ ≤ x := hlow
      have := exponent_lt one_lt_two hbelow (hx.lt h)
      omega
  by_cases hq : max (n.log2 + e - 52) (-1074) = q
  · exact .inl hq
  · have hlead : 2 ^ 52 ≤ m := h.lead.resolve_right (by omega)
    have hlast := exponent_lt one_lt_two (hx.le hlead).1 habove
    have hm : m = 2 ^ 52 := by
      by_contra hne
      have := exponent_lt one_lt_two ((hx.le hlead).2 hne) habove
      omega
    have hup : (2 : ℚ) ^ ((n.log2 + 1 : ℕ) + e) ≤ 2 ^ (52 + q) :=
      zpow_le_zpow_right₀ one_le_two (by omega)
    exact .inr ⟨by omega, hm, by omega, habove.trans_le hup⟩

/-- What the first shortening of a number near a double rounds to: the double's significand, or
twice that at the exponent below. -/
theorem Near.rounded {m : ℕ} {q : ℤ} {x : ℚ} (hx : Near m q x) {em : ExtendedMantissa}
    (hcut : CutOff em (x / 2 ^ q)) : em.roundedMantissa = m := by
  have hpos : (0 : ℚ) < 2 ^ q := zpow_pos two_pos q
  have hhalf := halfBelow_le m q
  apply hcut.rounded
  · have := (le_div_iff₀ hpos).2 hx.low
    linarith
  · exact (div_le_iff₀ hpos).2 hx.high
  · intro hodd
    have hlow := (lt_div_iff₀ hpos).2 (hx.odd hodd).1
    exact ⟨by linarith, (div_lt_iff₀ hpos).2 (hx.odd hodd).2⟩

theorem Near.rounded_below {q : ℤ} {x : ℚ} (hx : Near (2 ^ 52) q x) (hq : -1074 < q)
    (hlt : x < 2 ^ (52 + q)) {em : ExtendedMantissa} (hcut : CutOff em (x / 2 ^ (q - 1))) :
    em.roundedMantissa = 2 ^ 53 := by
  have hpos : (0 : ℚ) < 2 ^ (q - 1) := zpow_pos two_pos (q - 1)
  have htwice : (2 : ℚ) ^ q = 2 * 2 ^ (q - 1) := by
    rw [← zpow_one_add₀ two_ne_zero, add_sub_cancel]
  have hhalf : halfBelow (2 ^ 52) q = 1 / 4 := if_pos ⟨rfl, hq⟩
  have hlow := hx.low
  rw [hhalf, htwice, ← mul_assoc, ← le_div_iff₀ hpos] at hlow
  have htop : (2 : ℚ) ^ (52 + q) = 2 ^ 52 * 2 ^ q := (pow_mul_zpow two_ne_zero 52 q).symm
  rw [htop, htwice, ← mul_assoc, ← div_lt_iff₀ hpos] at hlt
  push_cast at hlow
  apply hcut.rounded
  · push_cast
    linarith
  · push_cast
    linarith
  · intro hodd
    simp at hodd

/-- The two steps of a rounding: shorten and round, and then shorten what has become too
long. -/
theorem round_eq {n k m : ℕ} {e t q : ℤ} {acc : Accuracy} {em : ExtendedMantissa} {r b : Bool}
    (hfirst : shiftToTargetExponent .binary64 n e acc = (em, t)) (hk : em.roundedMantissa = k)
    (hsecond : shiftToTargetExponent .binary64 k t .exact = (⟨m, r, b⟩, q)) (hm : 0 < m)
    (s : Sign) : roundWithAccuracy .binary64 s n e acc = .finite s m q hm := by
  simp only [roundWithAccuracy, hfirst, hk, hsecond, hm.ne', ↓reduceDIte]

/-- Any number near a double rounds to it, whatever mantissa the number was cut off to. -/
theorem round_of_near {m : ℕ} {q : ℤ} {x : ℚ} (h : Stored m q) (hx : Near m q x) (s : Sign)
    {n : ℕ} {e : ℤ} {acc : Accuracy} (hcut : CutOff (.ofMantissaAndAccuracy n acc) (x / 2 ^ e))
    (he : e ≤ Format.binary64.targetExponent (totalExponent n e)) :
    roundWithAccuracy .binary64 s n e acc = .finite s m q h.pos := by
  obtain ⟨hfirst, hat⟩ := hcut.shiftToExponent he
  have hn : (ExtendedMantissa.ofMantissaAndAccuracy n acc).mantissa = n := by
    rcases acc with _ | (_ | _ | _) <;> rfl
  have hexponent := hx.exponent h (hn ▸ hcut.floor.1) (hn ▸ hcut.floor.2) (target_eq n e ▸ he)
  have hstep : shiftToTargetExponent .binary64 n e acc =
      ((shiftToTargetExponent .binary64 n e acc).1,
        Format.binary64.targetExponent (totalExponent n e)) := Prod.ext rfl hat
  change CutOff (shiftToTargetExponent .binary64 n e acc).1 _ at hfirst
  rw [target_eq] at hfirst hstep
  rcases hexponent with hq | ⟨hq, rfl, hleast, hlt⟩ <;> rw [hq] at hfirst hstep
  · exact round_eq hstep (hx.rounded hfirst) (shiftToTarget_stored h) h.pos s
  · exact round_eq hstep (hx.rounded_below hleast hlt hfirst) (shiftToTarget_carry hleast) h.pos s

end RegionLayout.Number
