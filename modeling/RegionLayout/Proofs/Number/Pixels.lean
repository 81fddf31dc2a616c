-- The pixel that a number is rounded to. A finite number stands for a rational, and its pixel is the
-- whole number nearest to that, a half going away from zero, held to thirty-two bits.
import RegionLayout.Number.Scalar
import Mathlib.Data.Rat.Floor
import Mathlib.Tactic.FieldSimp
import Mathlib.Tactic.Linarith
import Mathlib.Tactic.Ring

namespace RegionLayout.Number

/-! ## The nearest whole number -/

/-- The whole number nearest to a rational, a half going away from zero. -/
def pixel (q : ℚ) : ℤ := if q < 0 then -⌊-q + 1 / 2⌋ else ⌊q + 1 / 2⌋

variable {q x : ℚ} {n : ℤ} {num den : ℕ}

theorem pixel_le (q : ℚ) : (pixel q : ℚ) ≤ q + 1 / 2 := by
  unfold pixel
  split
  · have hlt := Int.lt_floor_add_one (-q + 1 / 2)
    push_cast
    linarith
  · exact Int.floor_le _

/-- A whole number that is less than a half above is not above the pixel. -/
theorem le_pixel (h : n < q + 1 / 2) : n ≤ pixel q := by
  unfold pixel
  split
  · have hle : ⌊-q + 1 / 2⌋ < -n + 1 := by
      rw [Int.floor_lt]
      push_cast
      linarith
    omega
  · exact Int.le_floor.2 h.le

theorem nearestQuotient_eq (num : ℕ) (hd : 0 < den) :
    (nearestQuotient num den : ℤ) = ⌊(num : ℚ) / den + 1 / 2⌋ := by
  have hden : (den : ℚ) ≠ 0 := by exact_mod_cast hd.ne'
  have hsum : (num : ℚ) / den + 1 / 2 = ((2 * num + den : ℕ) : ℚ) / ((2 * den : ℕ) : ℚ) := by
    push_cast
    field_simp
  rw [hsum, Rat.floor_natCast_div_natCast]
  rfl

/-- A size is rounded before it gets its sign back. -/
theorem signed_nearestQuotient (negative : Bool) (num : ℕ) (hd : 0 < den) :
    signed negative (nearestQuotient num den) =
      pixel (if negative then -((num : ℚ) / den) else (num : ℚ) / den) := by
  have hsize : 0 ≤ (num : ℚ) / den := by positivity
  have hround := nearestQuotient_eq num hd
  unfold signed pixel
  cases negative with
  | false => simp [not_lt.2 hsize, hround]
  | true =>
    rw [if_pos rfl, if_pos rfl]
    split
    · rw [neg_neg, hround]
    · have hzero : (num : ℚ) / den = 0 := by linarith
      rw [hzero] at hround ⊢
      rw [hround]
      norm_num

/-- The pixels of thirty-two bits, from this one to `greatest`. -/
def least : ℤ := -2147483648

def greatest : ℤ := 2147483647

theorem saturate_le (h : least ≤ n) : saturate n ≤ n := by
  unfold saturate
  unfold least at h
  omega

theorem le_saturate (h : n ≤ greatest) : n ≤ saturate n := by
  unfold saturate
  unfold greatest at h
  omega

theorem least_le_saturate (n : ℤ) : least ≤ saturate n := le_max_left ..

/-- The whole numbers that thirty-two bits hold. -/
def Fits (n : ℤ) : Prop := least ≤ n ∧ n ≤ greatest

instance (n : ℤ) : Decidable (Fits n) := inferInstanceAs (Decidable (_ ∧ _))

theorem wrapAround_of_fits (h : Fits n) : wrapAround n = n := by
  unfold Fits least greatest at h
  exact Int.bmod_eq_of_le (by omega) (by omega)

/-- What passes the upper end comes out below itself. -/
theorem wrapAround_le (h : least ≤ n) : wrapAround n ≤ n := by
  unfold wrapAround
  unfold least at h
  rw [Int.bmod_def]
  split <;> omega

/-! ## What a double stands for -/

theorem binaryQuotient_eq (m : ℕ) (e : ℤ) :
    ((binaryQuotient m e).1 : ℚ) / (binaryQuotient m e).2 = m * 2 ^ e := by
  have hpow : (2 : ℚ) ^ e = 2 ^ e.toNat / 2 ^ (-e).toNat := by
    rw [← zpow_natCast, ← zpow_natCast, ← zpow_sub₀ two_ne_zero, Int.toNat_sub_toNat_neg]
  change ((m * 2 ^ e.toNat : ℕ) : ℚ) / (2 ^ (-e).toNat : ℕ) = _
  rw [hpow]
  push_cast
  exact mul_div_assoc ..

/-- The rational that a finite double is. -/
def Binary64.value? : Binary64 → Option ℚ
  | finite negative m e => some (if negative then -(m * 2 ^ e) else m * 2 ^ e)
  | _ => none

theorem Binary64.round_of_value {b : Binary64} (h : b.value? = some q) :
    b.round = saturate (pixel q) := by
  cases b with
  | nan | infinite => cases h
  | finite negative m e =>
    have hden : 0 < (binaryQuotient m e).2 := Nat.pow_pos (by decide)
    obtain rfl := Option.some.inj h
    rw [← binaryQuotient_eq, ← signed_nearestQuotient negative _ hden]
    rfl

end RegionLayout.Number

namespace RegionLayout

open Number

/-! ## What a number stands for -/

/-- Some numbers stand for a rational, and these have its pixel. -/
class Valued (R : Type) [Scalar R] where
  value? : R → Option ℚ
  round_of_value : ∀ {x : R} {q : ℚ}, value? x = some q → Scalar.round x = saturate (pixel q)

/-- Doubles that are finite. -/
instance : Valued Float where
  value? x := (Binary64.ofFloat x).value?
  round_of_value h := Binary64.round_of_value h

instance : Valued Rat where
  value? := some
  round_of_value := by
    intro x q h
    obtain rfl := Option.some.inj h
    have hsize : (if decide (x.num < 0) then -((x.num.natAbs : ℚ) / x.den)
        else (x.num.natAbs : ℚ) / x.den) = x := by
      conv_rhs => rw [← Rat.num_div_den x]
      by_cases hneg : x.num < 0
      · have habs : (x.num.natAbs : ℤ) = -x.num := by omega
        rw [if_pos (by simpa using hneg), ← Int.cast_natCast (R := ℚ) x.num.natAbs, habs]
        push_cast
        ring
      · have habs : (x.num.natAbs : ℤ) = x.num := by omega
        rw [if_neg (by simpa using hneg), ← Int.cast_natCast (R := ℚ) x.num.natAbs, habs]
    change saturate (signed (x.num < 0) (nearestQuotient x.num.natAbs x.den)) = _
    rw [signed_nearestQuotient _ _ x.den_pos, hsize]

namespace Valued

variable {R : Type} [Scalar R] [Valued R] {x : R} {q : ℚ} {n : ℤ}

theorem round_le (h : value? x = some q) (hq : least ≤ q) : (Scalar.round x : ℚ) ≤ q + 1 / 2 := by
  have hlow : least ≤ pixel q := le_pixel (by linarith)
  rw [round_of_value h]
  calc (saturate (pixel q) : ℚ) ≤ pixel q := by exact_mod_cast saturate_le hlow
    _ ≤ q + 1 / 2 := pixel_le q

theorem le_round (h : value? x = some q) (hq : q ≤ greatest) (hn : n < q + 1 / 2) :
    n ≤ Scalar.round x := by
  have hhigh : pixel q ≤ greatest := by
    have hpixel := pixel_le q
    have hlt : (pixel q : ℚ) < greatest + 1 := by linarith
    exact Int.lt_add_one_iff.1 (by exact_mod_cast hlt)
  rw [round_of_value h]
  exact (le_pixel hn).trans (le_saturate hhigh)

theorem round_nonneg (h : value? x = some q) (hq : 0 ≤ q) : 0 ≤ Scalar.round x := by
  have hpixel : 0 ≤ pixel q := le_pixel (by push_cast; linarith)
  rw [round_of_value h]
  unfold saturate
  omega

end Valued

end RegionLayout
