-- Doubles as sign, significand and exponent. Packing loses nothing that a double can hold, so two
-- finite doubles of the same parts are the same double, and what multiplication by a unit, adding
-- to a zero and the two comparisons with the threshold do can be read off the parts.
import RegionLayout.Number.Scalar
import RegionLayout.Proofs.Number.Rounding

namespace RegionLayout.Number

open Float.Model Float.Model.UnpackedFloat

/-! ## The bits of a double -/

/-- The first bit of a double, as a number. -/
def signBit : Sign → ℕ
  | .negative => 1
  | .positive => 0

/-- The bits of a double, as a number. The leading bit of a significand is not written; where it
is there it counts one into the exponent. -/
def bitsOf (s : Sign) (m : ℕ) (q : ℤ) : ℕ := signBit s * 2 ^ 63 + ((q + 1074).toNat * 2 ^ 52 + m)

/-- The sign that the first bit of a double says. -/
def signOf (bits : ℕ) : Sign := if bits / 2 ^ 63 % 2 = 0 then .positive else .negative

section Bits

variable (b : BitVec Format.binary64.numBits)

theorem unpackMantissa_toNat : (unpackMantissa b).toNat = b.toNat % 2 ^ 52 := by
  simp [unpackMantissa, BitVec.extractLsb_toNat]

theorem unpackExponent_toNat : (unpackExponent b).toNat = b.toNat / 2 ^ 52 % 2 ^ 11 := by
  simp [unpackExponent, BitVec.extractLsb_toNat, Nat.shiftRight_eq_div_pow]

theorem unpackSign_toNat : (unpackSign b).toNat = b.toNat / 2 ^ 63 % 2 := by
  simp [unpackSign, BitVec.extractLsb_toNat, Nat.shiftRight_eq_div_pow]

theorem ofBitVec_unpackSign : Sign.ofBitVec (unpackSign b) = signOf b.toNat := by
  have hzero : unpackSign b = 0#1 ↔ b.toNat / 2 ^ 63 % 2 = 0 := by
    rw [← BitVec.toNat_inj, unpackSign_toNat]
    rfl
  simp only [Sign.ofBitVec, signOf, hzero]

/-- The parts of a double, read off its bits as a number. -/
theorem unpack_eq : UnpackedFloat.unpack .binary64 b =
    if b.toNat / 2 ^ 52 % 2 ^ 11 = 2047 then
      if b.toNat % 2 ^ 52 = 0 then .infinity (signOf b.toNat) else .notANumber
    else if b.toNat / 2 ^ 52 % 2 ^ 11 = 0 then
      if h : b.toNat % 2 ^ 52 = 0 then .zero (signOf b.toNat)
      else .finite (signOf b.toNat) (b.toNat % 2 ^ 52) (-1074) (Nat.pos_of_ne_zero h)
    else .finite (signOf b.toNat) (2 ^ 52 + b.toNat % 2 ^ 52)
      ((b.toNat / 2 ^ 52 % 2 ^ 11 : ℕ) - 1075) (by positivity) := by
  have hones : unpackExponent b = -1#_ ↔ b.toNat / 2 ^ 52 % 2 ^ 11 = 2047 := by
    rw [← BitVec.toNat_inj, unpackExponent_toNat]
    rfl
  have hnone : unpackExponent b = 0#_ ↔ b.toNat / 2 ^ 52 % 2 ^ 11 = 0 := by
    rw [← BitVec.toNat_inj, unpackExponent_toNat]
    rfl
  have hempty : unpackMantissa b = 0#_ ↔ b.toNat % 2 ^ 52 = 0 := by
    rw [← BitVec.toNat_inj, unpackMantissa_toNat]
    rfl
  have hlead : (1#1 ++ unpackMantissa b).toNat = 2 ^ 52 + b.toNat % 2 ^ 52 := by
    rw [BitVec.toNat_append, ← Nat.shiftLeft_add_eq_or_of_lt (unpackMantissa b).isLt,
      unpackMantissa_toNat]
    rfl
  have hbias : (Format.binary64.exponentBias : ℤ) + Format.binary64.mantissaBitsWithoutImplicit =
    1075 := rfl
  unfold UnpackedFloat.unpack
  simp only [hones, hnone, hempty, hlead, ofBitVec_unpackSign, unpackExponent_toNat,
    unpackMantissa_toNat, hbias]
  split_ifs with _ _ h0
  · rfl
  · rfl
  · rfl
  · rw [h0]
    rfl
  · rfl

theorem signOf_signBit (s : Sign) {n : ℕ} (h : n < 2 ^ 63) :
    signOf (signBit s * 2 ^ 63 + n) = s := by
  cases s
  · rw [signOf, if_neg]
    simp only [signBit]
    omega
  · rw [signOf, if_pos]
    simp only [signBit]
    omega

theorem signBit_signOf {bits : ℕ} (h : bits < 2 ^ 64) : signBit (signOf bits) = bits / 2 ^ 63 := by
  unfold signOf
  split <;> simp only [signBit] <;> omega

/-- A finite double by its bits. -/
theorem unpack_finite_iff {s : Sign} {m : ℕ} {q : ℤ} (hm : 0 < m) :
    UnpackedFloat.unpack .binary64 b = .finite s m q hm ↔ Stored m q ∧ b.toNat = bitsOf s m q := by
  have hb : b.toNat < 2 ^ 64 := b.isLt
  have hsign := signBit_signOf hb
  rw [unpack_eq]
  constructor
  · intro h
    split_ifs at h
    · obtain ⟨rfl, rfl, rfl⟩ := UnpackedFloat.finite.inj h
      refine ⟨⟨hm, by omega, by omega, by omega, by omega⟩, ?_⟩
      simp only [bitsOf, hsign]
      omega
    · obtain ⟨rfl, rfl, rfl⟩ := UnpackedFloat.finite.inj h
      refine ⟨⟨hm, by omega, by omega, by omega, by omega⟩, ?_⟩
      simp only [bitsOf, hsign]
      omega
  · rintro ⟨hstored, hbits⟩
    obtain ⟨-, hbound, hleast, hmost, hlead⟩ := hstored
    have hs : signOf b.toNat = s := by
      rw [hbits]
      exact signOf_signBit s (by omega)
    have hs2 : signBit s ≤ 1 := by cases s <;> simp [signBit]
    unfold bitsOf at hbits
    rcases hlead with hlead | rfl
    · rw [if_neg (by omega), if_neg (by omega)]
      congr 1 <;> omega
    · by_cases hlead : 2 ^ 52 ≤ m
      · rw [if_neg (by omega), if_neg (by omega)]
        congr 1 <;> omega
      · rw [if_neg (by omega), if_pos (by omega), dif_neg (by omega)]
        congr 1
        omega

theorem unpack_zero_iff {s : Sign} :
    UnpackedFloat.unpack .binary64 b = .zero s ↔ b.toNat = signBit s * 2 ^ 63 := by
  have hb : b.toNat < 2 ^ 64 := b.isLt
  have hsign := signBit_signOf hb
  rw [unpack_eq]
  constructor
  · intro h
    split_ifs at h
    obtain rfl := UnpackedFloat.zero.inj h
    omega
  · intro hbits
    have hs : signOf b.toNat = s := by
      rw [hbits, ← Nat.add_zero (signBit s * 2 ^ 63)]
      exact signOf_signBit s (by norm_num)
    have hs2 : signBit s ≤ 1 := by cases s <;> simp [signBit]
    rw [if_neg (by omega), if_pos (by omega), dif_pos (by omega), hs]

end Bits

theorem packComponents_toNat (s : Sign) (e : BitVec 11) (m : BitVec 52) :
    (packComponents .binary64 s e m).toNat = signBit s * 2 ^ 63 + (e.toNat * 2 ^ 52 + m.toNat) := by
  have hs : s.toBitVec.toNat = signBit s := by cases s <;> rfl
  change (s.toBitVec ++ e ++ m).toNat = _
  rw [BitVec.toNat_append, ← Nat.shiftLeft_add_eq_or_of_lt m.isLt, BitVec.toNat_append,
    ← Nat.shiftLeft_add_eq_or_of_lt e.isLt, hs, Nat.shiftLeft_eq, Nat.shiftLeft_eq]
  ring

theorem pack_toNat {m : ℕ} {q : ℤ} (h : Stored m q) (s : Sign) :
    (UnpackedFloat.pack .binary64 (.finite s m q h.pos)).toNat = bitsOf s m q := by
  obtain ⟨hpos, hbound, hleast, hmost, hlead⟩ := h
  have hbias : (q + Format.binary64.exponentBias +
      Format.binary64.mantissaBitsWithoutImplicit).toNat = (q + 1075).toNat := by
    change (q + 1023 + 52).toNat = _
    omega
  unfold UnpackedFloat.pack
  dsimp only
  rw [hbias, if_neg (by omega)]
  by_cases hm : 2 ^ 52 ≤ m
  · have hlog : m.log2 = 52 := (Nat.log2_eq_iff hpos.ne').2 ⟨hm, hbound⟩
    rw [if_pos (by rw [hlog]; rfl), packComponents_toNat, BitVec.toNat_ofNat, BitVec.toNat_ofNat,
      bitsOf]
    omega
  · have hlog : m.log2 < 52 := (Nat.log2_lt hpos.ne').2 (by omega)
    rw [if_neg (by change ¬_ = 53; omega), packComponents_toNat, BitVec.toNat_ofNat, bitsOf]
    change signBit s * 2 ^ 63 + (0 * 2 ^ 52 + m % 2 ^ 52) = _
    omega

theorem unpack_pack {m : ℕ} {q : ℤ} (h : Stored m q) (s : Sign) :
    (Float.Model.pack (.finite s m q h.pos)).unpack = .finite s m q h.pos :=
  (unpack_finite_iff _ h.pos).2 ⟨h, pack_toNat h s⟩

theorem unpack_pack_zero (s : Sign) : (Float.Model.pack (.zero s)).unpack = .zero s := by
  cases s <;> rfl

/-! ## Doubles by their parts -/

/-- The sign, significand and exponent of a double. -/
def parts (x : Float) : UnpackedFloat := x.toModel.unpack

section Parts

variable {x y : Float} {s t : Sign} {m : ℕ} {q : ℤ} {hm : 0 < m}

theorem stored_of_parts (hx : parts x = .finite s m q hm) : Stored m q :=
  ((unpack_finite_iff _ hm).1 hx).1

theorem eq_of_toNat (h : x.toModel.toBits.toBitVec.toNat = y.toModel.toBits.toBitVec.toNat) :
    x = y := by
  obtain ⟨⟨⟨b⟩, _⟩⟩ := x
  obtain ⟨⟨⟨c⟩, _⟩⟩ := y
  obtain rfl := BitVec.eq_of_toNat_eq h
  rfl

theorem eq_of_finite (hx : parts x = .finite s m q hm) (hy : parts y = .finite s m q hm) :
    x = y :=
  eq_of_toNat (((unpack_finite_iff _ hm).1 hx).2.trans ((unpack_finite_iff _ hm).1 hy).2.symm)

theorem eq_of_zero (hx : parts x = .zero s) (hy : parts y = .zero s) : x = y :=
  eq_of_toNat (((unpack_zero_iff _).1 hx).trans ((unpack_zero_iff _).1 hy).symm)

theorem parts_pack (h : Stored m q) (s : Sign) :
    parts (.ofModel (.pack (.finite s m q h.pos))) = .finite s m q h.pos := unpack_pack h s

theorem parts_pack_zero (s : Sign) : parts (.ofModel (.pack (.zero s))) = .zero s :=
  unpack_pack_zero s

theorem ofFloat_finite (hx : parts x = .finite s m q hm) :
    Binary64.ofFloat x = .finite (s == .negative) m q := by
  obtain ⟨hstored, hbits⟩ := (unpack_finite_iff _ hm).1 hx
  obtain ⟨-, hbound, hleast, hmost, hlead⟩ := hstored
  have hs : signBit s ≤ 1 := by cases s <;> simp [signBit]
  have hfirst : (bitsOf s m q / (2048 * Binary64.hiddenBit) % 2 == 1) = (s == .negative) := by
    unfold bitsOf Binary64.hiddenBit
    cases s
    · exact beq_iff_eq.2 (by simp only [signBit]; omega)
    · exact beq_false_of_ne (by simp only [signBit]; omega)
  change Binary64.ofBits x.toModel.toBits.toBitVec.toNat = _
  rw [hbits]
  unfold Binary64.ofBits
  rw [hfirst]
  simp only [beq_iff_eq]
  unfold bitsOf Binary64.hiddenBit Binary64.leastExponent
  by_cases hm : 2 ^ 52 ≤ m
  · rw [if_neg (by omega), if_neg (by omega)]
    congr 1 <;> omega
  · rw [if_neg (by omega), if_pos (by omega)]
    congr 1 <;> omega

theorem ofFloat_zero (hx : parts x = .zero s) :
    Binary64.ofFloat x = .finite (s == .negative) 0 (-1074) := by
  change Binary64.ofBits x.toModel.toBits.toBitVec.toNat = _
  rw [(unpack_zero_iff _).1 hx]
  cases s <;> rfl

/-! ### Arithmetic -/

theorem parts_mul : parts (x * y) =
    parts (.ofModel (.pack (UnpackedFloat.mul .binary64 (parts x) (parts y)))) := rfl

theorem parts_add : parts (x + y) =
    parts (.ofModel (.pack (UnpackedFloat.add .binary64 (parts x) (parts y)))) := rfl

theorem parts_one : parts 1 = .finite .positive (2 ^ 52) (-52) (by norm_num) := rfl

theorem parts_neg_one : parts (-1) = .finite .negative (2 ^ 52) (-52) (by norm_num) := rfl

/-- The product of a significand with that of one is rounded back to the significand. -/
theorem round_mul_unit (h : Stored m q) (s : Sign) :
    roundWithAccuracy .binary64 s (m * 2 ^ 52) (q - 52) .exact = .finite s m q h.pos := by
  apply round_of_near h (.self m q)
  · have hcut := CutOff.exact (m * 2 ^ 52)
    rw [mul_two_pow_eq m 52 q] at hcut
    exact hcut
  · rw [target_eq, log2_mul_two_pow h.pos]
    have := h.least
    omega

theorem mul_unit (hx : parts x = .finite s m q hm)
    (hy : parts y = .finite t (2 ^ 52) (-52) (by norm_num)) :
    parts (x * y) = .finite (s * t) m q hm := by
  have h := stored_of_parts hx
  rw [parts_mul, hx, hy]
  change parts (.ofModel (.pack (roundWithAccuracy .binary64 (s * t) (m * 2 ^ 52) (q - 52) _))) = _
  rw [round_mul_unit h, parts_pack h]

theorem unit_mul (hx : parts x = .finite s m q hm)
    (hy : parts y = .finite t (2 ^ 52) (-52) (by norm_num)) :
    parts (y * x) = .finite (t * s) m q hm := by
  have h := stored_of_parts hx
  rw [parts_mul, hx, hy]
  change parts (.ofModel (.pack
    (roundWithAccuracy .binary64 (t * s) (2 ^ 52 * m) (-52 + q) _))) = _
  rw [mul_comm, neg_add_eq_sub, round_mul_unit h, parts_pack h]

end Parts

/-- A zero of either sign. -/
def IsZero (x : Float) : Prop := ∃ s, parts x = .zero s

/-- A finite double other than the zeros. -/
def IsRegular (x : Float) : Prop := ∃ s m q, ∃ hm : 0 < m, parts x = .finite s m q hm

variable {x y : Float}

theorem isFinite_iff : x.isFinite = true ↔ IsZero x ∨ IsRegular x := by
  change (parts x).isFinite = true ↔ _
  unfold IsZero IsRegular
  cases parts x <;> simp_all [UnpackedFloat.isFinite]

theorem IsRegular.mul_one (h : IsRegular x) : x * 1 = x := by
  obtain ⟨s, m, q, hm, hx⟩ := h
  apply eq_of_finite _ hx
  rw [mul_unit hx parts_one]
  cases s <;> rfl

theorem IsRegular.one_mul (h : IsRegular x) : 1 * x = x := by
  obtain ⟨s, m, q, hm, hx⟩ := h
  apply eq_of_finite _ hx
  rw [unit_mul hx parts_one]
  cases s <;> rfl

theorem IsRegular.zero_add (h : IsRegular x) (hy : IsZero y) : y + x = x := by
  obtain ⟨s, m, q, hm, hx⟩ := h
  obtain ⟨t, hy⟩ := hy
  apply eq_of_finite _ hx
  rw [parts_add, hx, hy]
  exact parts_pack (stored_of_parts hx) s

theorem IsZero.mul_one (h : IsZero x) : x * 1 = x := by
  obtain ⟨s, hx⟩ := h
  apply eq_of_zero _ hx
  rw [parts_mul, hx, parts_one]
  cases s <;> rfl

theorem IsZero.add (hx : IsZero x) (hy : IsZero y) : IsZero (x + y) := by
  obtain ⟨s, hx⟩ := hx
  obtain ⟨t, hy⟩ := hy
  unfold IsZero
  rw [parts_add, hx, hy]
  cases s <;> cases t <;> exact ⟨_, rfl⟩

theorem isZero_zero : IsZero 0 := ⟨.positive, rfl⟩

theorem IsRegular.zero_mul (h : IsRegular x) : IsZero (0 * x) := by
  obtain ⟨s, m, q, hm, hx⟩ := h
  unfold IsZero
  rw [parts_mul, hx, show parts 0 = .zero .positive from rfl]
  cases s <;> exact ⟨_, parts_pack_zero _⟩

/-! ### Comparison -/

theorem beq_eq : (x == y) = (UnpackedFloat.compare (parts x) (parts y) == some .eq) := rfl

theorem IsRegular.beq_self (h : IsRegular x) : (x == x) = true := by
  obtain ⟨s, m, q, hm, hx⟩ := h
  rw [beq_eq, hx]
  cases s <;> simp [UnpackedFloat.compare]

theorem IsZero.beq (hx : IsZero x) (hy : IsZero y) : (x == y) = true := by
  obtain ⟨s, hx⟩ := hx
  obtain ⟨t, hy⟩ := hy
  rw [beq_eq, hx, hy]
  rfl

theorem isZero_of_beq (h : (x == 0) = true) : IsZero x := by
  rw [beq_eq] at h
  change (UnpackedFloat.compare (parts x) (.zero .positive) == _) = _ at h
  unfold IsZero
  cases hx : parts x with
  | zero s => exact ⟨s, rfl⟩
  | notANumber => simp [hx, UnpackedFloat.compare] at h
  | infinity s => cases s <;> simp [hx, UnpackedFloat.compare] at h
  | finite s => cases s <;> simp [hx, UnpackedFloat.compare] at h

theorem IsRegular.parts_abs (h : IsRegular x) :
    ∃ m q, ∃ hm : 0 < m, parts x.abs = .finite .positive m q hm := by
  obtain ⟨s, m, q, hm, hx⟩ := h
  refine ⟨m, q, hm, ?_⟩
  change parts (.ofModel (.pack (parts x).abs)) = _
  rw [hx]
  exact parts_pack (stored_of_parts hx) .positive

theorem IsZero.parts_abs (h : IsZero x) : parts x.abs = .zero .positive := by
  obtain ⟨s, hx⟩ := h
  change parts (.ofModel (.pack (parts x).abs)) = _
  rw [hx]
  exact parts_pack_zero .positive

/-- Where the coefficients begin that are no zero. -/
theorem parts_threshold :
    parts 1e-12 = .finite .positive 4951760157141521 (-92) (by norm_num) := rfl

theorem cancels_eq : Scalar.cancels x =
    (UnpackedFloat.compare (parts x.abs) (parts 1e-12) == some .lt) :=
  Bool.decide_eq_true.trans Bool.decide_eq_true

theorem survives_eq : Scalar.survives x =
    (UnpackedFloat.compare (parts 1e-12) (parts x.abs)).any (·.isLE) :=
  Bool.decide_eq_true.trans Bool.decide_eq_true

/-- A finite double is a zero or is compared with the threshold in one of two ways. -/
theorem IsRegular.survives_eq (h : IsRegular x) : Scalar.survives x = !Scalar.cancels x := by
  obtain ⟨m, q, hm, hx⟩ := h.parts_abs
  rw [cancels_eq, Number.survives_eq, hx, parts_threshold]
  simp only [UnpackedFloat.compare]
  rw [Std.OrientedOrd.eq_swap (a := q), Std.OrientedOrd.eq_swap (a := m), ← Ordering.swap_then]
  cases (compare (-92) q).then (compare 4951760157141521 m) <;> rfl

theorem IsZero.cancels (h : IsZero x) : Scalar.cancels x = true := by
  rw [cancels_eq, h.parts_abs, parts_threshold]
  rfl

theorem IsZero.survives (h : IsZero x) : Scalar.survives x = false := by
  rw [Number.survives_eq, h.parts_abs, parts_threshold]
  rfl

end RegionLayout.Number
