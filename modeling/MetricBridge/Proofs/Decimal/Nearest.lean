import MetricBridge.Proofs.Decimal.Bits
import MetricBridge.Proofs.Text.Digits

namespace MetricBridge

open Float.Model (Format UnpackedFloat totalExponent)
open Float.Model.UnpackedFloat

theorem represents_fraction (k : Nat) {a b : Nat} (hlt : a < b) :
    Represents (.ofMantissaAndAccuracy k (accuracyOfFraction a b)) (k + a / b) := by
  have hpos : (0 : ℚ) < b := by exact_mod_cast (Nat.zero_le a).trans_lt hlt
  have hlt : (a : ℚ) < b := by exact_mod_cast hlt
  unfold accuracyOfFraction
  split
  · rename_i hzero
    simp [hzero, ExtendedMantissa.ofMantissaAndAccuracy, Represents]
  · rename_i hne
    have ha : (0 : ℚ) < a := by exact_mod_cast Nat.pos_of_ne_zero hne
    have hfraction : (a : ℚ) / b < 1 := (div_lt_one hpos).mpr hlt
    have hfraction' : (0 : ℚ) < a / b := div_pos ha hpos
    rcases lt_trichotomy (2 * a) b with h | h | h
    · have hhalf : (a : ℚ) / b < 1 / 2 := by
        rw [div_lt_div_iff₀ hpos two_pos]
        have : (2 * a : ℚ) < b := by exact_mod_cast h
        linarith
      rw [compare_lt_iff_lt.mpr h]
      simp only [ExtendedMantissa.ofMantissaAndAccuracy, Represents]
      constructor <;> linarith
    · have hhalf : (a : ℚ) / b = 1 / 2 := by
        rw [div_eq_div_iff hpos.ne' two_ne_zero]
        have : (2 * a : ℚ) = b := by exact_mod_cast h
        linarith
      rw [compare_eq_iff_eq.mpr h]
      simp only [ExtendedMantissa.ofMantissaAndAccuracy, Represents]
      linarith
    · have hhalf : 1 / 2 < (a : ℚ) / b := by
        rw [div_lt_div_iff₀ two_pos hpos]
        have : (b : ℚ) < 2 * a := by exact_mod_cast h
        linarith
      rw [compare_gt_iff_gt.mpr h]
      simp only [ExtendedMantissa.ofMantissaAndAccuracy, Represents]
      constructor <;> linarith

namespace Binary

variable {y : Binary}

theorem Covers.mul {m n : Nat} {e f : Int} (hy : y.IsFloat) (h : y.Covers (m * n * 2 ^ (e + f)))
    (hbits : 2 ^ 52 ≤ m * n ∨ e + f ≤ -1074) (s t : Sign) (hm : 0 < m) (hn : 0 < n) :
    mul .binary64 (.finite s m e hm) (.finite t n f hn) = .finite (s * t) y.mantissa y.exponent hy.pos := by
  refine h.round hy ?_ hbits (s * t)
  rw [mul_div_cancel_right₀ _ (by positivity)]
  simp [Represents, ExtendedMantissa.ofMantissaAndAccuracy]

/-- The quotient of the mantissas has enough bits. -/
theorem divCore_bits {m n : Nat} {e f target : Int} (hm : m ≠ 0) (hn : n ≠ 0)
    (htarget : target = min (e - f)
      (Format.binary64.targetExponent (totalExponent m e - totalExponent n f))) :
    2 ^ 52 ≤ (m <<< (e - f - target).toNat) / n ∨ target ≤ -1074 := by
  rw [Binary.targetExponent_eq, totalExponent, totalExponent] at htarget
  by_cases hleast : target ≤ -1074
  · exact .inr hleast
  left
  rw [Nat.le_div_iff_mul_le (Nat.pos_of_ne_zero hn), Nat.shiftLeft_eq]
  calc 2 ^ 52 * n ≤ 2 ^ 52 * 2 ^ (n.log2 + 1) := Nat.mul_le_mul_left _ Nat.lt_log2_self.le
    _ = 2 ^ (n.log2 + 53) := by rw [← Nat.pow_add]; congr 1; omega
    _ ≤ 2 ^ (m.log2 + (e - f - target).toNat) := Nat.pow_le_pow_right two_pos (by omega)
    _ = 2 ^ m.log2 * 2 ^ (e - f - target).toNat := Nat.pow_add ..
    _ ≤ m * 2 ^ (e - f - target).toNat := Nat.mul_le_mul_right _ (Nat.log2_self_le hm)

theorem Covers.div {m n : Nat} {e f : Int} (hy : y.IsFloat) (h : y.Covers (m / n * 2 ^ (e - f)))
    (s t : Sign) (hm : 0 < m) (hn : 0 < n) :
    div .binary64 (.finite s m e hm) (.finite t n f hn) = .finite (s / t) y.mantissa y.exponent hy.pos := by
  unfold UnpackedFloat.div divCore
  dsimp only
  generalize htarget :
    min (e - f) (Format.binary64.targetExponent (totalExponent m e - totalExponent n f)) = target
  have hle : target ≤ e - f := by omega
  refine h.round hy ?_ (divCore_bits hm.ne' hn.ne' htarget.symm) (s / t)
  have hshift : (m : ℚ) / n * 2 ^ (e - f) / 2 ^ target = (m <<< (e - f - target).toNat : Nat) / n := by
    rw [mul_div_assoc, ← zpow_sub₀ two_ne_zero, Nat.shiftLeft_eq, ← Int.toNat_of_nonneg (sub_nonneg.mpr hle),
      zpow_natCast, div_mul_eq_mul_div]
    push_cast
    rfl
  have hdivide : ∀ a : Nat, (a : ℚ) / n = (a / n : Nat) + (a % n : Nat) / n := fun a => by
    have hn : (n : ℚ) ≠ 0 := by exact_mod_cast hn.ne'
    rw [div_eq_iff hn, add_mul, div_mul_cancel₀ _ hn]
    exact_mod_cast (Nat.div_add_mod' a n).symm
  rw [hshift, hdivide]
  exact represents_fraction _ (Nat.mod_lt _ hn)

variable {q : ℚ}

theorem Covers.lt (h : y.Covers q) (hy : y.IsFloat) : q < 2 ^ (1024 : Int) := by
  have hunit : (0 : ℚ) < 2 ^ y.exponent := by positivity
  have hmantissa : (y.mantissa : ℚ) + 1 ≤ 2 ^ 53 := by exact_mod_cast hy.lt
  calc q ≤ (y.mantissa + 1 / 2) * 2 ^ y.exponent := (div_le_iff₀ hunit).mp h.ge
    _ < 2 ^ 53 * 2 ^ y.exponent := by
      refine mul_lt_mul_of_pos_right ?_ hunit
      linarith
    _ = 2 ^ (53 + y.exponent) := by rw [zpow_add₀ two_ne_zero]; rfl
    _ ≤ 2 ^ (1024 : Int) := zpow_le_zpow_right₀ one_le_two (by have := hy.greatest; omega)

theorem Covers.gt (h : y.Covers q) (hy : y.IsFloat) : 2 ^ (-1075 : Int) ≤ q := by
  have hunit : (0 : ℚ) < 2 ^ y.exponent := by positivity
  have hmantissa : (1 : ℚ) ≤ y.mantissa := by exact_mod_cast hy.pos
  have hhalf := y.halfBelow_le
  calc (2 : ℚ) ^ (-1075 : Int) ≤ 2 ^ (y.exponent - 1) :=
        zpow_le_zpow_right₀ one_le_two (by have := hy.least; omega)
    _ = 1 / 2 * 2 ^ y.exponent := by rw [zpow_sub_one₀ two_ne_zero]; ring
    _ ≤ (y.mantissa - y.halfBelow) * 2 ^ y.exponent := by
      refine mul_le_mul_of_nonneg_right ?_ hunit.le
      linarith
    _ ≤ q := (le_div_iff₀ hunit).mp h.le

theorem ten_zpow_eq (e : Int) : (10 : ℚ) ^ e = 2 ^ e * 5 ^ e := by
  rw [← mul_zpow]
  norm_num

/-- An exponent with which the value is nearest to a float is not out of range. -/
theorem Covers.exponent {m : Nat} {e : Int} (hy : y.IsFloat) (h : y.Covers (m * 10 ^ e)) (hm : m ≠ 0) :
    e ≤ 1024 ∧ -(1076 + (m.log2 : Int)) ≤ e := by
  have hone : (1 : ℚ) ≤ m := by exact_mod_cast Nat.pos_of_ne_zero hm
  have hpow : (0 : ℚ) < 2 ^ e := by positivity
  constructor
  · by_contra hlarge
    have hfive : (1 : ℚ) ≤ 5 ^ e := one_le_zpow₀ (by norm_num) (by omega)
    refine absurd (h.lt hy) (not_lt.mpr ?_)
    calc (2 : ℚ) ^ (1024 : Int) ≤ 2 ^ e := zpow_le_zpow_right₀ one_le_two (by omega)
      _ ≤ 2 ^ e * 5 ^ e := le_mul_of_one_le_right hpow.le hfive
      _ ≤ m * (2 ^ e * 5 ^ e) := le_mul_of_one_le_left (by positivity) hone
      _ = m * 10 ^ e := by rw [ten_zpow_eq]
  · by_contra hsmall
    have hfive : (5 : ℚ) ^ e ≤ 1 := zpow_le_one_of_nonpos₀ (by norm_num) (by omega)
    have hlog : (m : ℚ) < 2 ^ (m.log2 + 1) := by exact_mod_cast Nat.lt_log2_self
    refine absurd (h.gt hy) (not_le.mpr ?_)
    calc (m : ℚ) * 10 ^ e = m * (2 ^ e * 5 ^ e) := by rw [ten_zpow_eq]
      _ ≤ m * 2 ^ e := mul_le_mul_of_nonneg_left (mul_le_of_le_one_right hpow.le hfive) (by linarith)
      _ < 2 ^ (m.log2 + 1) * 2 ^ e := mul_lt_mul_of_pos_right hlog hpow
      _ = 2 ^ ((m.log2 + 1 : Nat) + e) := by rw [zpow_add₀ two_ne_zero, zpow_natCast]
      _ ≤ 2 ^ (-1075 : Int) := zpow_le_zpow_right₀ one_le_two (by omega)

theorem le_shiftLeft_mul {m n : Nat} (hm : m ≠ 0) (hn : 0 < n) : 2 ^ 52 ≤ m <<< 53 * n := by
  have hleft := Nat.le_mul_of_pos_left (2 ^ 53) (Nat.pos_of_ne_zero hm)
  have hright := Nat.le_mul_of_pos_right (m * 2 ^ 53) hn
  rw [Nat.shiftLeft_eq]
  omega

theorem shiftLeft_mul_eq (m n : Nat) :
    ((m <<< 53 : Nat) : ℚ) * n * 2 ^ (-53 + 0 : Int) = m * n := by
  have hpow : (2 : ℚ) ^ (-53 + 0 : Int) = 1 / 2 ^ 53 := by norm_num
  rw [hpow, Nat.shiftLeft_eq]
  push_cast
  ring

theorem div_pow_eq (m n : Nat) :
    (m : ℚ) / (10 ^ n : Nat) * 2 ^ (0 - 0 : Int) = m * 10 ^ (-n : Int) := by
  rw [Int.sub_self, zpow_zero, mul_one, div_eq_mul_inv, zpow_neg, zpow_natCast]
  push_cast
  rfl

/-- A decimal is read as the float it is nearest to. -/
theorem Covers.ofScientific {m : Nat} {e : Int} (hy : y.IsFloat) (h : y.Covers (m * 10 ^ e)) (hm : m ≠ 0) :
    UnpackedFloat.ofScientific .binary64 m e = .finite .positive y.mantissa y.exponent hy.pos := by
  obtain ⟨hlarge, hsmall⟩ := h.exponent hy hm
  have hpow : (2 ^ Format.binary64.exponentBits : Int) = 2048 := rfl
  unfold UnpackedFloat.ofScientific
  rw [dif_neg hm, if_neg (by omega), if_neg (by omega)]
  split
  · rename_i hsign
    obtain ⟨n, rfl⟩ := Int.eq_ofNat_of_zero_le hsign
    have hten : 0 < 10 ^ n := Nat.pow_pos (by decide)
    have hvalue := shiftLeft_mul_eq m (10 ^ n)
    push_cast at hvalue
    rw [zpow_natCast, ← hvalue] at h
    refine Covers.mul hy ?_ (.inl (le_shiftLeft_mul hm hten)) .positive .positive _ _
    push_cast
    exact h
  · rename_i hsign
    obtain ⟨n, rfl⟩ : ∃ n : Nat, e = -n := ⟨(-e).toNat, by omega⟩
    rw [← div_pow_eq] at h
    simp only [Int.neg_neg, Int.toNat_natCast]
    exact Covers.div hy h .positive .positive _ _

theorem halfBelow_pos (x : Binary) : 0 < x.halfBelow := by
  unfold halfBelow
  split <;> norm_num

theorem covers_self (x : Binary) : x.Covers (x.mantissa * 2 ^ x.exponent) := by
  have hpos := x.halfBelow_pos
  unfold Covers
  rw [mul_div_cancel_right₀ _ (by positivity)]
  exact ⟨.inl (by linarith), .inl (by linarith)⟩

def ofSmall (m : Nat) : Binary :=
  ⟨m * 2 ^ (52 - m.log2), (m.log2 : Int) - 52, m * 2 ^ (52 - m.log2) = 2 ^ 52⟩

section

variable {m : Nat} (hm : m ≠ 0) (hlt : m < 2 ^ 53)
include hm hlt

theorem ofSmall_ge : 2 ^ 52 ≤ (ofSmall m).mantissa := by
  have hlog := (Nat.log2_lt hm).mpr hlt
  calc 2 ^ 52 = 2 ^ m.log2 * 2 ^ (52 - m.log2) := by rw [← Nat.pow_add]; congr 1; omega
    _ ≤ m * 2 ^ (52 - m.log2) := Nat.mul_le_mul_right _ (Nat.log2_self_le hm)

theorem isFloat_ofSmall : (ofSmall m).IsFloat := by
  have hlog := (Nat.log2_lt hm).mpr hlt
  have hge := ofSmall_ge hm hlt
  refine ⟨(by omega), ?_, ?_, ?_, .inl hge, ?_⟩
  · calc m * 2 ^ (52 - m.log2) < 2 ^ (m.log2 + 1) * 2 ^ (52 - m.log2) :=
          Nat.mul_lt_mul_of_pos_right Nat.lt_log2_self (Nat.pow_pos two_pos)
      _ = 2 ^ 53 := by rw [← Nat.pow_add]; congr 1; omega
  · simp only [ofSmall]; omega
  · simp only [ofSmall]; omega
  · simp only [ofSmall, decide_eq_true_eq]; omega

theorem value_ofSmall : ((ofSmall m).mantissa : ℚ) * 2 ^ (ofSmall m).exponent = m := by
  have hlog := (Nat.log2_lt hm).mpr hlt
  have hexponent : (ofSmall m).exponent = -((52 - m.log2 : Nat) : Int) := by
    simp only [ofSmall]; omega
  rw [hexponent, zpow_neg, zpow_natCast, ofSmall]
  push_cast
  rw [mul_assoc, mul_inv_cancel₀ (by positivity), mul_one]

theorem normalize_small : UnpackedFloat.normalize .binary64 m 0 .positive =
    .finite .positive (ofSmall m).mantissa (ofSmall m).exponent (isFloat_ofSmall hm hlt).pos := by
  have hx := isFloat_ofSmall hm hlt
  have hlog := (Nat.log2_lt hm).mpr hlt
  have hshift : (0 - Format.binary64.targetExponent (totalExponent m 0)).toNat = 52 - m.log2 := by
    rw [targetExponent_eq, totalExponent]
    omega
  have hexponent : (ofSmall m).exponent = 0 - ((52 - m.log2 : Nat) : Int) := by
    simp only [ofSmall]; omega
  have hcompare : compare (m : Int) 0 = .gt := compare_gt_iff_gt.mpr (by omega)
  unfold UnpackedFloat.normalize UnpackedFloat.round decreaseExponent
  rw [hcompare]
  simp only [Int.toNat_natCast, hshift, ← hexponent, Nat.shiftLeft_eq]
  refine (value_ofSmall hm hlt ▸ (ofSmall m).covers_self).round hx ?_ (.inl (ofSmall_ge hm hlt)) .positive
  rw [← value_ofSmall hm hlt, mul_div_cancel_right₀ _ (by positivity)]
  rfl

theorem unpack_toFloat : m.toUInt64.toFloat.toModel.unpack =
    .finite .positive (ofSmall m).mantissa (ofSmall m).exponent (isFloat_ofSmall hm hlt).pos := by
  have hnat : m.toUInt64.toNat = m := by
    rw [Nat.toUInt64_eq, UInt64.toNat_ofNat', Nat.mod_eq_of_lt (by omega)]
  have hfloat : m.toUInt64.toFloat.toModel.unpack = UnpackedFloat.unpack .binary64 (UnpackedFloat.pack
      .binary64 (UnpackedFloat.normalize .binary64 m.toUInt64.toNat 0 .positive)) := rfl
  rw [hfloat, hnat, normalize_small hm hlt]
  exact (isFloat_ofSmall hm hlt).unpack_pack .positive

end

def isPowerOfTen (k : Nat) : UnpackedFloat → Bool
  | .finite .positive m e _ => 10 ^ k * 2 ^ (-e).toNat == m * 2 ^ e.toNat
  | _ => false

theorem zpow_eq_div {b : ℚ} (hb : 0 < b) (e : Int) : b ^ e = b ^ e.toNat / b ^ (-e).toNat := by
  rw [eq_div_iff (by positivity), ← zpow_natCast, ← zpow_natCast, ← zpow_add₀ hb.ne']
  congr 1
  omega

theorem exists_of_isPowerOfTen {k : Nat} {u : UnpackedFloat} (h : isPowerOfTen k u = true) :
    ∃ m e, ∃ hm : 0 < m, u = .finite .positive m e hm ∧ (m : ℚ) * 2 ^ e = 10 ^ k := by
  match u, h with
  | .finite .positive m e hm, h =>
    refine ⟨m, e, hm, rfl, ?_⟩
    rw [zpow_eq_div two_pos, ← mul_div_assoc, div_eq_iff (by positivity)]
    exact_mod_cast (beq_iff_eq.mp h).symm

theorem isPowerOfTen_powers : ∀ k : Fin Float.exactlyRepresentablePowersOfTen.size,
    isPowerOfTen k Float.exactlyRepresentablePowersOfTen[k].toModel.unpack = true := by
  decide +kernel

theorem unpack_mul (a b : Float) : (a * b).toModel.unpack = UnpackedFloat.unpack .binary64
    (UnpackedFloat.pack .binary64 (UnpackedFloat.mul .binary64 a.toModel.unpack b.toModel.unpack)) := rfl

theorem unpack_div (a b : Float) : (a / b).toModel.unpack = UnpackedFloat.unpack .binary64
    (UnpackedFloat.pack .binary64 (UnpackedFloat.div .binary64 a.toModel.unpack b.toModel.unpack)) := rfl

/-- A decimal is read as the float it is nearest to. -/
theorem Covers.unpack_ofScientific {m k : Nat} {negative : Bool} (hy : y.IsFloat)
    (h : y.Covers (m * 10 ^ (if negative then -k else k : Int))) (hm : m ≠ 0) :
    (Float.ofScientific m negative k).toModel.unpack = .finite .positive y.mantissa y.exponent hy.pos := by
  refine Eq.trans ?_ (hy.unpack_pack .positive)
  unfold Float.ofScientific
  split
  · rename_i hsmall
    obtain ⟨hlt, hk⟩ := hsmall
    -- the integer and the power of ten are both exact, so that the product is rounded once
    have hfloat := isFloat_ofSmall hm hlt
    have hge := ofSmall_ge hm hlt
    have hpower := isPowerOfTen_powers ⟨k, by simp [Float.exactlyRepresentablePowersOfTen]; omega⟩
    obtain ⟨n, f, hn, hunpack, hten⟩ := exists_of_isPowerOfTen hpower
    simp only [Fin.getElem_fin] at hunpack hten
    rw [← value_ofSmall hm hlt] at h
    cases negative
    · have hvalue : ((ofSmall m).mantissa : ℚ) * n * 2 ^ ((ofSmall m).exponent + f) =
          (ofSmall m).mantissa * 2 ^ (ofSmall m).exponent * 10 ^ (k : Int) := by
        rw [zpow_add₀ two_ne_zero, zpow_natCast, ← hten]
        ring
      simp only [Bool.false_eq_true, if_false]
      rw [unpack_mul, hunpack, unpack_toFloat hm hlt]
      exact congrArg _ (congrArg _ (Covers.mul hy (hvalue ▸ h)
        (.inl (hge.trans (Nat.le_mul_of_pos_right _ hn))) .positive .positive _ _))
    · have hvalue : ((ofSmall m).mantissa : ℚ) / n * 2 ^ ((ofSmall m).exponent - f) =
          (ofSmall m).mantissa * 2 ^ (ofSmall m).exponent * 10 ^ (-k : Int) := by
        rw [zpow_sub₀ two_ne_zero, zpow_neg, zpow_natCast, ← hten, mul_inv, ← div_eq_mul_inv]
        ring
      simp only [if_true]
      rw [unpack_div, hunpack, unpack_toFloat hm hlt]
      exact congrArg _ (congrArg _ (Covers.div hy (hvalue ▸ h) .positive .positive _ _))
  · have hslow := h.ofScientific hy hm
    cases negative <;>
      exact congrArg (fun u => UnpackedFloat.unpack .binary64 (UnpackedFloat.pack .binary64 u)) hslow

open Text

/-- A number whose digits end far from the point is nearest to no float. -/
theorem Covers.size {q : ℚ} {k : Int} (hy : y.IsFloat) (h : y.Covers q) (hlow : 10 ^ (k - 1) ≤ q)
    (hhigh : q < 10 ^ k) : -400 ≤ k ∧ k ≤ 400 := by
  have hten : (1 : ℚ) ≤ 10 := by norm_num
  have hpowers : (2 : ℚ) ^ (1075 : Int) ≤ 10 ^ (400 : Int) := by
    have hnat : (2 : Nat) ^ 1075 ≤ 10 ^ 400 := by decide +kernel
    exact_mod_cast hnat
  constructor
  · by_contra hsmall
    refine absurd (h.gt hy) (not_le.mpr ?_)
    calc q < 10 ^ k := hhigh
      _ ≤ 10 ^ (-400 : Int) := zpow_le_zpow_right₀ hten (by omega)
      _ ≤ 2 ^ (-1075 : Int) := by
        rw [zpow_neg, zpow_neg]
        exact inv_anti₀ (by positivity) hpowers
  · by_contra hlarge
    refine absurd (h.lt hy) (not_lt.mpr ?_)
    calc (2 : ℚ) ^ (1024 : Int) ≤ 2 ^ (1075 : Int) := zpow_le_zpow_right₀ one_le_two (by decide)
      _ ≤ 10 ^ (400 : Int) := hpowers
      _ ≤ 10 ^ (k - 1) := zpow_le_zpow_right₀ hten (by omega)
      _ ≤ q := hlow

/-- The number that the digits denote is read as the float it is nearest to. -/
theorem Covers.unpack_nearestFloat {digits : List Nat} {e : Int} (hdigits : ∀ d ∈ digits, d < 10)
    (hy : y.IsFloat) (h : y.Covers (valueOfDigits digits * 10 ^ e)) :
    (nearestFloat digits e).toModel.unpack = .finite .positive y.mantissa y.exponent hy.pos := by
  rw [← valueOfDigits_dropWhile] at h
  have hless : ∀ d ∈ digits.dropWhile (· == 0), d < 10 :=
    fun d hd => hdigits d ((List.dropWhile_suffix _).subset hd)
  have hhead := List.head?_dropWhile_not (· == 0) digits
  unfold nearestFloat
  dsimp only
  generalize digits.dropWhile (· == 0) = significant at *
  cases significant with
  | nil =>
      -- zero is nearest to no float other than zero
      have hgt := h.gt hy
      have hpos : (0 : ℚ) < 2 ^ (-1075 : Int) := by positivity
      have hzero : ((valueOfDigits [] : Nat) : ℚ) * 10 ^ e = 0 := by simp [valueOfDigits]
      linarith
  | cons d significant =>
      have hd : d ≠ 0 := by simpa using hhead
      have hpow : (0 : ℚ) < 10 ^ e := by positivity
      have hlow : (10 : ℚ) ^ significant.length ≤ valueOfDigits (d :: significant) := by
        exact_mod_cast le_valueOfDigits hd significant
      have hhigh : (valueOfDigits (d :: significant) : ℚ) < 10 ^ (d :: significant).length := by
        exact_mod_cast valueOfDigits_lt hless
      have hten : (10 : ℚ) ≠ 0 := by norm_num
      obtain ⟨hsmall, hlarge⟩ := h.size (k := (d :: significant).length + e) hy (by
        rw [List.length_cons, Nat.cast_succ, add_right_comm, add_sub_cancel_right, zpow_add₀ hten, zpow_natCast]
        exact mul_le_mul_of_nonneg_right hlow hpow.le) (by
        rw [zpow_add₀ hten, zpow_natCast]
        exact mul_lt_mul_of_pos_right hhigh hpow)
      have hne : valueOfDigits (d :: significant) ≠ 0 := by
        have := le_valueOfDigits hd significant
        have : 0 < 10 ^ significant.length := by positivity
        omega
      have hexponent : (if decide (e < 0) = true then -e.natAbs else e.natAbs : Int) = e := by
        simp only [decide_eq_true_eq]
        omega
      rw [if_neg, if_neg]
      · refine Covers.unpack_ofScientific hy ?_ hne
        rw [hexponent]
        exact h
      · omega
      · simp only [List.isEmpty_cons, Bool.false_or, decide_eq_true_eq]
        omega

end Binary
end MetricBridge
