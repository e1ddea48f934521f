import MetricBridge.Proofs.Decimal.Order
import MetricBridge.Proofs.Decimal.Shortest
import MetricBridge.Seconds

namespace MetricBridge

open Float.Model (UnpackedFloat)

namespace Binary

variable {a b : Binary}

theorem value_nonneg (a : Binary) : 0 ≤ a.value := by
  rw [value]
  positivity

/-- The exponent decides, because the mantissa of the greater one has all its bits. -/
theorem IsFloat.value_le (ha : a.IsFloat) (hb : b.IsFloat)
    (h : a.exponent < b.exponent ∨ a.exponent = b.exponent ∧ a.mantissa ≤ b.mantissa) :
    a.value ≤ b.value := by
  rw [value, value]
  rcases h with hlt | ⟨heq, hle⟩
  · have hleast := ha.least
    have hnormal : 2 ^ 52 ≤ b.mantissa := hb.normal.resolve_right (by omega)
    have hmantissa : (a.mantissa : ℚ) ≤ 2 ^ 52 * 2 := by exact_mod_cast ha.lt.le
    have hexponent : (2 : ℚ) * 2 ^ a.exponent ≤ 2 ^ b.exponent := by
      rw [mul_comm, ← zpow_add_one₀ two_ne_zero]
      exact zpow_le_zpow_right₀ one_le_two hlt
    calc (a.mantissa : ℚ) * 2 ^ a.exponent ≤ 2 ^ 52 * 2 * 2 ^ a.exponent := by gcongr
      _ = 2 ^ 52 * (2 * 2 ^ a.exponent) := mul_assoc ..
      _ ≤ b.mantissa * 2 ^ b.exponent := by
          gcongr
          exact_mod_cast hnormal
  · rw [heq]
    gcongr

theorem denominator_pos (a : Binary) : 0 < a.denominator := Nat.pow_pos two_pos

theorem numerator_eq (a : Binary) : (a.numerator : ℚ) = a.value * a.denominator := by
  have hscaled := a.scaled_eq 0
  simp only [scaled, neg_zero, Int.toNat_zero, Nat.pow_eq, pow_zero, mul_one, zpow_zero, div_one] at hscaled
  rw [← hscaled, div_mul_cancel₀ _ (Nat.cast_ne_zero.mpr a.denominator_pos.ne')]

end Binary

def exactOf (x : Float) : ℚ :=
  if x < 0.0 then -(Binary.ofFloat x).value else (Binary.ofFloat x).value

variable {x y : Float} {n : Int} {p q : Int × Int × Int}

theorem compareInt_ne_lt_iff (hx : ¬x.isInf = true) :
    Binary.compareInt x n ≠ .lt ↔ n ≤ exactOf x := by
  have hpos : (0 : ℚ) < (Binary.ofFloat x).denominator := by
    exact_mod_cast (Binary.ofFloat x).denominator_pos
  have hexact : ((if x < 0.0 then -((Binary.ofFloat x).numerator : Int) else (Binary.ofFloat x).numerator : Int)
      : ℚ) = exactOf x * (Binary.ofFloat x).denominator := by
    rw [exactOf]
    split
    · rw [neg_mul, ← Binary.numerator_eq]
      push_cast
      rfl
    · rw [← Binary.numerator_eq]
      push_cast
      rfl
  rw [Binary.compareInt, if_neg hx]
  dsimp only
  rw [compare_ge_iff_ge, ← Int.cast_le (R := ℚ), hexact]
  push_cast
  exact mul_le_mul_iff_left₀ hpos

/-- Only a number below zero has its place before that of zero. -/
theorem lt_zero_iff (hp : place? x.toModel.unpack = some p) : x < 0.0 ↔ ¬Precedes (0, 0, 0) p := by
  have hzero : place? (0.0 : Float).toModel.unpack = some (0, 0, 0) := by decide +kernel
  rw [lt_iff_unpack, unpackedLt_iff, hzero, hp]
  simp

inductive Stands (x : Float) (p : Int × Int × Int) : Prop
  | below {y : Binary} (isFloat : y.IsFloat) (place : p = (-1, -y.exponent, -(y.mantissa : Int)))
      (exact : exactOf x = -y.value)
  | zero (place : p = (0, 0, 0)) (exact : exactOf x = 0)
  | above {y : Binary} (isFloat : y.IsFloat) (place : p = (1, y.exponent, (y.mantissa : Int)))
      (exact : exactOf x = y.value)

theorem stands (hinf : ¬x.isInf = true) (hp : place? x.toModel.unpack = some p) : Stands x p := by
  cases unpacks (isNaN_iff_place?.mpr ⟨p, hp⟩) (by simpa using hinf) with
  | zero hmantissa hunpack =>
      have hzero : p = (0, 0, 0) := by
        rw [hunpack] at hp
        exact (Option.some.inj hp).symm
      have hnot : ¬x < 0.0 := by simp [lt_zero_iff hp, hzero, Precedes]
      exact .zero hzero (by simp [exactOf, hnot, Binary.value, hmantissa])
  | @finite y hofFloat hy hunpack =>
      cases hsign : signOf x with
      | negative =>
          have hbelow : p = (-1, -y.exponent, -(y.mantissa : Int)) := by
            rw [hunpack, hsign] at hp
            exact (Option.some.inj hp).symm
          have hlt : x < 0.0 := by simp [lt_zero_iff hp, hbelow, Precedes]
          exact .below hy hbelow (by rw [exactOf, if_pos hlt, hofFloat])
      | positive =>
          have habove : p = (1, y.exponent, (y.mantissa : Int)) := by
            rw [hunpack, hsign] at hp
            exact (Option.some.inj hp).symm
          have hnot : ¬x < 0.0 := by simp [lt_zero_iff hp, habove, Precedes]
          exact .above hy habove (by rw [exactOf, if_neg hnot, hofFloat])

namespace Stands

theorem bounds (hx : Stands x p) : -2 < p.1 ∧ p.1 < 2 := by
  cases hx with
  | below _ hp | zero hp | above _ hp => simp [hp]

theorem exactOf_le (hx : Stands x p) (hy : Stands y q) (h : Precedes p q) : exactOf x ≤ exactOf y := by
  cases hx with
  | @below a ha hp hexact =>
      rw [hexact]
      cases hy with
      | @below b hb hq hexact' =>
          rw [hexact', neg_le_neg_iff]
          rw [hp, hq] at h
          refine hb.value_le ha ?_
          simp only [Precedes] at h
          omega
      | zero _ hexact' =>
          rw [hexact']
          exact neg_nonpos.mpr a.value_nonneg
      | @above b _ _ hexact' =>
          rw [hexact']
          exact (neg_nonpos.mpr a.value_nonneg).trans b.value_nonneg
  | zero hp hexact =>
      rw [hexact]
      cases hy with
      | below _ hq =>
          rw [hp, hq] at h
          simp [Precedes] at h
      | zero _ hexact' => rw [hexact']
      | @above b _ _ hexact' =>
          rw [hexact']
          exact b.value_nonneg
  | @above a ha hp hexact =>
      cases hy with
      | below _ hq | zero hq =>
          rw [hp, hq] at h
          simp [Precedes] at h
      | @above b hb hq hexact' =>
          rw [hexact, hexact']
          rw [hp, hq] at h
          refine ha.value_le hb ?_
          simp only [Precedes] at h
          omega

end Stands

/-- The infinities stand before and after all that is finite. -/
theorem place?_of_isInf (hx : x.isInf = true) :
    place? x.toModel.unpack = some (-2, 0, 0) ∧ x < 0.0 ∨
      place? x.toModel.unpack = some (2, 0, 0) ∧ ¬x < 0.0 := by
  have hunpack := unpack_infinity hx
  split at hunpack
  · have hp : place? x.toModel.unpack = some (-2, 0, 0) := by rw [hunpack, place?]
    exact .inl ⟨hp, by simp [lt_zero_iff hp, Precedes]⟩
  · have hp : place? x.toModel.unpack = some (2, 0, 0) := by rw [hunpack, place?]
    exact .inr ⟨hp, by simp [lt_zero_iff hp, Precedes]⟩

/-- The only infinity that is not less than an integer is the greatest number. -/
theorem place?_of_compareInt (hx : x.isInf = true) (h : Binary.compareInt x n ≠ .lt) :
    place? x.toModel.unpack = some (2, 0, 0) := by
  rcases place?_of_isInf hx with ⟨-, hlt⟩ | ⟨hp, -⟩
  · rw [Binary.compareInt, if_pos hx, if_pos hlt] at h
    exact absurd rfl h
  · exact hp

/-- What is not less than an integer is followed by nothing that is less. -/
theorem compareInt_mono (hle : x ≤ y) (h : Binary.compareInt x n ≠ .lt) : Binary.compareInt y n ≠ .lt := by
  rw [le_iff_unpack, unpackedLe_iff] at hle
  obtain ⟨p, q, hp, hq, hpq⟩ := hle
  have hfirst : p.1 ≤ q.1 := by
    simp only [Precedes] at hpq
    omega
  by_cases hy : y.isInf = true
  · rcases place?_of_isInf hy with ⟨hq', -⟩ | ⟨-, hnot⟩
    · -- nothing that reaches an integer stands as low
      cases hq.symm.trans hq'
      by_cases hx : x.isInf = true
      · cases hp.symm.trans (place?_of_compareInt hx h)
        exact absurd hfirst (by decide)
      · exact absurd hfirst (not_le.mpr (stands hx hp).bounds.1)
    · rw [Binary.compareInt, if_pos hy, if_neg hnot]
      decide
  · by_cases hx : x.isInf = true
    · cases hp.symm.trans (place?_of_compareInt hx h)
      exact absurd hfirst (not_le.mpr (stands hy hq).bounds.2)
    · rw [compareInt_ne_lt_iff hx] at h
      rw [compareInt_ne_lt_iff hy]
      exact h.trans ((stands hx hp).exactOf_le (stands hy hq) hpq)

end MetricBridge
