import MetricBridge.Proofs.Decimal.Nearest

namespace MetricBridge

def Decimal.value (d : Decimal) : ℚ := d.digits * 10 ^ d.exponent

theorem Decimal.value_trimZeros (n : Nat) (d : Decimal) : (d.trimZeros n).value = d.value := by
  induction n generalizing d with
  | zero => rfl
  | succ n ih =>
      rw [trimZeros]
      split
      · rename_i hzero
        have hdigits : (d.digits : ℚ) = 10 * (d.digits / 10 : Nat) := by
          exact_mod_cast (Nat.mul_div_cancel' (Nat.dvd_of_mod_eq_zero hzero.2)).symm
        rw [ih, value, value, hdigits, zpow_add_one₀ (by norm_num)]
        ring
      · rfl

namespace Binary

variable {x : Binary} {d : Decimal} {g k : Int}

def value (x : Binary) : ℚ := x.mantissa * 2 ^ x.exponent

theorem ten_pos : (0 : ℚ) < 10 := by norm_num

theorem compare_eq_of_scaled {a b : Nat} {p q c : ℚ} (hc : 0 < c) (ha : a = p * c) (hb : b = q * c) :
    compare a b = compare p q := by
  rcases lt_trichotomy p q with h | h | h
  · have hab : a < b := by
      exact_mod_cast ha ▸ hb ▸ mul_lt_mul_of_pos_right h hc
    rw [compare_lt_iff_lt.mpr h, compare_lt_iff_lt.mpr hab]
  · have hab : a = b := by
      exact_mod_cast ha.trans (h ▸ hb.symm)
    rw [compare_eq_iff_eq.mpr h, compare_eq_iff_eq.mpr hab]
  · have hab : b < a := by
      exact_mod_cast ha ▸ hb ▸ mul_lt_mul_of_pos_right h hc
    rw [compare_gt_iff_gt.mpr h, compare_gt_iff_gt.mpr hab]

theorem compareScaled_eq (a b : Nat) (i j : Int) :
    compareScaled a i b j = compare ((a : ℚ) * 10 ^ i) (b * 2 ^ j) := by
  refine compare_eq_of_scaled (c := 10 ^ (-i).toNat * 2 ^ (-j).toNat) (by positivity) ?_ ?_
  · rw [zpow_eq_div ten_pos]
    simp only [Nat.cast_mul, Nat.pow_eq, Nat.cast_pow, Nat.cast_ofNat]
    field_simp
  · rw [zpow_eq_div two_pos]
    simp only [Nat.cast_mul, Nat.pow_eq, Nat.cast_pow, Nat.cast_ofNat]
    field_simp

theorem readsBack_iff (hx : 0 < x.mantissa) : x.readsBack d = true ↔ x.Covers d.value := by
  have hunit : (0 : ℚ) < 2 ^ x.exponent := by positivity
  have hquarter : ∀ n : Nat, (n : ℚ) * 2 ^ (x.exponent - 2) = n / 4 * 2 ^ x.exponent := fun n => by
    rw [zpow_sub₀ two_ne_zero]
    ring
  have hlow : ((if x.narrowBelow then 4 * x.mantissa - 1 else 4 * x.mantissa - 2 : Nat) : ℚ) / 4 =
      x.mantissa - x.halfBelow := by
    unfold halfBelow
    split
    · rw [Nat.cast_sub (by omega)]
      push_cast
      ring
    · rw [Nat.cast_sub (by omega)]
      push_cast
      ring
  have hhigh : ((4 * x.mantissa + 2 : Nat) : ℚ) / 4 = x.mantissa + 1 / 2 := by
    push_cast
    ring
  unfold readsBack
  dsimp only
  simp only [Bool.and_eq_true, Bool.or_eq_true, beq_iff_eq, compareScaled_eq, hquarter, hlow, hhigh,
    compare_lt_iff_lt, compare_gt_iff_gt, compare_eq_iff_eq]
  unfold Covers Around Decimal.value
  rw [lt_div_iff₀ hunit, div_eq_iff hunit.ne', div_lt_iff₀ hunit, div_eq_iff hunit.ne']

theorem readsBack_of_onGrid? (h : x.onGrid? g = some d) : x.readsBack d = true := by
  unfold onGrid? at h
  dsimp only at h
  split at h
  · rename_i hlow hhigh
    split at h
    · cases h
      exact hlow
    · cases h
      exact hhigh
    · split at h <;> cases h
      · exact hlow
      · exact hhigh
  · rename_i hlow _
    cases h
    exact hlow
  · rename_i _ hhigh
    cases h
    exact hhigh
  · cases h

theorem scaled_eq (x : Binary) (g : Int) : ((x.scaled g).1 : ℚ) / (x.scaled g).2 = x.value / 10 ^ g := by
  rw [value, zpow_eq_div two_pos, zpow_eq_div ten_pos, scaled, numerator, denominator]
  simp only [Nat.cast_mul, Nat.pow_eq, Nat.cast_pow, Nat.cast_ofNat]
  field_simp

theorem value_of_isIntegral (h : x.isIntegral = true) : x.value = x.floor := by
  have hdvd : x.denominator ∣ x.numerator := Nat.dvd_of_mod_eq_zero (beq_iff_eq.mp h)
  have hpos : x.denominator ≠ 0 := Nat.pos_iff_ne_zero.mp (Nat.pow_pos two_pos)
  have hvalue := x.scaled_eq 0
  simp only [scaled, neg_zero, Int.toNat_zero, Nat.pow_eq, pow_zero, mul_one, zpow_zero,
    div_one] at hvalue
  rw [← hvalue, floor, Nat.cast_div hdvd (Nat.cast_ne_zero.mpr hpos)]

theorem scaled_pos (x : Binary) (g : Int) : 0 < (x.scaled g).2 :=
  Nat.mul_pos (Nat.pow_pos two_pos) (Nat.pow_pos (by decide))

theorem belowPower_iff : x.belowPower k = true ↔ x.value < 10 ^ k := by
  have hpos : (0 : ℚ) < (x.scaled k).2 := by exact_mod_cast x.scaled_pos k
  have hten : (0 : ℚ) < 10 ^ k := by positivity
  have hscaled := x.scaled_eq k
  calc x.belowPower k = true ↔ (x.scaled k).1 < (x.scaled k).2 := decide_eq_true_iff
    _ ↔ ((x.scaled k).1 : ℚ) / (x.scaled k).2 < 1 := by rw [div_lt_one hpos, Nat.cast_lt]
    _ ↔ x.value < 10 ^ k := by rw [hscaled, div_lt_one hten]

/-- Of consecutive integers, the one before the first with the property has it not. -/
theorem find?_consecutive {p : Int → Bool} {n : Nat} {e k : Int} (hfirst : p (e - 1) = false)
    (h : ((List.range n).map fun (i : Nat) => e + (i : Int)).find? p = some k) : p (k - 1) = false := by
  induction n generalizing e with
  | zero => cases h
  | succ n ih =>
      rw [List.range_succ_eq_map, List.map_cons, List.map_map, List.find?_cons] at h
      split at h
      · cases h
        simpa using hfirst
      · rename_i hnot
        have hshift : (fun i : Nat => e + (i : Int)) ∘ Nat.succ = fun i : Nat => e + 1 + (i : Int) := by
          funext i
          simp only [Function.comp, Nat.cast_succ]
          omega
        rw [hshift] at h
        exact ih (by simpa using hnot) h

/-- The powers of ten that magnitudes are estimated by. -/
theorem estimate_le {l : Int} (hleast : -1074 ≤ l) (hgreatest : l < 1024) :
    (10 : ℚ) ^ (l * 30103 / 100000 - 3) ≤ 2 ^ l := by
  have hall : (List.range 2098).all (fun (i : Nat) =>
      let k := ((i : Int) - 1074) * 30103 / 100000 - 3
      decide (10 ^ k.toNat * 2 ^ (-((i : Int) - 1074)).toNat ≤
        2 ^ ((i : Int) - 1074).toNat * 10 ^ (-k).toNat)) = true := by
    decide +kernel
  have hl := List.all_eq_true.mp hall (l + 1074).toNat (List.mem_range.mpr (by omega))
  have hindex : (((l + 1074).toNat : Nat) : Int) - 1074 = l := by omega
  dsimp only at hl
  rw [hindex, decide_eq_true_eq] at hl
  rw [zpow_eq_div ten_pos, zpow_eq_div two_pos, div_le_div_iff₀ (by positivity) (by positivity)]
  exact_mod_cast hl

theorem IsFloat.le_value (hx : x.IsFloat) : 2 ^ (x.mantissa.log2 + x.exponent) ≤ x.value := by
  have hlog : (2 : ℚ) ^ x.mantissa.log2 ≤ x.mantissa := by exact_mod_cast Nat.log2_self_le hx.pos.ne'
  rw [value, zpow_add₀ two_ne_zero, zpow_natCast]
  exact mul_le_mul_of_nonneg_right hlog (by positivity)

/-- The magnitude is not too great. -/
theorem IsFloat.le_of_magnitude (hx : x.IsFloat) : 10 ^ (x.magnitude - 1) ≤ x.value := by
  have hlog : x.mantissa.log2 < 53 := (Nat.log2_lt hx.pos.ne').mpr hx.lt
  have hleast := hx.least
  have hgreatest := hx.greatest
  suffices hbelow : x.belowPower (x.magnitude - 1) = false by
    rw [← not_lt, ← belowPower_iff, hbelow]
    decide
  have hestimate := (estimate_le (by omega) (by omega)).trans hx.le_value
  unfold magnitude
  dsimp only
  generalize ((x.mantissa.log2 : Int) + x.exponent) * 30103 / 100000 = estimate at *
  cases hfind : ((List.range 6).map fun (i : Nat) => estimate - 2 + (i : Int)).find? x.belowPower with
  | none =>
      have hnone := List.find?_eq_none.mp hfind (estimate + 2) (List.mem_map.mpr ⟨4, by decide, by omega⟩)
      have hlast : estimate + 3 - 1 = estimate + 2 := by omega
      rw [Option.getD_none, hlast]
      exact Bool.eq_false_iff.mpr hnone
  | some k =>
      refine find?_consecutive ?_ hfind
      have hfirst : estimate - 2 - 1 = estimate - 3 := by omega
      rw [hfirst, Bool.eq_false_iff, Ne, belowPower_iff, not_lt]
      exact hestimate

/-- Of two neighbours on a fine grid around a float one is nearest to the float. -/
theorem IsFloat.covers_neighbour (hx : x.IsFloat) {low step : ℚ} (hle : low ≤ x.value)
    (hlt : x.value < low + step) (hstep : 10 ^ 16 * step ≤ x.value) :
    x.Covers low ∨ x.Covers (low + step) := by
  have hunit : (0 : ℚ) < 2 ^ x.exponent := by positivity
  have hhalf := x.halfBelow_le
  have hhalf' := x.halfBelow_pos
  have hmantissa : (x.mantissa : ℚ) < 2 ^ 53 := by exact_mod_cast hx.lt
  have hvalue : x.value / 2 ^ x.exponent = x.mantissa := mul_div_cancel_right₀ _ hunit.ne'
  have hle' : low / 2 ^ x.exponent ≤ x.mantissa := hvalue ▸ div_le_div_of_nonneg_right hle hunit.le
  have hlt' : x.mantissa < low / 2 ^ x.exponent + step / 2 ^ x.exponent := by
    rw [← add_div, ← hvalue]
    exact div_lt_div_of_pos_right hlt hunit
  have hstep' : 10 ^ 16 * (step / 2 ^ x.exponent) ≤ x.mantissa := by
    rw [← mul_div_assoc, ← hvalue]
    exact div_le_div_of_nonneg_right hstep hunit.le
  unfold Covers
  rw [add_div]
  generalize low / 2 ^ x.exponent = l at *
  generalize step / 2 ^ x.exponent = s at *
  by_cases hnear : l + s < x.mantissa + 1 / 2
  · exact .inr ⟨.inl (by linarith), .inl hnear⟩
  · refine .inl ⟨.inl ?_, .inl (by linarith)⟩
    -- the step is too fine for a power of two, the only floats with a narrow gap below them
    have hwide : x.halfBelow = 1 / 2 := by
      unfold halfBelow
      rw [if_neg]
      intro hnarrow
      have hpower : (x.mantissa : ℚ) = 2 ^ 52 := by exact_mod_cast (hx.narrow.mp hnarrow).1
      linarith
    rw [hwide]
    linarith

/-- Seventeen digits suffice. -/
theorem IsFloat.exists_onGrid (hx : x.IsFloat) (hg : 10 ^ (g + 16) ≤ x.value) :
    ∃ d, x.onGrid? g = some d := by
  have hten : (0 : ℚ) < 10 ^ g := by positivity
  have hpos : (0 : ℚ) < (x.scaled g).2 := by exact_mod_cast x.scaled_pos g
  have hscaled := x.scaled_eq g
  have hlow : (((x.scaled g).1 / (x.scaled g).2 : Nat) : ℚ) * 10 ^ g ≤ x.value := by
    rw [← le_div_iff₀ hten, ← hscaled]
    exact Nat.cast_div_le
  have hhigh : x.value < (((x.scaled g).1 / (x.scaled g).2 : Nat) : ℚ) * 10 ^ g + 10 ^ g := by
    rw [← add_one_mul, ← div_lt_iff₀ hten, ← hscaled, div_lt_iff₀ hpos]
    exact_mod_cast (Nat.div_lt_iff_lt_mul (x.scaled_pos g)).mp (Nat.lt_succ_self _)
  have hstep : (10 : ℚ) ^ 16 * 10 ^ g ≤ x.value := by
    rw [← zpow_natCast, ← zpow_add₀ (by norm_num), add_comm]
    exact hg
  have hreads : x.readsBack ⟨(x.scaled g).1 / (x.scaled g).2, g⟩ = true ∨
      x.readsBack ⟨(x.scaled g).1 / (x.scaled g).2 + 1, g⟩ = true := by
    rw [readsBack_iff hx.pos, readsBack_iff hx.pos, Decimal.value, Decimal.value, Nat.cast_succ, add_one_mul]
    exact hx.covers_neighbour hlow hhigh hstep
  unfold onGrid?
  dsimp only
  split
  · split
    · exact ⟨_, rfl⟩
    · exact ⟨_, rfl⟩
    · exact ⟨_, rfl⟩
  · exact ⟨_, rfl⟩
  · exact ⟨_, rfl⟩
  · rename_i hlow hhigh
    rcases hreads with h | h
    · exact absurd (hlow.symm.trans h) (by decide)
    · exact absurd (hhigh.symm.trans h) (by decide)

/-- The shortest decimal is nearest to the float. -/
theorem IsFloat.covers_shortest (hx : x.IsFloat) : x.Covers x.shortest.value := by
  unfold shortest
  rw [if_neg hx.pos.ne', Decimal.value_trimZeros]
  cases hfound : (List.range 17).findSome? fun (n : Nat) => x.onGrid? (x.magnitude - ((n : Int) + 1)) with
  | none =>
      have hgrid : x.magnitude - ((16 : Nat) + 1) + 16 = x.magnitude - 1 := by omega
      obtain ⟨d, hd⟩ := hx.exists_onGrid (hgrid.symm ▸ hx.le_of_magnitude)
      have hnone := List.findSome?_eq_none_iff.mp hfound 16 (by decide)
      cases hd.symm.trans hnone
  | some d =>
      obtain ⟨n, -, hn⟩ := List.exists_of_findSome?_eq_some hfound
      exact (readsBack_iff hx.pos).mp (readsBack_of_onGrid? hn)

end Binary
end MetricBridge
