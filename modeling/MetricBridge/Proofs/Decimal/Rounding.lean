import MetricBridge.Proofs.Decimal.Sign

namespace MetricBridge

open Float.Model (Format UnpackedFloat totalExponent)
open Float.Model.UnpackedFloat

def Represents (em : ExtendedMantissa) (t : ℚ) : Prop :=
  match em.roundBit, em.stickyBit with
  | false, false => t = em.mantissa
  | false, true => em.mantissa < t ∧ t < em.mantissa + 1 / 2
  | true, false => t = em.mantissa + 1 / 2
  | true, true => em.mantissa + 1 / 2 < t ∧ t < em.mantissa + 1

/-- Whether a number lies around the integer `n`: from `below` under it to one half above it, with the ends
if `n` is even. -/
def Around (below t : ℚ) (n : Nat) : Prop :=
  (n - below < t ∨ n % 2 = 0 ∧ t = n - below) ∧ (t < n + 1 / 2 ∨ n % 2 = 0 ∧ t = n + 1 / 2)

namespace Represents

variable {em : ExtendedMantissa} {t : ℚ} {n : Nat}

theorem le (h : Represents em t) : em.mantissa ≤ t := by
  obtain ⟨m, r, s⟩ := em
  cases r <;> cases s <;> simp only [Represents] at h <;> linarith

theorem lt (h : Represents em t) : t < em.mantissa + 1 := by
  obtain ⟨m, r, s⟩ := em
  cases r <;> cases s <;> simp only [Represents] at h <;> linarith

theorem lt_total {q : ℚ} {e : Int} (h : Represents em (q / 2 ^ e)) : q < 2 ^ totalExponent em.mantissa e := by
  have hlog : (em.mantissa : ℚ) + 1 ≤ 2 ^ (em.mantissa.log2 + 1) := by
    exact_mod_cast Nat.lt_log2_self (n := em.mantissa)
  rw [totalExponent, zpow_add₀ two_ne_zero]
  exact (div_lt_iff₀ (by positivity)).mp (h.lt.trans_le (by exact_mod_cast hlog))

theorem total_le {q : ℚ} {e : Int} (h : Represents em (q / 2 ^ e)) (hne : em.mantissa ≠ 0) :
    2 ^ (totalExponent em.mantissa e - 1) ≤ q := by
  have hlog : (2 : ℚ) ^ em.mantissa.log2 ≤ em.mantissa := by exact_mod_cast Nat.log2_self_le hne
  have htotal : totalExponent em.mantissa e - 1 = em.mantissa.log2 + e := by
    rw [totalExponent]
    omega
  rw [htotal, zpow_add₀ two_ne_zero, zpow_natCast]
  exact (le_div_iff₀ (by positivity)).mp (hlog.trans h.le)

theorem shiftRightOne (h : Represents em t) : Represents em.shiftRightOne (t / 2) := by
  obtain ⟨m, r, s⟩ := em
  have hm : (m : ℚ) = 2 * (m / 2 : Nat) + (m % 2 : Nat) := by exact_mod_cast (Nat.div_add_mod m 2).symm
  rcases Nat.mod_two_eq_zero_or_one m with hbit | hbit <;>
    cases r <;> cases s <;> simp [Represents, ExtendedMantissa.shiftRightOne, hbit] at hm h ⊢ <;>
    first | linarith | (constructor <;> linarith)

theorem shiftRight (h : Represents em t) (k : Nat) : Represents (em >>> k) (t / 2 ^ k) := by
  change Represents (k.repeat ExtendedMantissa.shiftRightOne em) _
  induction k with
  | zero => simpa [Nat.repeat] using h
  | succ k ih =>
      rw [Nat.repeat, pow_succ, ← div_div]
      exact ih.shiftRightOne

/-- The bits decide how the mantissa is rounded. -/
theorem roundedMantissa_eq (h : Represents em t) (hn : Around (1 / 2) t n) : em.roundedMantissa = n := by
  obtain ⟨m, r, s⟩ := em
  obtain ⟨hlow, hhigh⟩ := hn
  have hleast : (n : ℚ) ≤ t + 1 / 2 := by rcases hlow with h | ⟨-, h⟩ <;> linarith
  have hgreatest : t ≤ n + 1 / 2 := by rcases hhigh with h | ⟨-, h⟩ <;> linarith
  have below : ∀ k : Nat, (n : ℚ) < k + 1 → n ≤ k := fun k hk => Nat.lt_succ_iff.mp (by exact_mod_cast hk)
  have above : ∀ k : Nat, (k : ℚ) < n + 1 → k ≤ n := fun k hk => Nat.lt_succ_iff.mp (by exact_mod_cast hk)
  cases r <;> cases s <;> simp only [Represents] at h <;>
    simp only [ExtendedMantissa.roundedMantissa, ExtendedMantissa.accuracy, Accuracy.roundToNearestEven]
  · exact Nat.le_antisymm (above m (by linarith)) (below m (by linarith))
  · exact Nat.le_antisymm (above m (by linarith)) (below m (by linarith))
  · -- a tie: of the two integers the even one
    have hm := above m (by linarith)
    have hm' := below (m + 1) (by push_cast; linarith)
    have heven : n % 2 = 0 := by
      rcases Nat.le_succ_iff.mp hm' with hle | heq
      · refine (hhigh.resolve_left fun hlt => ?_).1
        have hmn : (n : ℚ) ≤ m := by exact_mod_cast hle
        linarith
      · refine (hlow.resolve_left fun hlt => ?_).1
        have hmn : (n : ℚ) = m + 1 := by exact_mod_cast heq
        linarith
    omega
  · exact Nat.le_antisymm (above (m + 1) (by push_cast; linarith)) (below (m + 1) (by push_cast; linarith))

end Represents

namespace Around

variable {below t : ℚ} {n : Nat}

theorem le (h : Around below t n) : n - below ≤ t := by
  rcases h.1 with h | ⟨-, h⟩ <;> linarith

theorem ge (h : Around below t n) : t ≤ n + 1 / 2 := by
  rcases h.2 with h | ⟨-, h⟩ <;> linarith

theorem widen (h : Around below t n) (hbelow : below ≤ 1 / 2) : Around (1 / 2) t n := by
  rcases hbelow.lt_or_eq with hlt | rfl
  · exact ⟨.inl (by linarith [h.le]), h.2⟩
  · exact h

end Around

namespace Binary

structure IsFloat (x : Binary) : Prop where
  pos : 0 < x.mantissa
  lt : x.mantissa < 2 ^ 53
  least : -1074 ≤ x.exponent
  greatest : x.exponent ≤ 971
  normal : 2 ^ 52 ≤ x.mantissa ∨ x.exponent = -1074
  narrow : x.narrowBelow = true ↔ x.mantissa = 2 ^ 52 ∧ -1074 < x.exponent

def halfBelow (x : Binary) : ℚ := if x.narrowBelow then 1 / 4 else 1 / 2

def Covers (x : Binary) (q : ℚ) : Prop := Around x.halfBelow (q / 2 ^ x.exponent) x.mantissa

variable {x : Binary} {q : ℚ} {e : Int}

theorem halfBelow_le (x : Binary) : x.halfBelow ≤ 1 / 2 := by
  unfold halfBelow
  split <;> norm_num

theorem Covers.around (h : x.Covers q) : Around (1 / 2) (q / 2 ^ x.exponent) x.mantissa :=
  h.widen x.halfBelow_le

/-- A number nearest to a float has the exponent of the float, unless it lies just below a power of two. -/
theorem Covers.scale (h : x.Covers q) (hx : x.IsFloat) (hleast : -1074 ≤ e) (hlt : q < 2 ^ (e + 53))
    (hge : -1074 < e → 2 ^ (e + 52) ≤ q) :
    e = x.exponent ∨ e + 1 = x.exponent ∧ x.mantissa = 2 ^ 52 ∧ 2 ^ 53 - 1 / 2 ≤ q / 2 ^ e := by
  have hunit : (0 : ℚ) < 2 ^ x.exponent := by positivity
  have htimes : ∀ k : Nat, (2 : ℚ) ^ (x.exponent + k) = 2 ^ k * 2 ^ x.exponent := fun k => by
    rw [zpow_add₀ two_ne_zero, zpow_natCast, mul_comm]
  have hmono : ∀ {a b : Int}, a ≤ b → (2 : ℚ) ^ a ≤ 2 ^ b := zpow_le_zpow_right₀ one_le_two
  have hhigh := (div_le_iff₀ hunit).mp h.ge
  have hlow := (le_div_iff₀ hunit).mp h.le
  have hhalf := x.halfBelow_le
  rcases lt_trichotomy e x.exponent with hlower | rfl | hhigher
  · -- the number is below `2 ^ (x.exponent + 52)`, so the float is this power and the gap below it is narrow
    right
    have hbound : q < 2 ^ 52 * 2 ^ x.exponent := by
      rw [← htimes 52]
      exact hlt.trans_le (hmono (by omega))
    have hmantissa : (x.mantissa : ℚ) < 2 ^ 52 + 1 := by
      have := lt_of_mul_lt_mul_right (hlow.trans_lt hbound) hunit.le
      linarith
    have hnormal := hx.normal.resolve_right (by omega)
    have heq : x.mantissa = 2 ^ 52 := Nat.le_antisymm (Nat.lt_succ_iff.mp (by exact_mod_cast hmantissa)) hnormal
    have hquarter : x.halfBelow = 1 / 4 := if_pos (hx.narrow.mpr ⟨heq, by omega⟩)
    rw [heq, hquarter] at hlow
    have hnext : e + 1 = x.exponent := by
      by_contra hne
      have hfar : q < 2 ^ (x.exponent + (51 : Nat)) := hlt.trans_le (hmono (by push_cast; omega))
      rw [htimes] at hfar
      push_cast at hlow
      linarith
    refine ⟨hnext, heq, ?_⟩
    rw [le_div_iff₀ (by positivity)]
    rw [← hnext, zpow_add_one₀ two_ne_zero] at hlow
    push_cast at hlow
    linarith
  · exact .inl rfl
  · -- the number would be above every number that is nearest to a float with this exponent
    have hmantissa : (x.mantissa : ℚ) + 1 ≤ 2 ^ 53 := by exact_mod_cast hx.lt
    have hfar : (2 : ℚ) ^ (x.exponent + (53 : Nat)) ≤ q :=
      (hmono (by push_cast; omega)).trans (hge (by have := hx.least; omega))
    rw [htimes] at hfar
    have := le_of_mul_le_mul_right (hfar.trans hhigh) hunit
    linarith

theorem targetExponent_eq (t : Int) : Format.binary64.targetExponent t = max (t - 53) (-1074) := rfl

/-- The exponent of a float is the one that its size calls for. -/
theorem IsFloat.targetExponent_eq (hx : x.IsFloat) :
    Format.binary64.targetExponent (totalExponent x.mantissa x.exponent) = x.exponent := by
  have hleast := hx.least
  have hlog : x.mantissa.log2 < 53 := (Nat.log2_lt hx.pos.ne').mpr hx.lt
  rw [Binary.targetExponent_eq, totalExponent]
  rcases hx.normal with hnormal | hleast
  · have := (Nat.le_log2 hx.pos.ne').mpr hnormal
    omega
  · omega

theorem shiftToTargetExponent_eq {m : Nat} (acc : Accuracy)
    (h : e ≤ Format.binary64.targetExponent (totalExponent m e)) :
    shiftToTargetExponent .binary64 m e acc =
      (ExtendedMantissa.ofMantissaAndAccuracy m acc >>>
        (Format.binary64.targetExponent (totalExponent m e) - e).toNat,
      Format.binary64.targetExponent (totalExponent m e)) := by
  unfold shiftToTargetExponent shiftToExponent
  simp only [Prod.mk.injEq, true_and]
  omega

theorem roundWithAccuracy_eq {spec : Format} {s : Sign} {m n : Nat} {acc : Accuracy}
    {em final : ExtendedMantissa} {f g : Int} (hfirst : shiftToTargetExponent spec m e acc = (em, f))
    (hrounded : em.roundedMantissa = n) (hsecond : shiftToTargetExponent spec n f .exact = (final, g))
    (hpos : 0 < final.mantissa) :
    roundWithAccuracy spec s m e acc = .finite s final.mantissa g hpos := by
  unfold roundWithAccuracy
  simp only [hfirst, hrounded, hsecond, dif_neg hpos.ne']

/-- A number that is given with enough bits is rounded to the float it is nearest to. -/
theorem Covers.round (h : x.Covers q) (hx : x.IsFloat) {m : Nat} {acc : Accuracy}
    (hrep : Represents (.ofMantissaAndAccuracy m acc) (q / 2 ^ e)) (hbits : 2 ^ 52 ≤ m ∨ e ≤ -1074)
    (s : Sign) :
    roundWithAccuracy .binary64 s m e acc = .finite s x.mantissa x.exponent hx.pos := by
  have hdef := Binary.targetExponent_eq (totalExponent m e)
  have hone : (1 : ℚ) ≤ 2 := one_le_two
  have hm : (ExtendedMantissa.ofMantissaAndAccuracy m acc).mantissa = m := by
    unfold ExtendedMantissa.ofMantissaAndAccuracy
    split <;> rfl
  have hlog : 2 ^ 52 ≤ m → 52 ≤ m.log2 := fun hm => (Nat.le_log2 (by omega)).mpr hm
  have htotal : totalExponent m e = m.log2 + 1 + e := rfl
  -- with so many bits the mantissa is shifted to the right only, which keeps what it represents
  have htarget : e ≤ Format.binary64.targetExponent (totalExponent m e) := by omega
  have hfirst := shiftToTargetExponent_eq acc htarget
  have hlt := hrep.lt_total
  have hge : -1074 < Format.binary64.targetExponent (totalExponent m e) →
      2 ^ (totalExponent m e - 1) ≤ q := fun hnormal => hm ▸ hrep.total_le (by
    rw [hm]
    rintro rfl
    rw [Nat.log2_zero] at htotal
    omega)
  rw [hm] at hlt
  generalize Format.binary64.targetExponent (totalExponent m e) = target at *
  have hrep := hrep.shiftRight (target - e).toNat
  have hscale : q / 2 ^ e / 2 ^ (target - e).toNat = q / 2 ^ target := by
    rw [div_div, ← zpow_natCast, ← zpow_add₀ two_ne_zero]
    congr 2
    omega
  rw [hscale] at hrep
  rcases h.scale hx (by omega) (hlt.trans_le (zpow_le_zpow_right₀ hone (by omega))) (fun hnormal =>
    (zpow_le_zpow_right₀ hone (by omega)).trans (hge hnormal)) with rfl | ⟨hnext, hmantissa, hnear⟩
  · have hsecond := shiftToTargetExponent_eq .exact hx.targetExponent_eq.ge
    rw [hx.targetExponent_eq, Int.sub_self] at hsecond
    exact roundWithAccuracy_eq hfirst (hrep.roundedMantissa_eq h.around) hsecond hx.pos
  · -- just below a power of two the mantissa is rounded up and gets a bit more
    have hfull : Format.binary64.targetExponent (totalExponent (2 ^ 53) target) = target + 1 := by
      rw [Binary.targetExponent_eq, totalExponent, Nat.log2_two_pow]
      omega
    have hsecond := shiftToTargetExponent_eq .exact (hfull.ge.trans' (by omega))
    rw [hfull, add_sub_cancel_left] at hsecond
    have haround : Around (1 / 2) (q / 2 ^ target) (2 ^ 53) := by
      push_cast
      refine ⟨hnear.lt_or_eq.imp_right fun heq => ⟨rfl, heq.symm⟩, .inl ?_⟩
      have hbelow : q < 2 ^ 53 * 2 ^ target := by
        rw [← zpow_natCast, ← zpow_add₀ two_ne_zero]
        exact hlt.trans_le (zpow_le_zpow_right₀ hone (by push_cast; omega))
      linarith [(div_lt_iff₀ (by positivity)).mpr hbelow]
    simp only [hmantissa, ← hnext]
    exact roundWithAccuracy_eq hfirst (hrep.roundedMantissa_eq haround) hsecond (by decide)

end Binary
end MetricBridge
