import MetricBridge.Decimal.Reading
import Mathlib.Algebra.Group.Nat.Defs
import Mathlib.Tactic.Ring

namespace MetricBridge

namespace CodePoint

def isAsciiDigit (c : CodePoint) : Bool := c.satisfies Char.isDigit

theorem decimalValue?_ascii {c : Char} (h : c.isDigit = true) :
    (CodePoint.scalar c).decimalValue? = some (c.toNat - 48) := by
  have hc : 48 ≤ c.toNat ∧ c.toNat ≤ 57 := Char.isDigit_iff_toNat.mp h
  unfold decimalValue?
  rw [val]
  simp only [show c.toNat < 0x80 by omega, if_true]
  rw [if_pos]
  simp only [Bool.and_eq_true, decide_eq_true_eq]
  omega

theorem isDecimal_of_isAsciiDigit {c : CodePoint} (h : c.isAsciiDigit = true) :
    c.isDecimal = true := by
  cases c with
  | scalar c =>
      unfold isDecimal
      rw [decimalValue?_ascii h]
      rfl
  | surrogate => cases h

theorem decimalValue?_lt {c : CodePoint} {d : Nat} (h : c.decimalValue? = some d) : d < 10 := by
  unfold decimalValue? at h
  dsimp only at h
  split at h
  · split at h
    · rename_i hc
      simp at hc
      cases h
      omega
    · cases h
  · obtain ⟨first, hfirst, rfl⟩ := Option.map_eq_some_iff.mp h
    have hrange := List.find?_some hfirst
    simp at hrange
    omega

end CodePoint

namespace Text

theorem isAsciiDigit_of_mem_ofNat {n : Nat} {c : CodePoint} (h : c ∈ ofNat n) :
    c.isAsciiDigit = true := by
  obtain ⟨d, hd, rfl⟩ := List.mem_map.mp h
  exact Nat.isDigit_of_mem_toDigits (by decide) (by decide) hd

theorem ofNat_ne_nil (n : Nat) : ofNat n ≠ [] := by
  simp [ofNat, Nat.toDigits_ne_nil]

theorem digitValues?_map {cs : List Char} (h : ∀ c ∈ cs, c.isDigit = true) :
    digitValues? (cs.map .scalar) = some (cs.map fun c => c.toNat - 48) := by
  induction cs with
  | nil => rfl
  | cons c cs ih =>
      obtain ⟨hc, hcs⟩ := List.forall_mem_cons.mp h
      have hrest := ih hcs
      unfold digitValues? at hrest ⊢
      simp [List.mapM_cons, CodePoint.decimalValue?_ascii hc, hrest]

theorem digitValues?_ofNat (n : Nat) :
    digitValues? (ofNat n) = some ((Nat.toDigits 10 n).map fun c => c.toNat - 48) :=
  digitValues?_map fun _ hc => Nat.isDigit_of_mem_toDigits (by decide) (by decide) hc

theorem valueOfDigits_toDigits (n : Nat) :
    valueOfDigits ((Nat.toDigits 10 n).map fun c => c.toNat - 48) = n := by
  unfold valueOfDigits
  rw [List.foldl_map]
  exact Nat.ofDigitChars_ten_toDigits

theorem digitValues?_lt {t : Text} {digits : List Nat} (h : digitValues? t = some digits) :
    ∀ d ∈ digits, d < 10 := by
  induction t generalizing digits with
  | nil =>
      cases h
      nofun
  | cons c t ih =>
      unfold digitValues? at h
      rw [List.mapM_cons] at h
      obtain ⟨d, hd, h⟩ := Option.bind_eq_some_iff.mp h
      obtain ⟨ds, hds, h⟩ := Option.bind_eq_some_iff.mp h
      cases h
      exact List.forall_mem_cons.mpr ⟨CodePoint.decimalValue?_lt hd, ih hds⟩

theorem foldl_digits_lt {digits : List Nat} (h : ∀ d ∈ digits, d < 10) (n : Nat) :
    digits.foldl (fun n d => 10 * n + d) n < 10 ^ digits.length * (n + 1) := by
  induction digits generalizing n with
  | nil => simp
  | cons d digits ih =>
      obtain ⟨hd, hdigits⟩ := List.forall_mem_cons.mp h
      calc digits.foldl (fun n d => 10 * n + d) (10 * n + d)
          < 10 ^ digits.length * (10 * n + d + 1) := ih hdigits _
        _ ≤ 10 ^ digits.length * (10 * (n + 1)) := Nat.mul_le_mul_left _ (by omega)
        _ = 10 ^ (digits.length + 1) * (n + 1) := by rw [Nat.pow_succ, Nat.mul_assoc]

theorem valueOfDigits_lt {digits : List Nat} (h : ∀ d ∈ digits, d < 10) :
    valueOfDigits digits < 10 ^ digits.length := by
  simpa [valueOfDigits] using foldl_digits_lt h 0

theorem foldl_digits_eq (digits : List Nat) (n : Nat) :
    digits.foldl (fun n d => 10 * n + d) n = n * 10 ^ digits.length + valueOfDigits digits := by
  induction digits generalizing n with
  | nil => simp [valueOfDigits]
  | cons d digits ih =>
      have hcons : valueOfDigits (d :: digits) = _ := ih (10 * 0 + d)
      rw [List.foldl_cons, ih, hcons, List.length_cons, Nat.pow_succ]
      ring

theorem valueOfDigits_append (digits digits' : List Nat) : valueOfDigits (digits ++ digits') =
    valueOfDigits digits * 10 ^ digits'.length + valueOfDigits digits' := by
  rw [valueOfDigits, List.foldl_append, foldl_digits_eq]
  rfl

theorem valueOfDigits_replicate_zero (k : Nat) : valueOfDigits (List.replicate k 0) = 0 := by
  induction k with
  | zero => rfl
  | succ k ih =>
      rw [List.replicate_succ, valueOfDigits, List.foldl_cons]
      exact ih

/-- Zeros in front do not count. -/
theorem valueOfDigits_dropWhile (digits : List Nat) :
    valueOfDigits (digits.dropWhile (· == 0)) = valueOfDigits digits := by
  induction digits with
  | nil => rfl
  | cons d digits ih =>
      by_cases hd : d = 0
      · subst hd
        exact ih
      · rw [List.dropWhile_cons_of_neg (by simpa using hd)]

theorem le_valueOfDigits {d : Nat} (hd : d ≠ 0) (digits : List Nat) :
    10 ^ digits.length ≤ valueOfDigits (d :: digits) := by
  rw [valueOfDigits, List.foldl_cons, foldl_digits_eq]
  exact Nat.le_add_right_of_le (Nat.le_mul_of_pos_left _ (by omega))

/-- A number within the limit of digits is read back. -/
theorem natOfDigits_toDigits {n : Nat} (h : n < 10 ^ integerDigitLimit) :
    natOfDigits ((Nat.toDigits 10 n).map fun c => c.toNat - 48) = .ok n := by
  have hlength : (Nat.toDigits 10 n).length ≤ integerDigitLimit :=
    (Nat.length_toDigits_le_iff (by decide) (by decide)).mpr h
  unfold natOfDigits
  rw [valueOfDigits_toDigits, if_neg]
  simpa using hlength

theorem natOfDigits_lt_of_forall {digits : List Nat} {n : Nat} (hdigits : ∀ d ∈ digits, d < 10)
    (h : natOfDigits digits = .ok n) : n < 10 ^ integerDigitLimit := by
  unfold natOfDigits at h
  split at h
  · cases h
  · rename_i hlength
    cases h
    calc valueOfDigits digits < 10 ^ digits.length := valueOfDigits_lt hdigits
      _ ≤ 10 ^ integerDigitLimit := Nat.pow_le_pow_right (by decide) (Nat.le_of_not_gt hlength)

theorem natOfDigits_lt {t : Text} {digits : List Nat} {n : Nat} (ht : digitValues? t = some digits)
    (h : natOfDigits digits = .ok n) : n < 10 ^ integerDigitLimit :=
  natOfDigits_lt_of_forall (digitValues?_lt ht) h

end Text
end MetricBridge
