import MetricBridge.Decimal.Layout
import MetricBridge.Proofs.Text.Digits

namespace MetricBridge

namespace Text

def IsDigits (t : Text) : Prop := ∀ c ∈ t, c.isAsciiDigit = true

theorem isDigits_ofNat (n : Nat) : IsDigits (ofNat n) := fun _ => isAsciiDigit_of_mem_ofNat

def digitsOf (t : Text) : List Nat := t.filterMap CodePoint.decimalValue?

theorem digitsOf_append (s t : Text) : digitsOf (s ++ t) = digitsOf s ++ digitsOf t :=
  List.filterMap_append ..

theorem digitsOf_lt (t : Text) : ∀ d ∈ digitsOf t, d < 10 := by
  intro d hd
  obtain ⟨c, -, hc⟩ := List.mem_filterMap.mp hd
  exact CodePoint.decimalValue?_lt hc

theorem exists_decimalValue {c : CodePoint} (h : c.isAsciiDigit = true) :
    ∃ n, c.decimalValue? = some n :=
  Option.isSome_iff_exists.mp (CodePoint.isDecimal_of_isAsciiDigit h)

theorem length_digitsOf {t : Text} (h : IsDigits t) : (digitsOf t).length = t.length := by
  induction t with
  | nil => rfl
  | cons c t ih =>
      obtain ⟨hc, ht⟩ := List.forall_mem_cons.mp h
      obtain ⟨n, hn⟩ := exists_decimalValue hc
      rw [digitsOf, List.filterMap_cons_some hn, List.length_cons, List.length_cons]
      exact congrArg (· + 1) (ih ht)

theorem digitsOf_nil : digitsOf [] = [] := rfl

theorem digitsOf_ne_nil {t : Text} (hne : t ≠ []) (h : IsDigits t) : digitsOf t ≠ [] := by
  rw [← List.length_pos_iff, length_digitsOf h]
  exact List.length_pos_iff.mpr hne

theorem digitsOf_of_digitValues? {t : Text} {digits : List Nat}
    (h : digitValues? t = some digits) : digitsOf t = digits := by
  induction t generalizing digits with
  | nil =>
      cases h
      rfl
  | cons c t ih =>
      unfold digitValues? at h
      rw [List.mapM_cons] at h
      obtain ⟨d, hd, h⟩ := Option.bind_eq_some_iff.mp h
      obtain ⟨ds, hds, h⟩ := Option.bind_eq_some_iff.mp h
      cases h
      rw [digitsOf, List.filterMap_cons_some hd]
      exact congrArg (d :: ·) (ih hds)

theorem valueOfDigits_ofNat (n : Nat) : valueOfDigits (digitsOf (ofNat n)) = n := by
  rw [digitsOf_of_digitValues? (digitValues?_ofNat n), valueOfDigits_toDigits]

/-- Digits, a point with a fraction, an exponent with a sign; of the last two one at least. -/
inductive IsNumeral : Text → Prop
  | point {whole fraction} (hne : whole ≠ []) (hw : IsDigits whole) (hf : IsDigits fraction) :
      IsNumeral (whole ++ .scalar '.' :: fraction)
  | exponent {whole sign digits} (hne : whole ≠ []) (hw : IsDigits whole)
      (hs : sign = .scalar '+' ∨ sign = .scalar '-') (hd : digits ≠ []) (he : IsDigits digits) :
      IsNumeral (whole ++ .scalar 'e' :: sign :: digits)
  | both {whole fraction sign digits} (hne : whole ≠ []) (hw : IsDigits whole)
      (hf : IsDigits fraction) (hs : sign = .scalar '+' ∨ sign = .scalar '-') (hd : digits ≠ [])
      (he : IsDigits digits) :
      IsNumeral (whole ++ .scalar '.' :: fraction ++ .scalar 'e' :: sign :: digits)

theorem IsNumeral.cons {t : Text} (h : IsNumeral t) :
    ∃ c u, t = c :: u ∧ c.isAsciiDigit = true := by
  have hhead : ∀ {whole more : Text}, whole ≠ [] → IsDigits whole →
      ∃ c u, whole ++ more = c :: u ∧ c.isAsciiDigit = true := by
    intro whole more hne hw
    obtain ⟨c, u, rfl⟩ := List.exists_cons_of_ne_nil hne
    exact ⟨c, u ++ more, rfl, hw c List.mem_cons_self⟩
  cases h with
  | point hne hw _ => exact hhead hne hw
  | exponent hne hw _ _ _ => exact hhead hne hw
  | both hne hw _ _ _ _ =>
      rw [List.append_assoc]
      exact hhead hne hw

theorem eq_zero_of_ofNat {n : Nat} {t : Text} (h : ofNat n = .scalar '0' :: t) : n = 0 := by
  induction n using Nat.strongRecOn generalizing t with
  | ind n ih =>
      rw [ofNat, Nat.toDigits_eq_if (by decide)] at h
      by_cases hn : n < 10
      · have hzero : n = 0 ∧ t = [] := by simpa [hn] using h
        exact hzero.1
      · rw [if_neg hn, List.map_append] at h
        obtain ⟨c, u, hcons⟩ := List.exists_cons_of_ne_nil (ofNat_ne_nil (n / 10))
        change ofNat (n / 10) ++ _ = _ at h
        rw [hcons] at h
        have hdiv := ih (n / 10) (by omega) (hcons.trans (congrArg (· :: u) (List.cons.inj h).1))
        omega

theorem eq_zero_of_take {n k : Nat} {t : Text} (h : (ofNat n).take k = .scalar '0' :: t) :
    n = 0 := by
  have happend := List.take_append_drop k (ofNat n)
  rw [h] at happend
  exact eq_zero_of_ofNat happend.symm

end Text

structure Numeral where
  whole : Text
  fraction : Text
  /-- Whether the exponent has a minus, and its digits. -/
  exponent : Option (Bool × Text)
  whole_ne : whole ≠ []
  whole_digits : Text.IsDigits whole
  whole_zero : ∀ t, whole = .scalar '0' :: t → t = []
  fraction_digits : Text.IsDigits fraction
  exponent_digits : ∀ e ∈ exponent, e.2 ≠ [] ∧ Text.IsDigits e.2
  not_whole : fraction ≠ [] ∨ exponent ≠ none

namespace Numeral

def fractionText (fraction : Text) : Text :=
  if fraction = [] then [] else .scalar '.' :: fraction

def exponentText : Option (Bool × Text) → Text
  | none => []
  | some (negative, digits) =>
      .scalar 'e' :: .scalar (if negative then '-' else '+') :: digits

def text (n : Numeral) : Text := n.whole ++ (fractionText n.fraction ++ exponentText n.exponent)

def exponentValue : Option (Bool × Text) → Int
  | none => 0
  | some (negative, digits) =>
      if negative then -(Text.valueOfDigits (Text.digitsOf digits) : Int)
      else Text.valueOfDigits (Text.digitsOf digits)

/-- Whether the numeral denotes the number of the decimal; its digits may end in additional zeros. -/
def Denotes (n : Numeral) (d : Decimal) : Prop :=
  ∃ k : Nat, Text.valueOfDigits (Text.digitsOf (n.whole ++ n.fraction)) = d.digits * 10 ^ k ∧
    (d.digits ≠ 0 → exponentValue n.exponent - n.fraction.length + k = d.exponent)

theorem isNumeral (n : Numeral) : Text.IsNumeral n.text := by
  obtain ⟨whole, fraction, exponent, hne, hw, -, hf, he, hwhole⟩ := n
  have hsign : ∀ negative : Bool, CodePoint.scalar (if negative then '-' else '+') = .scalar '+' ∨
      CodePoint.scalar (if negative then '-' else '+') = .scalar '-' := by decide
  unfold text fractionText exponentText
  dsimp only
  cases exponent with
  | none =>
      rw [if_neg (hwhole.resolve_right fun h => h rfl), List.append_nil]
      exact .point hne hw hf
  | some e =>
      obtain ⟨negative, digits⟩ := e
      obtain ⟨hd, he⟩ := he (negative, digits) rfl
      split
      · exact .exponent hne hw (hsign negative) hd he
      · rw [← List.append_assoc]
        exact .both hne hw hf (hsign negative) hd he

end Numeral

namespace NumberLayout

open Text

theorem isDigits_zeros (n : Int) : IsDigits (zeros n) := by
  intro c hc
  rw [List.eq_of_mem_replicate hc]
  rfl

theorem digitsOf_zeros (n : Int) : digitsOf (zeros n) = List.replicate n.toNat 0 :=
  List.filterMap_replicate_of_some rfl

theorem valueOfDigits_zeros_append (n : Int) (t : Text) :
    valueOfDigits (digitsOf (zeros n ++ t)) = valueOfDigits (digitsOf t) := by
  rw [digitsOf_append, digitsOf_zeros, valueOfDigits_append, valueOfDigits_replicate_zero]
  omega

theorem valueOfDigits_append_zeros (t : Text) (n : Int) :
    valueOfDigits (digitsOf (t ++ zeros n)) = valueOfDigits (digitsOf t) * 10 ^ n.toNat := by
  rw [digitsOf_append, digitsOf_zeros, valueOfDigits_append, valueOfDigits_replicate_zero,
    List.length_replicate]
  rfl

theorem exponentText_eq (e : Int) : ∃ negative digits,
    exponentText e = Numeral.exponentText (some (negative, digits)) ∧
      Numeral.exponentValue (some (negative, digits)) = e ∧ digits ≠ [] ∧ IsDigits digits := by
  have hdigits := isDigits_ofNat e.natAbs
  refine ⟨e < 0, if (ofNat e.natAbs).length < 2 then .scalar '0' :: ofNat e.natAbs else
    ofNat e.natAbs, by simp [exponentText, Numeral.exponentText], ?_, ?_, ?_⟩
  · have hvalue : valueOfDigits (digitsOf (if (ofNat e.natAbs).length < 2 then
        .scalar '0' :: ofNat e.natAbs else ofNat e.natAbs)) = e.natAbs := by
      split
      · exact (valueOfDigits_zeros_append 1 _).trans (valueOfDigits_ofNat _)
      · exact valueOfDigits_ofNat _
    simp only [Numeral.exponentValue, hvalue, decide_eq_true_eq]
    omega
  · split
    · nofun
    · exact ofNat_ne_nil _
  · split
    · exact List.forall_mem_cons.mpr ⟨rfl, hdigits⟩
    · exact hdigits

theorem exists_numeral_exponent (d : Decimal) {e : Int}
    (he : d.digits ≠ 0 → e + 1 = (ofNat d.digits).length + d.exponent) : ∃ numeral : Numeral,
    (ofNat d.digits).take 1 ++ (if ((ofNat d.digits).length : Int) = 1 then [] else
      .scalar '.' :: (ofNat d.digits).drop 1) ++ exponentText e = numeral.text ∧ numeral.Denotes d := by
  obtain ⟨negative, digits, heq, hvalue, hd, hexponent⟩ := exponentText_eq e
  have hdigits := isDigits_ofNat d.digits
  have hne := ofNat_ne_nil d.digits
  have hnumber := valueOfDigits_ofNat d.digits
  generalize ofNat d.digits = written at *
  obtain ⟨c, u, rfl⟩ := List.exists_cons_of_ne_nil hne
  obtain ⟨hc, hu⟩ := List.forall_mem_cons.mp hdigits
  refine ⟨⟨[c], u, some (negative, digits), nofun, List.forall_mem_singleton.mpr hc, ?_, hu, ?_,
    .inr nofun⟩, ?_, 0, ?_, fun hzero => ?_⟩
  · rintro t ⟨⟩
    rfl
  · rintro _ ⟨⟩
    exact ⟨hd, hexponent⟩
  · rw [heq]
    cases u with
    | nil => simp [Numeral.text, Numeral.fractionText]
    | cons d u =>
        have hlong : ¬((u.length : Int) + 1 + 1 = 1) := by omega
        simp [Numeral.text, Numeral.fractionText, hlong]
  · rw [Nat.pow_zero, Nat.mul_one]
    exact hnumber
  · have := he hzero
    rw [List.length_cons] at this
    dsimp only
    omega

variable {d : Decimal} {point : Int}

/-- The digits stand behind the point and zeros. -/
theorem exists_numeral_below (hpoint : d.digits ≠ 0 → (ofNat d.digits).length + d.exponent = point)
    (hle : point ≤ 0) : ∃ n : Numeral,
    [.scalar '0', .scalar '.'] ++ zeros (-point) ++ ofNat d.digits = n.text ∧ n.Denotes d := by
  have hne := ofNat_ne_nil d.digits
  refine ⟨⟨[.scalar '0'], zeros (-point) ++ ofNat d.digits, none, nofun,
    List.forall_mem_singleton.mpr rfl, ?_,
    List.forall_mem_append.mpr ⟨isDigits_zeros _, isDigits_ofNat d.digits⟩, nofun, .inl (by simp [hne])⟩,
    ?_, 0, ?_, fun hd => ?_⟩
  · rintro t ⟨⟩
    rfl
  · simp [Numeral.text, Numeral.fractionText, Numeral.exponentText, hne]
  · rw [Nat.pow_zero, Nat.mul_one]
    exact (valueOfDigits_zeros_append 1 _).trans
      ((valueOfDigits_zeros_append _ _).trans (valueOfDigits_ofNat d.digits))
  · have := hpoint hd
    simp only [Numeral.exponentValue, List.length_append, zeros, List.length_replicate]
    omega

/-- The digits stand before zeros and the point; for zero there are no more zeros. -/
theorem exists_numeral_above (hpoint : d.digits ≠ 0 → (ofNat d.digits).length + d.exponent = point)
    (hzero : d.digits = 0 → point = 1) (hle : (ofNat d.digits).length ≤ point) : ∃ n : Numeral,
    ofNat d.digits ++ zeros (point - (ofNat d.digits).length) ++ [.scalar '.', .scalar '0'] = n.text ∧
      n.Denotes d := by
  have hne := ofNat_ne_nil d.digits
  refine ⟨⟨ofNat d.digits ++ zeros (point - (ofNat d.digits).length), [.scalar '0'], none,
    by simp [hne], List.forall_mem_append.mpr ⟨isDigits_ofNat d.digits, isDigits_zeros _⟩, fun t h => ?_,
    List.forall_mem_singleton.mpr rfl, nofun, .inl nofun⟩, ?_,
    (point - (ofNat d.digits).length + 1).toNat, ?_, fun hd => ?_⟩
  · obtain ⟨c, u, hcons⟩ := List.exists_cons_of_ne_nil hne
    have hc : c = .scalar '0' := by
      rw [hcons] at h
      exact (List.cons.inj h).1
    have hd := eq_zero_of_ofNat (hc ▸ hcons)
    rw [hd, hzero hd] at h
    exact (List.cons.inj h).2.symm
  · simp [Numeral.text, Numeral.fractionText, Numeral.exponentText]
  · have hfirst := valueOfDigits_append_zeros (ofNat d.digits) (point - (ofNat d.digits).length)
    have hlast := valueOfDigits_append_zeros
      (ofNat d.digits ++ zeros (point - (ofNat d.digits).length)) 1
    have hexponent : (point - (ofNat d.digits).length + 1).toNat =
        (point - (ofNat d.digits).length).toNat + 1 := by omega
    rw [hfirst, valueOfDigits_ofNat, Nat.mul_assoc, ← Nat.pow_add] at hlast
    rw [hexponent]
    exact hlast
  · have := hpoint hd
    simp only [Numeral.exponentValue, List.length_singleton]
    omega

/-- The point stands inside of the digits. -/
theorem exists_numeral_inside (hpoint : d.digits ≠ 0 → (ofNat d.digits).length + d.exponent = point)
    (hd : d.digits ≠ 0) (hpos : 0 < point) (hlt : point < (ofNat d.digits).length) : ∃ n : Numeral,
    (ofNat d.digits).take point.toNat ++ [.scalar '.'] ++ (ofNat d.digits).drop point.toNat = n.text ∧
      n.Denotes d := by
  have hne := ofNat_ne_nil d.digits
  have hdigits := isDigits_ofNat d.digits
  have hlong : ¬(ofNat d.digits).length ≤ point.toNat := by omega
  refine ⟨⟨(ofNat d.digits).take point.toNat, (ofNat d.digits).drop point.toNat, none, ?_,
    fun c hc => hdigits c (List.mem_of_mem_take hc), fun t h => absurd (eq_zero_of_take h) hd,
    fun c hc => hdigits c (List.mem_of_mem_drop hc), nofun, .inl (by simpa using hlong)⟩, ?_, 0, ?_,
    fun _ => ?_⟩
  · simp [hne]
    omega
  · simp [Numeral.text, Numeral.fractionText, Numeral.exponentText, hlong]
  · rw [Nat.pow_zero, Nat.mul_one, List.take_append_drop]
    exact valueOfDigits_ofNat d.digits
  · have := hpoint hd
    simp only [Numeral.exponentValue, List.length_drop]
    omega

/-- A float in full is written as a numeral. -/
theorem exists_numeral (d : Decimal) : ∃ n : Numeral, full.decimal d = n.text ∧ n.Denotes d := by
  unfold decimal
  dsimp only
  generalize hplace : (if d.digits = 0 then (1 : Int) else (ofNat d.digits).length + d.exponent) = point
  have hzero : d.digits = 0 → point = 1 := fun hd => by rw [← hplace, if_pos hd]
  have hpoint : d.digits ≠ 0 → (ofNat d.digits).length + d.exponent = point :=
    fun hd => by rw [← hplace, if_neg hd]
  split
  · split
    · exact exists_numeral_below hpoint ‹_›
    · split
      · exact exists_numeral_above hpoint hzero ‹_›
      · have hd : d.digits ≠ 0 := by
          intro hd
          rename_i hlong
          rw [hd, hzero hd] at hlong
          exact hlong (by decide)
        exact exists_numeral_inside hpoint hd (by omega) (by omega)
  · refine exists_numeral_exponent d fun hd => ?_
    have := hpoint hd
    omega

end NumberLayout

end MetricBridge
