import MetricBridge.Json.Printer
import MetricBridge.Json.Reader
import MetricBridge.Proofs.Decimal.Numeral

namespace MetricBridge

open Text (IsDigits digitsOf)

namespace Json

variable {t rest body whole : Text} {negative : Bool}

def Behind (rest : Text) : Prop :=
  ∀ c u, rest = c :: u → c ∈ [CodePoint.scalar ',', .scalar ']', .scalar '}']

theorem Behind.nil : Behind [] := nofun

theorem Behind.cons {c : CodePoint} (h : c ∈ [CodePoint.scalar ',', .scalar ']', .scalar '}'])
    (t : Text) : Behind (c :: t) := by
  rintro d u ⟨⟩
  exact h

/-- What stands behind a value has none of the properties of its code points. -/
theorem Behind.head {p : CodePoint → Bool} (h : Behind rest)
    (hp : ∀ c ∈ [CodePoint.scalar ',', .scalar ']', .scalar '}'], p c = false) :
    ∀ c u, rest = c :: u → p c = false :=
  fun c u heq => hp c (h c u heq)

theorem spanDigits_append (ht : IsDigits t) (hr : ∀ c u, rest = c :: u → isAsciiDigit c = false) :
    spanDigits (t ++ rest) = (t, rest) := by
  have hall : ∀ c ∈ t, isAsciiDigit c = true := ht
  unfold spanDigits
  rw [List.takeWhile_append_of_pos hall, List.dropWhile_append_of_pos hall]
  cases rest with
  | nil => simp
  | cons c u => simp [hr c u rfl]

def takeMinus : Text → Bool × Text
  | .scalar '-' :: t => (true, t)
  | t => (false, t)

def spanWhole : Text → Text × Text
  | .scalar '0' :: t => ([.scalar '0'], t)
  | t => spanDigits t

def numberOf (negative : Bool) (whole rest : Text) : Except Fault (Json × Text) :=
  let fraction := readFraction rest
  let (fractionDigits, rest) := fraction.getD ([], rest)
  let exponent := readExponent rest
  let (e, rest) := exponent.getD (0, rest)
  if fraction.isNone && exponent.isNone then
    match Text.natOfDigits (digitsOf whole) with
    | .ok n => .ok (.int (if negative then -(n : Int) else n), rest)
    | .error _ => .error .integerTooLong
  else
    let x := Text.nearestFloat (digitsOf (whole ++ fractionDigits)) (e - fractionDigits.length)
    .ok (.float (if negative then -x else x), rest)

theorem readNumber_def (t : Text) : readNumber t =
    if (spanWhole (takeMinus t).2).1.isEmpty then malformed .expectingValue t
    else numberOf (takeMinus t).1 (spanWhole (takeMinus t).2).1 (spanWhole (takeMinus t).2).2 := rfl

theorem readNumber_eq (hminus : takeMinus t = (negative, body))
    (hwhole : spanWhole body = (whole, rest)) (hne : whole ≠ []) :
    readNumber t = numberOf negative whole rest := by
  rw [readNumber_def, hminus, hwhole, if_neg (by simpa using hne)]

theorem readNumber_append (hne : whole ≠ []) (hw : IsDigits whole)
    (hzero : ∀ t, whole = .scalar '0' :: t → t = [])
    (hrest : ∀ c u, rest = c :: u → isAsciiDigit c = false) (negative : Bool) :
    readNumber ((if negative then [.scalar '-'] else []) ++ (whole ++ rest)) =
      numberOf negative whole rest := by
  obtain ⟨c, w, rfl⟩ := List.exists_cons_of_ne_nil hne
  have hc : c.isAsciiDigit = true := hw c List.mem_cons_self
  have hspan := spanDigits_append hw hrest
  have hminus : takeMinus ((if negative then [.scalar '-'] else []) ++ (c :: w ++ rest)) =
      (negative, c :: w ++ rest) := by
    cases negative
    · have hne : c ≠ .scalar '-' := by
        rintro rfl
        cases hc
      simp [takeMinus, hne]
    · rfl
  refine readNumber_eq hminus ?_ hne
  by_cases hc : c = .scalar '0'
  · subst hc
    rw [hzero w rfl]
    rfl
  · rw [← hspan]
    simp [spanWhole, hc]

theorem readFraction_behind (h : Behind rest) : readFraction rest = none := by
  cases rest with
  | nil => rfl
  | cons c u =>
      have hc : c ≠ .scalar '.' := by
        rintro rfl
        exact absurd (h _ _ rfl) (by decide)
      simp [readFraction, hc]

theorem readExponent_behind (h : Behind rest) : readExponent rest = none := by
  cases rest with
  | nil => rfl
  | cons c u =>
      have hall : ∀ c ∈ [CodePoint.scalar ',', .scalar ']', .scalar '}'],
          readExponent (c :: u) = none := by
        simp [readExponent]
      exact hall c (h c u rfl)

theorem readNumber_ofInt {n : Int} (hn : n.natAbs < 10 ^ integerDigitLimit) (h : Behind rest) :
    readNumber (Text.ofInt n ++ rest) = .ok (.int n, rest) := by
  have hnat : ∀ (k : Nat) (negative : Bool), k < 10 ^ integerDigitLimit →
      readNumber ((if negative then [.scalar '-'] else []) ++ (Text.ofNat k ++ rest)) =
        .ok (.int (if negative then -(k : Int) else k), rest) := by
    intro k negative hk
    have hdigits := Text.digitsOf_of_digitValues? (Text.digitValues?_ofNat k)
    have hzero : ∀ t, Text.ofNat k = .scalar '0' :: t → t = [] := by
      intro t ht
      rw [Text.eq_zero_of_ofNat ht] at ht
      exact (List.cons.inj ht).2.symm
    rw [readNumber_append (Text.ofNat_ne_nil k) (Text.isDigits_ofNat k) hzero (h.head (by decide))]
    simp [numberOf, readFraction_behind h, readExponent_behind h, hdigits,
      Text.natOfDigits_toDigits hk]
  cases n with
  | ofNat k => exact hnat k false hn
  | negSucc k => exact hnat (k + 1) true hn

/-- A numeral is read as its value, with a minus in front as the opposite. -/
theorem readNumber_text (n : Numeral) (negative : Bool) (h : Behind rest) :
    readNumber ((if negative then [.scalar '-'] else []) ++ n.text ++ rest) =
      .ok (.float (if negative then -n.value else n.value), rest) := by
  obtain ⟨whole, fraction, exponent, hne, hw, hzero, hf, he, hnot⟩ := n
  have hbehind : ∀ c u, Numeral.exponentText exponent ++ rest = c :: u → isAsciiDigit c = false := by
    intro c u heq
    cases exponent with
    | none => exact h.head (by decide) c u heq
    | some e =>
        cases heq
        rfl
  have hwhole : ∀ c u, Numeral.fractionText fraction ++ (Numeral.exponentText exponent ++ rest) =
      c :: u → isAsciiDigit c = false := by
    intro c u heq
    unfold Numeral.fractionText at heq
    split at heq
    · exact hbehind c u heq
    · cases heq
      rfl
  have hfraction := spanDigits_append hf hbehind
  unfold Numeral.text Numeral.value
  rw [List.append_assoc, List.append_assoc, List.append_assoc,
    readNumber_append hne hw hzero hwhole]
  have hexponent : ∀ e, exponent = some e → readExponent (Numeral.exponentText exponent ++ rest) =
      some (Numeral.exponentValue exponent, rest) := by
    rintro ⟨sign, digits⟩ rfl
    obtain ⟨hdne, hd⟩ : digits ≠ [] ∧ IsDigits digits := he _ rfl
    have hspan := spanDigits_append hd (h.head (by decide))
    simp [Numeral.exponentText, Numeral.exponentValue, readExponent, Numeral.takeSign_sign, hspan,
      hdne, digitsOf]
  by_cases hnil : fraction = []
  · subst hnil
    cases exponent with
    | none => exact absurd rfl (hnot.resolve_left fun h => h rfl)
    | some e =>
        have hnone : readFraction (Numeral.exponentText (some e) ++ rest) = none := by
          simp [Numeral.exponentText, readFraction]
        simp [numberOf, Numeral.fractionText, hnone, hexponent e rfl]
  · have hsome : readFraction (.scalar '.' :: fraction ++ (Numeral.exponentText exponent ++ rest)) =
        some (fraction, Numeral.exponentText exponent ++ rest) := by
      simp [readFraction, hfraction, hnil]
    rw [Numeral.fractionText, if_neg hnil, numberOf, hsome]
    cases exponent with
    | none => simp [Numeral.exponentText, Numeral.exponentValue, readExponent_behind h]
    | some e => simp [hexponent e rfl]

end Json
end MetricBridge
