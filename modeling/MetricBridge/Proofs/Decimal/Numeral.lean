import MetricBridge.Proofs.Decimal.Written

namespace MetricBridge

open Text (IsDigits)

namespace Text

theorem takeDigits_append {t rest : Text} (h : IsDigits t)
    (hrest : ∀ c u, rest = c :: u → c.decimalValue? = none) :
    takeDigits (t ++ rest) = (digitsOf t, rest) := by
  induction t with
  | nil =>
      cases rest with
      | nil => rfl
      | cons c u => simp [takeDigits, hrest c u rfl, digitsOf]
  | cons c t ih =>
      obtain ⟨hc, ht⟩ := List.forall_mem_cons.mp h
      obtain ⟨n, hn⟩ := exists_decimalValue hc
      simp [takeDigits, hn, ih ht, digitsOf]

theorem stripWhere_of_forall {p : CodePoint → Bool} {t : Text} (h : ∀ c ∈ t, p c = false) :
    stripWhere p t = t := by
  have hdrop : ∀ u : Text, (∀ c ∈ u, p c = false) → u.dropWhile p = u := by
    intro u hu
    cases u with
    | nil => rfl
    | cons c u => simp [hu c List.mem_cons_self]
  rw [stripWhere, hdrop t h, hdrop _ fun c hc => h c (List.mem_reverse.mp hc), List.reverse_reverse]

theorem dropSeparators_of_notMem {t : Text} (h : CodePoint.scalar '_' ∉ t) (previous : Bool) :
    dropSeparators previous t = some t := by
  induction t generalizing previous with
  | nil => rfl
  | cons c t ih =>
      rw [List.mem_cons, not_or] at h
      simp [dropSeparators, Ne.symm h.1, ih h.2]

end Text

namespace Numeral

open Text (digitsOf)

def value (n : Numeral) : Float :=
  Text.nearestFloat (digitsOf (n.whole ++ n.fraction)) (exponentValue n.exponent - n.fraction.length)

theorem takeSign_sign (negative : Bool) (t : Text) :
    Text.takeSign (.scalar (if negative then '-' else '+') :: t) = (negative, t) := by
  cases negative <;> rfl

theorem eq_of_exponentText {exponent : Option (Bool × Text)} {c : CodePoint} {u : Text}
    (h : exponentText exponent = c :: u) : c = .scalar 'e' := by
  cases exponent with
  | none => cases h
  | some e =>
      cases h
      rfl

theorem decimalFloat?_text (n : Numeral) : Text.decimalFloat? n.text = some n.value := by
  obtain ⟨whole, fraction, exponent, hne, hw, hzero, hf, he, hnot⟩ := n
  have hpoint : (CodePoint.scalar '.').decimalValue? = none := by decide
  have hletter : (CodePoint.scalar 'e').decimalValue? = none := by decide
  have hbehind : ∀ c u, exponentText exponent = c :: u → c.decimalValue? = none := by
    intro c u h
    rw [eq_of_exponentText h, hletter]
  have hwhole : Text.takeDigits (whole ++ (fractionText fraction ++ exponentText exponent)) =
      (digitsOf whole, fractionText fraction ++ exponentText exponent) := by
    refine Text.takeDigits_append hw fun c u h => ?_
    unfold fractionText at h
    split at h
    · exact hbehind c u h
    · cases h
      exact hpoint
  have hfraction := Text.takeDigits_append hf hbehind
  unfold text Text.decimalFloat? value
  simp only [hwhole, Text.digitsOf_append]
  cases exponent with
  | none =>
      have hnil : fraction ≠ [] := hnot.resolve_right fun h => h rfl
      rw [exponentText, List.append_nil] at hfraction ⊢
      simp [fractionText, hnil, hfraction, Text.digitsOf_ne_nil hne hw, Text.length_digitsOf hf,
        exponentValue]
  | some e =>
      obtain ⟨negative, digits⟩ := e
      obtain ⟨hdne, hd⟩ : digits ≠ [] ∧ IsDigits digits := he _ rfl
      have htake : Text.takeDigits (digits ++ []) = (digitsOf digits, []) :=
        Text.takeDigits_append hd fun _ _ h => by cases h
      rw [List.append_nil] at htake
      rw [exponentText] at hfraction ⊢
      by_cases hnil : fraction = []
      · simp [hnil, fractionText, takeSign_sign, htake, Text.digitsOf_ne_nil hne hw,
          Text.digitsOf_ne_nil hdne hd, exponentValue, Text.digitsOf_nil]
      · simp [hnil, fractionText, hfraction, takeSign_sign, htake, Text.digitsOf_ne_nil hne hw,
          Text.digitsOf_ne_nil hdne hd, exponentValue, Text.length_digitsOf hf]

theorem exists_digit (n : Numeral) : ∃ c u, n.text = c :: u ∧ c.isAsciiDigit = true :=
  n.isNumeral.cons

def alphabet : Text := "0123456789.e+-"

theorem mem_alphabet {c : CodePoint} (h : c.isAsciiDigit = true) : c ∈ alphabet := by
  cases c with
  | surrogate => cases h
  | scalar c =>
      have hall : ∀ n < 58, 48 ≤ n → CodePoint.scalar (Char.ofNat n) ∈ alphabet := by decide
      have hc : 48 ≤ c.toNat ∧ c.toNat ≤ 57 := Char.isDigit_iff_toNat.mp h
      have hmem := hall c.toNat (by omega) hc.1
      rwa [Char.ofNat_toNat] at hmem

theorem text_subset (n : Numeral) : n.text ⊆ alphabet := by
  obtain ⟨whole, fraction, exponent, -, hw, -, hf, he, -⟩ := n
  have hdigits : ∀ {t : Text}, IsDigits t → t ⊆ alphabet := fun h c hc => mem_alphabet (h c hc)
  refine List.append_subset.mpr ⟨hdigits hw, List.append_subset.mpr ⟨?_, ?_⟩⟩
  · unfold fractionText
    split
    · exact List.nil_subset _
    · exact List.cons_subset.mpr ⟨by decide, hdigits hf⟩
  · cases exponent with
    | none => exact List.nil_subset _
    | some e =>
        obtain ⟨negative, digits⟩ := e
        refine List.cons_subset.mpr ⟨by decide, List.cons_subset.mpr ⟨?_, hdigits (he _ rfl).2⟩⟩
        cases negative <;> decide

theorem not_word {c : CodePoint} (h : c.isAsciiDigit = true) (u : Text) :
    Text.isWordInAnyCase "inf" (c :: u) = false ∧
      Text.isWordInAnyCase "infinity" (c :: u) = false ∧
      Text.isWordInAnyCase "nan" (c :: u) = false := by
  have hmem := mem_alphabet h
  simp only [alphabet, lit, List.mem_map] at hmem
  obtain ⟨d, hd, rfl⟩ := hmem
  have hall : ("0123456789.e+-".toList.all fun d => d.toLower != 'i' && d.toLower != 'n') = true := by
    decide
  obtain ⟨hi, hn⟩ := Bool.and_eq_true_iff.mp (List.all_eq_true.mp hall d hd)
  rw [bne_iff_ne] at hi hn
  simp [Text.isWordInAnyCase, lit, hi, hn]

/-- A numeral is read as its value, with a minus in front as the opposite. -/
theorem readFloat_text (n : Numeral) (negative : Bool) :
    Text.readFloat ((if negative then [.scalar '-'] else []) ++ n.text) =
      .ok (if negative then -n.value else n.value) := by
  have hmargin : ∀ c ∈ alphabet, Text.isMargin c = false := by decide
  have hline : CodePoint.scalar '_' ∉ alphabet := by decide
  have hstrip : Text.stripWhere Text.isMargin ((if negative then [.scalar '-'] else []) ++ n.text) =
      (if negative then [.scalar '-'] else []) ++ n.text := by
    refine Text.stripWhere_of_forall fun c hc => hmargin c ?_
    rcases List.mem_append.mp hc with hc | hc
    · cases negative
      · cases hc
      · rw [List.mem_singleton.mp hc]
        decide
    · exact n.text_subset hc
  obtain ⟨c, u, htext, hc⟩ := n.exists_digit
  have hplain := Text.dropSeparators_of_notMem (fun h => hline (n.text_subset h)) false
  have hvalue := n.decimalFloat?_text
  have hsign : Text.takeSign ((if negative then [.scalar '-'] else []) ++ n.text) =
      (negative, n.text) := by
    cases negative
    · rw [htext]
      unfold Text.takeSign
      split
      · rename_i heq
        cases heq
        cases hc
      · rename_i heq
        cases heq
        cases hc
      · rfl
    · rfl
  obtain ⟨hinf, hinfinity, hnan⟩ := not_word hc u
  rw [htext] at hsign hstrip hplain hvalue ⊢
  unfold Text.readFloat
  simp [hstrip, hsign, hinf, hinfinity, hnan, hplain, hvalue]

end Numeral

end MetricBridge
