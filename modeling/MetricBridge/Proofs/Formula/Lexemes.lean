import MetricBridge.Formula.Grammar
import MetricBridge.Proofs.Decimal.Written

namespace MetricBridge.Formula

open Text (IsDigits IsNumeral)

variable {t rest : Text} {c : CodePoint} {position : Nat}

def closers : Text := " ),!:;]\x7d"

def attached : Text := lit ".([" ++ closers

def apart : Text := lit "([" ++ closers

def Before (cs rest : Text) : Prop := ∀ c u, rest = c :: u → c ∈ cs

abbrev Closed : Text → Prop := Before closers

namespace Before

variable {cs cs' : Text}

theorem nil : Before cs [] := nofun

theorem cons (h : c ∈ cs) : Before cs (c :: t) := by
  rintro d u heq
  cases heq
  exact h

theorem mono (h : Before cs rest) (hcs : cs ⊆ cs') : Before cs' rest :=
  fun c u heq => hcs (h c u heq)

theorem head {p : CodePoint → Bool} (h : Before cs rest) (hp : ∀ c ∈ cs, p c = false) :
    ∀ c u, rest = c :: u → p c = false :=
  fun c u heq => hp c (h c u heq)

end Before

theorem spanText_append {p : CodePoint → Bool} (ht : ∀ c ∈ t, p c = true)
    (hr : ∀ c u, rest = c :: u → p c = false) : spanText p (t ++ rest) = (t, rest) := by
  unfold spanText
  rw [List.takeWhile_append_of_pos ht, List.dropWhile_append_of_pos ht]
  cases rest with
  | nil => simp
  | cons c u => simp [hr c u rfl]

def IsName (t : Text) : Prop :=
  (∃ c u, t = c :: u ∧ isNameStart c = true) ∧ ∀ c ∈ t, isNamePart c = true

theorem forall_ascii {P : CodePoint → Prop} (h : ∀ n < 128, P (.scalar (Char.ofNat n))) {c : Char}
    (hc : c.toNat < 128) : P (.scalar c) := by
  have hn := h c.toNat hc
  rwa [Char.ofNat_toNat] at hn

theorem isNameStart_ascii {c : Char} (h : isNameStart (.scalar c) = true) : c.toNat < 128 := by
  have hletter : c.isAlpha = true → c.toNat < 128 := by
    intro hc
    rcases (Bool.or_eq_true c.isUpper c.isLower).mp hc with hc | hc
    · exact Nat.lt_of_le_of_lt (of_decide_eq_true hc).2 (by decide)
    · have hlower := (Bool.and_eq_true _ _).mp hc
      exact Nat.lt_of_le_of_lt (of_decide_eq_true hlower.2) (by decide)
  simp only [isNameStart, CodePoint.isAsciiLetter, CodePoint.satisfies, Bool.or_eq_true,
    beq_iff_eq, CodePoint.scalar.injEq] at h
  rcases h with (h | rfl) | rfl
  · exact hletter h
  · decide
  · decide

theorem isNameStart_facts (h : isNameStart c = true) :
    c ≠ .scalar '"' ∧ c ≠ .scalar '\'' ∧ c ≠ .scalar '.' ∧ c.isAnyDigit = false ∧
      c.isBlank = false := by
  cases c with
  | surrogate => cases h
  | scalar c =>
      refine forall_ascii (P := fun c => isNameStart c = true → c ≠ .scalar '"' ∧
        c ≠ .scalar '\'' ∧ c ≠ .scalar '.' ∧ c.isAnyDigit = false ∧ c.isBlank = false) ?_
        (isNameStart_ascii h) h
      decide +kernel

theorem isAsciiDigit_facts (h : c.isAsciiDigit = true) :
    c ≠ .scalar '"' ∧ c ≠ .scalar '\'' ∧ c ≠ .scalar '.' ∧ c.isAnyDigit = true ∧
      c.isBlank = false := by
  cases c with
  | surrogate => cases h
  | scalar c =>
      have hc : 48 ≤ c.toNat ∧ c.toNat ≤ 57 := Char.isDigit_iff_toNat.mp h
      refine forall_ascii (P := fun c => c.isAsciiDigit = true → c ≠ .scalar '"' ∧
        c ≠ .scalar '\'' ∧ c ≠ .scalar '.' ∧ c.isAnyDigit = true ∧ c.isBlank = false) ?_
        (by omega) h
      decide +kernel

theorem startsNumber_cons (hc : c ≠ .scalar '.') : startsNumber (c :: t) = c.isAnyDigit := by
  unfold startsNumber
  split
  · rename_i heq
    cases heq
    exact absurd rfl hc
  · rename_i heq
    cases heq
    rfl
  · rename_i heq
    cases heq

theorem scanLexeme_name (h : IsName t) (hr : ∀ c u, rest = c :: u → isNamePart c = false) :
    scanLexeme position (t ++ rest) = .ok (.name t, rest) := by
  obtain ⟨⟨c, u, rfl, hc⟩, hparts⟩ := h
  obtain ⟨hquote, hquote', hdot, hdigit, -⟩ := isNameStart_facts hc
  have hspan := spanText_append hparts hr
  rw [List.cons_append] at hspan ⊢
  unfold scanLexeme
  simp [hquote, hquote', startsNumber_cons hdot, hdigit, hc, hspan]

def EndsNumber (rest : Text) : Prop :=
  ∀ c u, rest = c :: u → c.isDecimal = false ∧ c ≠ .scalar 'e' ∧ c ≠ .scalar 'E'

theorem Before.endsNumber (h : Before attached rest) : EndsNumber rest := by
  have hall : ∀ c ∈ attached, c.isDecimal = false ∧ c ≠ .scalar 'e' ∧ c ≠ .scalar 'E' := by decide
  exact fun c u heq => hall c (h c u heq)

theorem spanDigits_append (ht : IsDigits t) (hr : ∀ c u, rest = c :: u → c.isDecimal = false) :
    spanText CodePoint.isDecimal (t ++ rest) = (t, rest) :=
  spanText_append (fun c hc => CodePoint.isDecimal_of_isAsciiDigit (ht c hc)) hr

theorem spanExponent_eq_nil (h : EndsNumber rest) : spanExponent rest = ([], rest) := by
  cases rest with
  | nil => rfl
  | cons c u =>
      obtain ⟨-, he, hE⟩ := h c u rfl
      cases c with
      | surrogate => rfl
      | scalar c =>
          have he : c ≠ 'e' := fun heq => he (by rw [heq])
          have hE : c ≠ 'E' := fun heq => hE (by rw [heq])
          simp [spanExponent, he, hE]

theorem spanExponent_append {sign : CodePoint} (hs : sign = .scalar '+' ∨ sign = .scalar '-')
    (hne : t ≠ []) (ht : IsDigits t) (hr : EndsNumber rest) :
    spanExponent (.scalar 'e' :: sign :: t ++ rest) = (.scalar 'e' :: sign :: t, rest) := by
  have hspan := spanDigits_append ht fun c u heq => (hr c u heq).1
  rcases hs with rfl | rfl <;> simp [spanExponent, hspan, hne]

/-- A run of digits is a number where it ends and no point stands behind. -/
theorem spanNumber_digits (hne : t ≠ []) (ht : IsDigits t) (hr : EndsNumber rest)
    (hpoint : ∀ u, rest ≠ .scalar '.' :: u) : spanNumber (t ++ rest) = (t, rest) := by
  have hspan := spanDigits_append ht fun c u heq => (hr c u heq).1
  have hexponent := spanExponent_eq_nil hr
  unfold spanNumber
  rw [hspan]
  dsimp only
  split
  · exact absurd rfl (hpoint _)
  · simp [hne, hexponent]

theorem spanDigits_point (ht : IsDigits t) (rest : Text) :
    spanText CodePoint.isDecimal (t ++ .scalar '.' :: rest) = (t, .scalar '.' :: rest) := by
  refine spanDigits_append ht fun c u heq => ?_
  cases heq
  decide

theorem spanDigits_exponent (ht : IsDigits t) (rest : Text) :
    spanText CodePoint.isDecimal (t ++ .scalar 'e' :: rest) = (t, .scalar 'e' :: rest) := by
  refine spanDigits_append ht fun c u heq => ?_
  cases heq
  decide

theorem spanNumber_numeral (ht : IsNumeral t) (hr : EndsNumber rest) :
    spanNumber (t ++ rest) = (t, rest) := by
  cases ht with
  | @point whole fraction hne hw hf =>
      have hpoint := spanDigits_point hw (fraction ++ rest)
      have hspan := spanDigits_append hf fun c u heq => (hr c u heq).1
      unfold spanNumber
      simp [hpoint, hspan, hne, spanExponent_eq_nil hr]
  | @exponent whole sign digits hne hw hs hd he =>
      have hspan := spanDigits_exponent hw (sign :: digits ++ rest)
      have hexponent := spanExponent_append hs hd he hr
      unfold spanNumber
      simp only [List.append_assoc, List.cons_append] at hspan hexponent ⊢
      simp [hspan, hne, hexponent]
  | @both whole fraction sign digits hne hw hf hs hd he =>
      have hpoint := spanDigits_point hw (fraction ++ .scalar 'e' :: sign :: digits ++ rest)
      have hspan := spanDigits_exponent hf (sign :: digits ++ rest)
      have hexponent := spanExponent_append hs hd he hr
      unfold spanNumber
      simp only [List.append_assoc, List.cons_append] at hpoint hspan hexponent ⊢
      simp [hpoint, hspan, hne, hexponent]

theorem scanLexeme_number (hc : c.isAsciiDigit = true)
    (hspan : spanNumber (c :: t ++ rest) = (c :: t, rest)) :
    scanLexeme position (c :: t ++ rest) = .ok (.number (c :: t), rest) := by
  obtain ⟨hquote, hquote', hdot, hdigit, -⟩ := isAsciiDigit_facts hc
  rw [List.cons_append] at hspan ⊢
  unfold scanLexeme
  simp [hquote, hquote', startsNumber_cons hdot, hdigit, hspan]

theorem Delimiter.spelling_cons {d : Delimiter} (hd : d ≠ .dot) : ∃ c u, d.spelling = c :: u ∧
    c ≠ .scalar '"' ∧ c ≠ .scalar '\'' ∧ isNameStart c = false ∧ c.isBlank = false ∧
    ∀ rest, startsNumber (c :: (u ++ rest)) = false := by
  -- a point alone could begin a number
  cases d <;> first
    | exact absurd rfl hd
    | exact ⟨_, _, rfl, by decide, by decide, by decide, by decide, fun rest => rfl⟩

/-- A delimiter is scanned where no longer one begins. -/
theorem scanLexeme_delimiter {d : Delimiter} (hd : d ≠ .dot)
    (h : Delimiter.first? (d.spelling ++ rest) = some d) :
    scanLexeme position (d.spelling ++ rest) = .ok (.delimiter d, rest) := by
  obtain ⟨c, u, hspelling, hquote, hquote', hname, -, hnumber⟩ := Delimiter.spelling_cons hd
  rw [hspelling, List.cons_append] at h ⊢
  unfold scanLexeme
  simp [hquote, hquote', hname, hnumber, h, hspelling]

theorem first?_blank (d : Delimiter) :
    Delimiter.first? (d.spelling ++ .scalar ' ' :: rest) = some d := by
  cases d <;> rfl

end MetricBridge.Formula
