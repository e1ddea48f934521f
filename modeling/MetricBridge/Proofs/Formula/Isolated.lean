import MetricBridge.Proofs.Formula.Lexemes
import MetricBridge.Proofs.Formula.Scanning
import MetricBridge.Proofs.Formula.Strings

namespace MetricBridge

def CodePoint.isIsolatedDigit (c : CodePoint) : Bool := c.isAnyDigit && !c.isDecimal

namespace CodePoint

variable {c : CodePoint}

theorem isIsolatedDigit_iff :
    c.isIsolatedDigit = true ↔ c.isAnyDigit = true ∧ c.isDecimal = false := by
  rw [isIsolatedDigit, Bool.and_eq_true, Bool.not_eq_true']

theorem inRanges_of_isIsolatedDigit (h : c.isIsolatedDigit = true) :
    inRanges c.val isolatedDigits = true := by
  obtain ⟨hany, hdecimal⟩ := isIsolatedDigit_iff.mp h
  rwa [isAnyDigit, hdecimal, Bool.false_or] at hany

theorem le_of_isIsolatedDigit (h : c.isIsolatedDigit = true) : 0xB2 ≤ c.val := by
  have hfirst : ∀ r ∈ isolatedDigits, 0xB2 ≤ r.1 := by decide
  obtain ⟨r, hr, hc⟩ := List.any_eq_true.mp (inRanges_of_isIsolatedDigit h)
  exact Nat.le_trans (hfirst r hr) (of_decide_eq_true ((Bool.and_eq_true _ _).mp hc).1)

theorem ne_of_isIsolatedDigit (h : c.isIsolatedDigit = true) {d : CodePoint} (hd : d.val < 0xB2) :
    c ≠ d := by
  rintro rfl
  exact absurd (le_of_isIsolatedDigit h) (Nat.not_le_of_lt hd)

theorem isBlank_of_isIsolatedDigit (h : c.isIsolatedDigit = true) : c.isBlank = false := by
  have hrange := inRanges_of_isIsolatedDigit h
  by_contra hblank
  simp only [isBlank, Bool.not_eq_false, Bool.or_eq_true, Bool.and_eq_true, decide_eq_true_eq,
    beq_iff_eq] at hblank
  simp only [inRanges, isolatedDigits, List.any_cons, List.any_nil, Bool.or_false, Bool.or_eq_true,
    Bool.and_eq_true, decide_eq_true_eq] at hrange
  omega

end CodePoint

namespace Formula

variable {c : CodePoint} {t rest : Text} {l : Lexeme} {fuel position position' : Nat}

theorem scanLexeme_eq_ok (h : scanLexeme position t = .ok (l, rest)) :
    scanLexeme position' t = .ok (l, rest) := by
  cases t with
  | nil => exact h
  | cons c t =>
      unfold scanLexeme at h ⊢
      dsimp only at h ⊢
      split_ifs at h ⊢
      · split at h
        · rename_i hvalue
          obtain ⟨w, rfl, hw⟩ := scanString_eq_ok hvalue
          rw [hw _ _ _ _ (by rw [List.length_append]; omega)]
          exact h
        · cases h
      · exact h
      · exact h
      · split at h
        · exact h
        · cases h

theorem spanText_eq (p : CodePoint → Bool) (t : Text) : (spanText p t).1 ++ (spanText p t).2 = t :=
  List.takeWhile_append_dropWhile

theorem spanExponent_eq (t : Text) : (spanExponent t).1 ++ (spanExponent t).2 = t := by
  unfold spanExponent
  split
  · rename_i e u
    split_ifs
    · split
      rename_i sign body hsign
      have hbody : sign ++ body = u := by
        split at hsign <;> cases hsign <;> rfl
      have hdigits := spanText_eq CodePoint.isDecimal body
      subst hbody
      dsimp only
      split_ifs
      · rfl
      · simp [hdigits]
    · rfl
  · rfl

def spanFraction (whole : Text) : Text → Text × Text
  | .scalar '.' :: after =>
    let digits := spanText CodePoint.isDecimal after
    if whole.isEmpty && digits.1.isEmpty then ([], .scalar '.' :: after)
    else (.scalar '.' :: digits.1, digits.2)
  | t => ([], t)

theorem spanFraction_eq (whole t : Text) :
    (spanFraction whole t).1 ++ (spanFraction whole t).2 = t := by
  unfold spanFraction
  split
  · rename_i after
    dsimp only
    split_ifs
    · rfl
    · rw [List.cons_append, spanText_eq]
  · rfl

theorem spanFraction_eq_nil : (spanFraction [] t).1 = [] ↔
    ∀ u, t = .scalar '.' :: u → u.takeWhile CodePoint.isDecimal = [] := by
  unfold spanFraction
  split
  · rename_i after
    dsimp only [spanText]
    split_ifs with hempty
    · simpa using hempty
    · simpa using hempty
  · rename_i hpoint
    exact ⟨fun _ u hu => absurd hu (hpoint u), fun _ => rfl⟩

theorem spanNumber_def (t : Text) : spanNumber t =
    let whole := spanText CodePoint.isDecimal t
    let fraction := spanFraction whole.1 whole.2
    if whole.1.isEmpty && fraction.1.isEmpty then ([], t)
    else (whole.1 ++ fraction.1 ++ (spanExponent fraction.2).1, (spanExponent fraction.2).2) := by
  unfold spanNumber
  dsimp only
  split
  · rename_i hpoint
    rw [hpoint]
    rfl
  · rename_i hpoint
    have hnone : spanFraction (spanText CodePoint.isDecimal t).1 (spanText CodePoint.isDecimal t).2 =
        ([], (spanText CodePoint.isDecimal t).2) := by
      unfold spanFraction
      split
      · rename_i hrest
        exact absurd hrest (hpoint _)
      · rfl
    rw [hnone]

theorem spanNumber_eq (t : Text) : (spanNumber t).1 ++ (spanNumber t).2 = t := by
  rw [spanNumber_def]
  dsimp only
  split_ifs
  · rfl
  · rw [List.append_assoc, spanExponent_eq, List.append_assoc, spanFraction_eq, spanText_eq]

/-- No number stands where no digit of a decimal system does, at once or behind a point. -/
theorem spanNumber_eq_nil : (spanNumber t).1 = [] ↔
    t.takeWhile CodePoint.isDecimal = [] ∧
      ∀ u, t = .scalar '.' :: u → u.takeWhile CodePoint.isDecimal = [] := by
  rw [spanNumber_def]
  dsimp only [spanText]
  cases hwhole : t.takeWhile CodePoint.isDecimal with
  | nil =>
      have hrest : t.dropWhile CodePoint.isDecimal = t := by
        have happend := List.takeWhile_append_dropWhile (p := CodePoint.isDecimal) (l := t)
        rwa [hwhole] at happend
      rw [hrest, ← spanFraction_eq_nil]
      split_ifs with hempty
      · simpa using hempty
      · have hne : (spanFraction [] t).1 ≠ [] := by simpa using hempty
        simp [hne]
  | cons => simp

def StartsIsolated (t : Text) : Prop :=
  ∃ c u, c.isIsolatedDigit = true ∧ (t = c :: u ∨ t = .scalar '.' :: c :: u)

theorem startsIsolated_iff : StartsIsolated t ↔ startsNumber t = true ∧ (spanNumber t).1 = [] := by
  rw [spanNumber_eq_nil]
  constructor
  · rintro ⟨c, u, hc, rfl | rfl⟩
    · have hpoint : c ≠ .scalar '.' := CodePoint.ne_of_isIsolatedDigit hc (by decide)
      obtain ⟨hany, hdecimal⟩ := CodePoint.isIsolatedDigit_iff.mp hc
      refine ⟨by rwa [startsNumber_cons hpoint], by simp [hdecimal], ?_⟩
      rintro v heq
      exact absurd (List.cons.inj heq).1 hpoint
    · obtain ⟨hany, hdecimal⟩ := CodePoint.isIsolatedDigit_iff.mp hc
      refine ⟨hany, rfl, ?_⟩
      rintro v ⟨⟩
      simp [hdecimal]
  · rintro ⟨hstart, hwhole, hfraction⟩
    have hdecimal : ∀ {c : CodePoint} {u : Text},
        (c :: u).takeWhile CodePoint.isDecimal = [] → c.isDecimal = false := by
      intro c u hnil
      simpa [List.takeWhile_cons] using hnil
    unfold startsNumber at hstart
    split at hstart
    · rename_i c u
      exact ⟨c, u, CodePoint.isIsolatedDigit_iff.mpr ⟨hstart, hdecimal (hfraction _ rfl)⟩, .inr rfl⟩
    · rename_i c u _
      exact ⟨c, u, CodePoint.isIsolatedDigit_iff.mpr ⟨hstart, hdecimal hwhole⟩, .inl rfl⟩
    · cases hstart

theorem scanLexeme_isolated :
    scanLexeme position t = .error .isolatedDigit ↔ StartsIsolated t := by
  cases t with
  | nil => exact ⟨nofun, fun ⟨_, _, _, h⟩ => by simp at h⟩
  | cons c u =>
      rw [startsIsolated_iff]
      unfold scanLexeme
      dsimp only
      split
      · rename_i hquote
        have hstart : startsNumber (c :: u) = false := by rcases hquote with rfl | rfl <;> rfl
        rw [hstart]
        split <;> simp
      · split
        · rename_i hstart
          rw [hstart]
          split <;> simp_all
        · rename_i hstart
          split
          · simp [hstart]
          · split <;> simp [hstart]

inductive Comes : Text → Text → Prop
  | stop (t : Text) : Comes t t
  | blank {c : CodePoint} {t rest : Text} (hc : c.isBlank = true) (h : Comes t rest) :
      Comes (c :: t) rest
  | lexeme {c : CodePoint} {t more rest : Text} {l : Lexeme} (hc : c.isBlank = false)
      (hl : ∀ position, scanLexeme position (c :: t) = .ok (l, more)) (h : Comes more rest) :
      Comes (c :: t) rest

theorem scanLexeme_suffix {c : CodePoint} (h : scanLexeme position (c :: t) = .ok (l, rest)) :
    rest <:+ t := by
  -- what remains is a part of the text, and not all of it
  have hsuffix : ∀ {w : Text}, w ≠ [] → w ++ rest = c :: t → rest <:+ t := by
    intro w hw hwhole
    cases w with
    | nil => exact absurd rfl hw
    | cons d w => exact ⟨w, (List.cons.inj hwhole).2⟩
  unfold scanLexeme at h
  dsimp only at h
  split_ifs at h with hquote hstart hempty hname
  · split at h
    · rename_i hvalue
      cases h
      obtain ⟨w, rfl, -⟩ := scanString_eq_ok hvalue
      exact List.suffix_append w rest
    · cases h
  · cases h
    exact hsuffix (by simpa using hempty) (spanNumber_eq (c :: t))
  · cases h
    have hpart : isNamePart c = true := by rw [isNamePart, hname, Bool.true_or]
    rw [spanText, List.dropWhile_cons_of_pos hpart]
    exact List.dropWhile_suffix _
  · split at h
    · rename_i d _
      cases h
      have hspelling : 0 < d.spelling.length := by cases d <;> decide
      rw [← Nat.sub_add_cancel hspelling, List.drop_succ_cons]
      exact List.drop_suffix _ t
    · cases h

theorem scanLexeme_length {c : CodePoint} (h : scanLexeme position (c :: t) = .ok (l, rest)) :
    rest.length ≤ t.length :=
  (scanLexeme_suffix h).length_le

theorem comes_of_scanFrom (h : scanFrom fuel position t = .error .isolatedDigit) :
    ∃ rest, Comes t rest ∧ StartsIsolated rest := by
  induction fuel generalizing position t with
  | zero => cases h
  | succ fuel ih =>
      unfold scanFrom at h
      split at h
      · cases h
      · rename_i c t
        split_ifs at h with hfeed hblank
        · obtain ⟨rest, hcomes, hrest⟩ := ih (map_eq_error h)
          exact ⟨rest, .blank (by rw [hfeed]; rfl) hcomes, hrest⟩
        · obtain ⟨rest, hcomes, hrest⟩ := ih h
          exact ⟨rest, .blank hblank hcomes, hrest⟩
        · split at h
          · rename_i hl
            cases h
            exact ⟨c :: t, .stop _, scanLexeme_isolated.mp hl⟩
          · rename_i l more hl
            obtain ⟨rest, hcomes, hrest⟩ := ih (map_eq_error h)
            have hsame : ∀ position', scanLexeme position' (c :: t) = .ok (l, more) :=
              fun _ => scanLexeme_eq_ok hl
            exact ⟨rest, .lexeme (by simpa using hblank) hsame hcomes, hrest⟩

theorem StartsIsolated.exists_cons (h : StartsIsolated t) :
    ∃ c u, t = c :: u ∧ c.isBlank = false := by
  obtain ⟨c, u, hc, rfl | rfl⟩ := h
  · exact ⟨c, u, rfl, CodePoint.isBlank_of_isIsolatedDigit hc⟩
  · exact ⟨_, _, rfl, rfl⟩

theorem scanFrom_of_comes (h : Comes t rest) (hrest : StartsIsolated rest)
    (hfuel : t.length < fuel) : scanFrom fuel position t = .error .isolatedDigit := by
  have hfeed : ∀ {c : CodePoint}, c.isBlank = false → c ≠ .scalar '\n' := by
    rintro c hc rfl
    cases hc
  induction h generalizing fuel position with
  | stop t =>
      obtain ⟨c, u, rfl, hc⟩ := hrest.exists_cons
      cases fuel with
      | zero => cases hfuel
      | succ fuel =>
          rw [scanFrom, if_neg (hfeed hc), if_neg (Bool.eq_false_iff.mp hc),
            scanLexeme_isolated.mpr hrest]
  | @blank c t rest hc _ ih =>
      cases fuel with
      | zero => cases hfuel
      | succ fuel =>
          have hmore : ∀ position, scanFrom fuel position t = .error .isolatedDigit :=
            fun _ => ih hrest (Nat.lt_of_succ_lt_succ hfuel)
          rw [scanFrom, hmore]
          split_ifs <;> rfl
  | @lexeme c t more rest l hc hl _ ih =>
      cases fuel with
      | zero => cases hfuel
      | succ fuel =>
          have hlength : more.length < fuel :=
            Nat.lt_of_le_of_lt (scanLexeme_length (hl 0)) (Nat.lt_of_succ_lt_succ hfuel)
          rw [scanFrom, if_neg (hfeed hc), if_neg (Bool.eq_false_iff.mp hc), hl]
          dsimp only
          rw [ih hrest hlength]
          rfl

/-- A text is not split into tokens for an isolated digit that the scanner comes to. -/
theorem tokenize_isolated :
    tokenize t = .error .isolatedDigit ↔ ∃ rest, Comes t rest ∧ StartsIsolated rest :=
  ⟨comes_of_scanFrom, fun ⟨_, hcomes, hrest⟩ =>
    scanFrom_of_comes hcomes hrest (Nat.lt_succ_self _)⟩

end Formula
end MetricBridge
