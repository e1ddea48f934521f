import MetricBridge.Proofs.Formula.Isolated

namespace MetricBridge

namespace CodePoint

theorem isDecimal_of_isBlank {c : CodePoint} (hc : c.isBlank = true) : c.isDecimal = false := by
  -- no decimal system meets a range of blanks
  have hzeros : ∀ first ∈ decimalZeros, (first + 10 ≤ 9 ∨ 13 < first) ∧
      (first + 10 ≤ 0x1C ∨ 0x20 < first) ∧ (first + 10 ≤ 0x85 ∨ 0x85 < first) ∧
      (first + 10 ≤ 0xA0 ∨ 0xA0 < first) ∧ (first + 10 ≤ 0x1680 ∨ 0x1680 < first) ∧
      (first + 10 ≤ 0x2000 ∨ 0x200A < first) ∧ (first + 10 ≤ 0x2028 ∨ 0x205F < first) ∧
      (first + 10 ≤ 0x3000 ∨ 0x3000 < first) := by
    decide
  simp only [isBlank, Bool.or_eq_true, Bool.and_eq_true, decide_eq_true_eq, beq_iff_eq] at hc
  rw [isDecimal, Option.isSome_eq_false_iff, Option.isNone_iff_eq_none, decimalValue?]
  split_ifs with hascii hrange
  · simp only [Bool.and_eq_true, decide_eq_true_eq] at hrange
    omega
  · rfl
  · rw [Option.map_eq_none_iff, List.find?_eq_none]
    intro first hfirst hrange
    have hzero := hzeros first hfirst
    simp only [Bool.and_eq_true, decide_eq_true_eq] at hrange
    omega

theorem isAnyDigit_of_isBlank {c : CodePoint} (hc : c.isBlank = true) : c.isAnyDigit = false := by
  by_contra hdigit
  rw [Bool.not_eq_false] at hdigit
  have hisolated := isIsolatedDigit_iff.mpr ⟨hdigit, isDecimal_of_isBlank hc⟩
  rw [isBlank_of_isIsolatedDigit hisolated] at hc
  cases hc

theorem isNamePart_of_isBlank {c : CodePoint} (hc : c.isBlank = true) :
    Formula.isNamePart c = false := by
  by_contra hpart
  rw [Bool.not_eq_false, Formula.isNamePart, Bool.or_eq_true] at hpart
  rcases hpart with hstart | hdigit
  · rw [(Formula.isNameStart_facts hstart).2.2.2.2] at hc
    cases hc
  · rw [(Formula.isAsciiDigit_facts hdigit).2.2.2.2] at hc
    cases hc
end CodePoint

namespace Formula

/-- Scanning the text gives the lexemes and comes to the rest. -/
inductive Scans : Text → List Lexeme → Text → Prop
  | stop (t) : Scans t [] t
  | feed {t ls rest} (h : Scans t ls rest) : Scans (.scalar '\n' :: t) (.newline :: ls) rest
  | blank {c t ls rest} (hc : c.isBlank = true) (hfeed : c ≠ .scalar '\n') (h : Scans t ls rest) :
      Scans (c :: t) ls rest
  | lexeme {c t l ls more rest} (hc : c.isBlank = false)
      (hl : ∀ position, scanLexeme position (c :: t) = .ok (l, more)) (h : Scans more ls rest) :
      Scans (c :: t) (l :: ls) rest

variable {c : CodePoint} {t u u' v w before after rest more : Text} {l : Lexeme}
  {ls ls' : List Lexeme} {ts : List Token} {fuel position : Nat}

theorem ne_feed_of_not_blank (hc : c.isBlank = false) : c ≠ .scalar '\n' := by
  rintro rfl
  cases hc

namespace Scans

theorem trans (h : Scans t ls more) (h' : Scans more ls' rest) : Scans t (ls ++ ls') rest := by
  induction h with
  | stop => exact h'
  | feed _ ih => exact .feed (ih h')
  | blank hc hfeed _ ih => exact .blank hc hfeed (ih h')
  | lexeme hc hl _ ih => exact .lexeme hc hl (ih h')

theorem cut (h : Scans t ls rest) {all : List Lexeme} (hall : Scans t all []) :
    ∃ ls', all = ls ++ ls' ∧ Scans rest ls' [] := by
  induction h generalizing all with
  | stop => exact ⟨all, rfl, hall⟩
  | feed _ ih =>
      cases hall with
      | feed hall =>
          obtain ⟨ls', rfl, hrest⟩ := ih hall
          exact ⟨ls', rfl, hrest⟩
      | blank _ hfeed => exact absurd rfl hfeed
      | lexeme hc => cases hc
  | blank hc hfeed _ ih =>
      cases hall with
      | feed => exact absurd rfl hfeed
      | blank _ _ hall => exact ih hall
      | lexeme hc' => rw [hc] at hc'; cases hc'
  | lexeme hc hl _ ih =>
      cases hall with
      | feed => cases hc
      | blank hc' => rw [hc] at hc'; cases hc'
      | lexeme _ hl' hall =>
          cases (hl 0).symm.trans (hl' 0)
          obtain ⟨ls', rfl, hrest⟩ := ih hall
          exact ⟨ls', rfl, hrest⟩

theorem suffix (h : Scans t ls rest) : rest <:+ t := by
  induction h with
  | stop => exact List.suffix_rfl
  | feed _ ih => exact ih.trans (List.suffix_cons _ _)
  | blank _ _ _ ih => exact ih.trans (List.suffix_cons _ _)
  | lexeme _ hl _ ih => exact (ih.trans (scanLexeme_suffix (hl 0))).trans (List.suffix_cons _ _)

theorem scanFrom (position : Nat) (h : Scans t ls rest) (hrest : rest = [])
    (hfuel : t.length < fuel) : ∃ ts p,
      scanFrom fuel position t = .ok (ts ++ [⟨.finish, p⟩]) ∧ ts.map Token.lexeme = ls := by
  induction h generalizing fuel position with
  | stop t =>
      subst hrest
      cases fuel with
      | zero => cases hfuel
      | succ fuel => exact ⟨[], position, rfl, rfl⟩
  | @feed t ls rest _ ih =>
      cases fuel with
      | zero => cases hfuel
      | succ fuel =>
          obtain ⟨ts, p, hts, rfl⟩ := ih (position + 1) hrest (Nat.lt_of_succ_lt_succ hfuel)
          refine ⟨⟨.newline, position⟩ :: ts, p, ?_, rfl⟩
          rw [Formula.scanFrom, if_pos rfl, hts]
          rfl
  | @blank c t ls rest hc hfeed _ ih =>
      cases fuel with
      | zero => cases hfuel
      | succ fuel =>
          obtain ⟨ts, p, hts, hls⟩ := ih (position + 1) hrest (Nat.lt_of_succ_lt_succ hfuel)
          refine ⟨ts, p, ?_, hls⟩
          rw [Formula.scanFrom, if_neg hfeed, if_pos hc, hts]
  | @lexeme c t l ls more rest hc hl _ ih =>
      cases fuel with
      | zero => cases hfuel
      | succ fuel =>
          have hmore : more.length < fuel :=
            Nat.lt_of_le_of_lt (scanLexeme_length (hl 0)) (Nat.lt_of_succ_lt_succ hfuel)
          obtain ⟨ts, p, hts, rfl⟩ :=
            ih (position + ((c :: t).length - more.length)) hrest hmore
          refine ⟨⟨l, position⟩ :: ts, p, ?_, rfl⟩
          rw [Formula.scanFrom, if_neg (ne_feed_of_not_blank hc), if_neg (by simp [hc]), hl]
          dsimp only
          rw [hts]
          rfl

end Scans

def Reaches (position : Nat) (t : Text) (ts : List Token) (k : Token) : Prop :=
  ∃ before after, t = before ++ after ∧ k.position = position + before.length ∧
    (k.lexeme = .finish → after = []) ∧ Scans (before ++ after) (ts.map Token.lexeme) after

namespace Reaches

variable {us : List Token} {k : Token}

theorem start {l : Lexeme} (hl : l = .finish → t = []) : Reaches position t [] ⟨l, position⟩ :=
  ⟨[], t, rfl, rfl, hl, .stop t⟩

theorem behind {n : Nat} (w : Text) (vs : List Token) (h : Reaches n more us k)
    (hn : n = position + w.length)
    (hscans : ∀ {ls rest}, Scans more ls rest →
      Scans (w ++ more) (vs.map Token.lexeme ++ ls) rest) :
    Reaches position (w ++ more) (vs ++ us) k := by
  obtain ⟨before, after, rfl, hposition, hfinish, hbefore⟩ := h
  refine ⟨w ++ before, after, (List.append_assoc _ _ _).symm, ?_, hfinish, ?_⟩
  · rw [hposition, hn, List.length_append, Nat.add_assoc]
  · rw [List.append_assoc, List.map_append]
    exact hscans hbefore

end Reaches

theorem reaches_of_scanFrom {us vs : List Token} {k : Token}
    (h : scanFrom fuel position t = .ok (us ++ k :: vs)) (hfuel : t.length < fuel) :
    Reaches position t us k := by
  induction fuel generalizing position t us with
  | zero => cases hfuel
  | succ fuel ih =>
      unfold scanFrom at h
      split at h
      · cases us with
        | nil =>
            cases h
            exact .start fun _ => rfl
        | cons u us => simp at h
      · rename_i c t
        have hless := Nat.lt_of_succ_lt_succ hfuel
        split_ifs at h with hfeed hc
        · obtain ⟨ts, hts, heq⟩ := map_eq_ok h
          cases us with
          | nil =>
              cases heq
              exact .start nofun
          | cons u us =>
              cases heq
              subst hfeed
              exact (ih hts hless).behind [_] [_] rfl .feed
        · exact (ih h hless).behind [c] [] rfl (.blank hc hfeed)
        · split at h
          · cases h
          · rename_i l more hl
            obtain ⟨ts, hts, heq⟩ := map_eq_ok h
            cases us with
            | nil =>
                cases heq
                exact .start fun hfinish => absurd hfinish (scanLexeme_ne_finish hl)
            | cons u us =>
                cases heq
                obtain ⟨w, rfl⟩ := scanLexeme_suffix hl
                have hlength : (c :: (w ++ more)).length - more.length = (c :: w).length := by
                  simp only [List.length_cons, List.length_append]
                  omega
                have hmore := ih hts (by rw [List.length_append] at hless; omega)
                rw [hlength] at hmore
                exact hmore.behind (c :: w) [⟨l, position⟩] rfl
                  (.lexeme (by simpa using hc) fun _ => scanLexeme_eq_ok hl)

/-- A text is split into the lexemes that scanning gives up to its end. -/
theorem tokenize_iff : (∃ body p, tokenize t = .ok (body ++ [⟨.finish, p⟩]) ∧
    body.map Token.lexeme = ls) ↔ Scans t ls [] := by
  constructor
  · rintro ⟨body, p, hts, rfl⟩
    obtain ⟨before, after, rfl, -, hfinish, hbody⟩ :=
      reaches_of_scanFrom hts (Nat.lt_succ_self _)
    have hend : after = [] := hfinish rfl
    subst hend
    exact hbody
  · intro h
    exact h.scanFrom 0 rfl (Nat.lt_succ_self _)

theorem spanText_blank {p : CodePoint → Bool} (hp : p c = false)
    (h : spanText p (u ++ v) = (w, u' ++ v)) : spanText p (u ++ c :: v) = (w, u' ++ c :: v) := by
  have hwhole := spanText_eq p (u ++ v)
  rw [h, ← List.append_assoc, List.append_left_inj] at hwhole
  subst hwhole
  have htaken : (w ++ u' ++ v).takeWhile p = w := congrArg Prod.fst h
  have hleft : (w ++ u' ++ v).dropWhile p = u' ++ v := congrArg Prod.snd h
  rw [List.append_assoc]
  refine spanText_append (fun d hd => ?_) ?_
  · exact List.all_eq_true.mp List.all_takeWhile d (by rwa [htaken])
  · cases u' with
    | nil =>
        rintro d x ⟨⟩
        exact hp
    | cons d u' =>
        rintro d x ⟨⟩
        have hhead := List.head?_dropWhile_not p (w ++ d :: u' ++ v)
        rw [hleft] at hhead
        simpa using hhead

theorem spanText_empty {p : CodePoint → Bool} (hp : p c = false)
    (h : (spanText p (u ++ v)).1 = []) : (spanText p (u ++ c :: v)).1 = [] := by
  cases u with
  | nil => simp [spanText, hp]
  | cons d u => simpa [spanText, List.takeWhile_cons] using h

theorem spanFraction_blank (hc : c.isBlank = true) {whole : Text}
    (h : spanFraction whole (u ++ v) = (w, u' ++ v)) :
    spanFraction whole (u ++ c :: v) = (w, u' ++ c :: v) := by
  have hwhole := spanFraction_eq whole (u ++ v)
  rw [h, ← List.append_assoc, List.append_left_inj] at hwhole
  have hdecimal := CodePoint.isDecimal_of_isBlank hc
  cases u with
  | nil =>
      obtain ⟨rfl, rfl⟩ := List.append_eq_nil_iff.mp hwhole
      unfold spanFraction
      split
      · rename_i heq
        cases heq
        cases hc
      · rfl
  | cons d u =>
      by_cases hpoint : d = .scalar '.'
      · subst hpoint
        simp only [List.cons_append, spanFraction] at h ⊢
        split_ifs at h with hempty
        · obtain ⟨rfl, -⟩ := Prod.mk.inj h
          rw [Bool.and_eq_true, List.isEmpty_iff, List.isEmpty_iff] at hempty
          rw [if_pos (by simp [hempty.1, spanText_empty hdecimal hempty.2]),
            show u' = .scalar '.' :: u from hwhole, List.cons_append]
        · obtain ⟨rfl, hrest⟩ := Prod.mk.inj h
          have hdigits : spanText CodePoint.isDecimal (u ++ v) =
              ((spanText CodePoint.isDecimal (u ++ v)).1, u' ++ v) := by rw [← hrest]
          rw [spanText_blank hdecimal hdigits, if_neg hempty]
      · have hnone : ∀ x : Text, spanFraction whole (d :: x) = ([], d :: x) := by
          intro x
          unfold spanFraction
          split
          · rename_i heq
            exact absurd (List.cons.inj heq).1 hpoint
          · rfl
        rw [List.cons_append, hnone] at h ⊢
        obtain ⟨rfl, -⟩ := Prod.mk.inj h
        rw [show u' = d :: u from hwhole, List.cons_append]

def spanSign : Text → Text × Text
  | .scalar '+' :: t => ([.scalar '+'], t)
  | .scalar '-' :: t => ([.scalar '-'], t)
  | t => ([], t)

theorem spanExponent_cons (d : CodePoint) (t : Text) : spanExponent (d :: t) =
    if (d = .scalar 'e' ∨ d = .scalar 'E') ∧
        (spanText CodePoint.isDecimal (spanSign t).2).1 ≠ [] then
      (d :: (spanSign t).1 ++ (spanText CodePoint.isDecimal (spanSign t).2).1,
        (spanText CodePoint.isDecimal (spanSign t).2).2)
    else ([], d :: t) := by
  cases d with
  | surrogate => simp [spanExponent]
  | scalar e =>
      have hsign : spanExponent (.scalar e :: t) = if e = 'e' ∨ e = 'E' then
          if (spanText CodePoint.isDecimal (spanSign t).2).1.isEmpty then ([], .scalar e :: t)
          else (.scalar e :: (spanSign t).1 ++ (spanText CodePoint.isDecimal (spanSign t).2).1,
            (spanText CodePoint.isDecimal (spanSign t).2).2)
        else ([], .scalar e :: t) := rfl
      rw [hsign]
      simp only [CodePoint.scalar.injEq, List.isEmpty_iff, ne_eq]
      split_ifs <;> simp_all

theorem spanSign_cons (s : CodePoint) (u : Text) : ∃ sign body,
    sign ++ body = s :: u ∧ ∀ x, spanSign (s :: u ++ x) = (sign, body ++ x) := by
  by_cases hplus : s = .scalar '+'
  · exact ⟨[s], u, rfl, fun x => by rw [hplus]; rfl⟩
  · by_cases hminus : s = .scalar '-'
    · exact ⟨[s], u, rfl, fun x => by rw [hminus]; rfl⟩
    · refine ⟨[], s :: u, rfl, fun x => ?_⟩
      unfold spanSign
      split
      · rename_i heq
        exact absurd (List.cons.inj heq).1 hplus
      · rename_i heq
        exact absurd (List.cons.inj heq).1 hminus
      · rfl

theorem spanExponent_blank (hc : c.isBlank = true) (h : spanExponent (u ++ v) = (w, u' ++ v)) :
    spanExponent (u ++ c :: v) = (w, u' ++ c :: v) := by
  have hwhole := spanExponent_eq (u ++ v)
  rw [h, ← List.append_assoc, List.append_left_inj] at hwhole
  have hwhole : w ++ u' = u := hwhole
  have hdecimal := CodePoint.isDecimal_of_isBlank hc
  cases u with
  | nil =>
      obtain ⟨rfl, rfl⟩ := List.append_eq_nil_iff.mp hwhole
      rw [List.nil_append, spanExponent_cons, if_neg]
      rintro ⟨rfl | rfl, -⟩ <;> cases hc
  | cons d u =>
      rw [List.cons_append, spanExponent_cons] at h ⊢
      cases u with
      | nil =>
          have hsign : spanSign ([] ++ c :: v) = ([], c :: v) := by
            unfold spanSign
            split
            · rename_i heq
              cases heq
              cases hc
            · rename_i heq
              cases heq
              cases hc
            · rfl
          have hdigits : (spanText CodePoint.isDecimal (c :: v)).1 = [] := by
            simp [spanText, hdecimal]
          rw [hsign, if_neg (fun hexponent => hexponent.2 hdigits)]
          split_ifs at h with hexponent
          · -- an exponent has a digit besides its letter
            obtain ⟨rfl, -⟩ := Prod.mk.inj h
            simp_all
          · obtain ⟨rfl, -⟩ := Prod.mk.inj h
            rw [show u' = [d] from hwhole]
            rfl
      | cons s u =>
          obtain ⟨sign, body, hbody, hsign⟩ := spanSign_cons s u
          rw [hsign] at h ⊢
          dsimp only at h ⊢
          split_ifs at h with hexponent
          · obtain ⟨rfl, hrest⟩ := Prod.mk.inj h
            have hdigits : spanText CodePoint.isDecimal (body ++ v) =
                ((spanText CodePoint.isDecimal (body ++ v)).1, u' ++ v) := by rw [← hrest]
            rw [spanText_blank hdecimal hdigits, if_pos hexponent]
          · obtain ⟨rfl, -⟩ := Prod.mk.inj h
            rw [if_neg, show u' = d :: s :: u from hwhole]
            · rfl
            · rintro ⟨he, hdigits⟩
              refine hexponent ⟨he, fun hnone => hdigits (spanText_empty hdecimal hnone)⟩

theorem spanNumber_blank (hc : c.isBlank = true) (hw : w ≠ [])
    (h : spanNumber (u ++ v) = (w, u' ++ v)) : spanNumber (u ++ c :: v) = (w, u' ++ c :: v) := by
  have hdecimal := CodePoint.isDecimal_of_isBlank hc
  rw [spanNumber_def] at h
  dsimp only at h
  generalize hd : spanText CodePoint.isDecimal (u ++ v) = digits at h
  obtain ⟨digits, r⟩ := digits
  generalize hf : spanFraction digits r = fraction at h
  obtain ⟨fraction, r'⟩ := fraction
  generalize he : spanExponent r' = exponent at h
  obtain ⟨exponent, r''⟩ := exponent
  dsimp only at h
  split_ifs at h with hempty
  · exact absurd (Prod.mk.inj h).1.symm hw
  · obtain ⟨rfl, rfl⟩ := Prod.mk.inj h
    have hr' := spanExponent_eq r'
    rw [he] at hr'
    have hr := spanFraction_eq digits r
    rw [hf] at hr
    subst hr'
    subst hr
    have hexponent : spanExponent (exponent ++ u' ++ v) = (exponent, u' ++ v) := by
      rwa [List.append_assoc]
    have hfraction : spanFraction digits (fraction ++ exponent ++ u' ++ v) =
        (fraction, exponent ++ u' ++ v) := by
      simpa only [List.append_assoc] using hf
    have hdigits : spanText CodePoint.isDecimal (u ++ v) =
        (digits, fraction ++ exponent ++ u' ++ v) := by
      simpa only [List.append_assoc] using hd
    rw [spanNumber_def, spanText_blank hdecimal hdigits]
    dsimp only
    rw [spanFraction_blank hc hfraction]
    dsimp only
    rw [if_neg hempty, spanExponent_blank hc hexponent]

theorem prefix_of_append_blank (hc : c ∉ w) (h : w <+: u ++ c :: v) : w <+: u := by
  refine List.prefix_of_prefix_length_le h (List.prefix_append u _) ?_
  by_contra hlength
  have hblank : u ++ [c] <+: u ++ c :: v := ⟨v, by simp⟩
  have hpart := List.prefix_of_prefix_length_le hblank h (by simp; omega)
  exact hc (hpart.subset (by simp))

theorem first?_begins {d : Delimiter} (h : Delimiter.first? t = some d) : d.spelling <+: t := by
  unfold Delimiter.first? at h
  exact List.isPrefixOf_iff_prefix.mp (List.find?_eq_some_iff_append.mp h).1

theorem first?_inserted {d : Delimiter} (hc : c.isBlank = true)
    (h : Delimiter.first? (u ++ v) = some d) (hlength : d.spelling.length ≤ u.length) :
    Delimiter.first? (u ++ c :: v) = some d := by
  have hbegins : ∀ s t : Text, Text.begins s t = true ↔ s <+: t := fun _ _ =>
    List.isPrefixOf_iff_prefix
  unfold Delimiter.first? at h ⊢
  rw [List.find?_eq_some_iff_append] at h ⊢
  obtain ⟨hd, before, after, hall, hbefore⟩ := h
  refine ⟨?_, before, after, hall, fun d' hd' => ?_⟩
  · rw [hbegins] at hd ⊢
    have hbegun := List.prefix_of_prefix_length_le hd (List.prefix_append u v) hlength
    exact hbegun.trans (List.prefix_append u _)
  · have hnot := hbefore d' hd'
    simp only [Bool.not_eq_true', Bool.eq_false_iff, ne_eq, hbegins] at hnot ⊢
    intro hbegun
    refine hnot ((prefix_of_append_blank ?_ hbegun).trans (List.prefix_append u v))
    have hspelling : ∀ d ∈ Delimiter.all, ∀ c ∈ d.spelling, c.isBlank = false := by decide
    intro hmem
    rw [hspelling d' (by rw [hall]; simp [hd']) c hmem] at hc
    cases hc

theorem spanNumber_of_not_starts (h : startsNumber t = false) : (spanNumber t).1 = [] := by
  have hnone : ∀ {d : CodePoint} {x : Text}, d.isAnyDigit = false →
      (d :: x).takeWhile CodePoint.isDecimal = [] := by
    intro d x hd
    rw [List.takeWhile_cons_of_neg]
    simpa using (Bool.or_eq_false_iff.mp hd).1
  rw [spanNumber_eq_nil]
  constructor
  · cases t with
    | nil => rfl
    | cons d x =>
        by_cases hpoint : d = .scalar '.'
        · exact hnone (hpoint ▸ by decide)
        · exact hnone (startsNumber_cons hpoint ▸ h)
  · rintro x rfl
    cases x with
    | nil => rfl
    | cons d x => exact hnone h

theorem startsNumber_blank {d : CodePoint} (hc : c.isBlank = true)
    (h : startsNumber (d :: (u ++ v)) = false) : startsNumber (d :: (u ++ c :: v)) = false := by
  by_cases hpoint : d = .scalar '.'
  · subst hpoint
    cases u with
    | nil => exact CodePoint.isAnyDigit_of_isBlank hc
    | cons x u => exact h
  · rw [startsNumber_cons hpoint] at h ⊢
    exact h

/-- The lexeme does not depend on what stands behind a place that the scanner has come to. -/
theorem scanLexeme_blank {d : CodePoint} (hc : c.isBlank = true)
    (h : scanLexeme position (d :: u ++ v) = .ok (l, u' ++ v)) :
    scanLexeme position (d :: u ++ c :: v) = .ok (l, u' ++ c :: v) := by
  rw [List.cons_append] at h ⊢
  unfold scanLexeme at h
  dsimp only at h
  split_ifs at h with hquote hstart hempty hname
  · split at h
    · rename_i hvalue
      cases h
      obtain ⟨w, hw, hstring⟩ := scanString_eq_ok hvalue
      rw [← List.append_assoc, List.append_left_inj] at hw
      rw [hw, List.append_assoc]
      exact hstring.scanLexeme hquote position (u' ++ c :: v)
    · cases h
  · obtain ⟨rfl, hrest⟩ := Prod.mk.inj (Except.ok.inj h)
    have hne : (spanNumber (d :: (u ++ v))).1 ≠ [] := by simpa using hempty
    have hnumber : spanNumber (d :: u ++ v) = ((spanNumber (d :: (u ++ v))).1, u' ++ v) := by
      rw [← hrest, List.cons_append]
    have hspan := spanNumber_blank hc hne hnumber
    have hstart' : startsNumber (d :: (u ++ c :: v)) = true := by
      by_contra hnot
      have hnone := spanNumber_of_not_starts (Bool.eq_false_iff.mpr hnot)
      rw [← List.cons_append, hspan] at hnone
      exact hne hnone
    unfold scanLexeme
    dsimp only
    rw [if_neg hquote, if_pos hstart', ← List.cons_append, hspan]
    dsimp only
    rw [if_neg hempty]
  · obtain ⟨rfl, hrest⟩ := Prod.mk.inj (Except.ok.inj h)
    have hspan : spanText isNamePart (d :: u ++ v) =
        ((spanText isNamePart (d :: (u ++ v))).1, u' ++ v) := by
      rw [← hrest, List.cons_append]
    unfold scanLexeme
    dsimp only
    rw [if_neg hquote, if_neg (by simp [startsNumber_blank hc (Bool.eq_false_iff.mpr hstart)]),
      if_pos hname, ← List.cons_append, spanText_blank (CodePoint.isNamePart_of_isBlank hc) hspan]
  · split at h
    · rename_i delimiter hfirst
      obtain ⟨rfl, hdrop⟩ := Prod.mk.inj (Except.ok.inj h)
      rw [← List.cons_append] at hfirst hdrop
      have hlength : delimiter.spelling.length ≤ (d :: u).length := by
        have htotal := (first?_begins hfirst).length_le
        have heq := congrArg List.length hdrop
        simp only [List.length_drop, List.length_append] at heq htotal
        omega
      rw [List.drop_append_of_le_length hlength, List.append_left_inj] at hdrop
      unfold scanLexeme
      dsimp only
      rw [if_neg hquote, if_neg (by simp [startsNumber_blank hc (Bool.eq_false_iff.mpr hstart)]),
        if_neg hname, ← List.cons_append, first?_inserted hc hfirst hlength]
      dsimp only
      rw [List.drop_append_of_le_length hlength, hdrop]
    · cases h

theorem exists_cons_of_suffix (hrest : rest <:+ t) (hall : before ++ rest = c :: t) :
    ∃ before', before = c :: before' ∧ before' ++ rest = t := by
  cases before with
  | nil =>
      have hlength := hrest.length_le
      rw [List.nil_append] at hall
      rw [hall, List.length_cons] at hlength
      omega
  | cons d before =>
      obtain ⟨rfl, rfl⟩ := List.cons.inj hall
      exact ⟨before, rfl, rfl⟩

/-- A blank at a place that the scanner comes to leaves the lexemes before it as they are. -/
theorem Scans.inserted (hc : c.isBlank = true) (h : Scans (before ++ after) ls after) :
    Scans (before ++ c :: after) ls (c :: after) := by
  generalize hall : before ++ after = all at h
  induction h generalizing before with
  | stop t =>
      rw [List.append_left_eq_self.mp hall]
      exact .stop _
  | feed h ih =>
      obtain ⟨before, rfl, rfl⟩ := exists_cons_of_suffix h.suffix hall
      exact .feed (ih rfl)
  | blank hb hfeed h ih =>
      obtain ⟨before, rfl, rfl⟩ := exists_cons_of_suffix h.suffix hall
      exact .blank hb hfeed (ih rfl)
  | lexeme hd hl h ih =>
      obtain ⟨between, rfl⟩ := h.suffix
      obtain ⟨before, rfl, rfl⟩ :=
        exists_cons_of_suffix (h.suffix.trans (scanLexeme_suffix (hl 0))) hall
      exact .lexeme hd (fun position => scanLexeme_blank hc (hl position)) (ih rfl)

end Formula
end MetricBridge
