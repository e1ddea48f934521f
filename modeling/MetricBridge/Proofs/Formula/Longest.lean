import MetricBridge.Proofs.Formula.Splitting

namespace MetricBridge.Formula

structure IsLongest (P : Text → Prop) (w t : Text) : Prop where
  holds : P w
  begins : w <+: t
  longest : ∀ ⦃v⦄, P v → v <+: t → v.length ≤ w.length

def IsDecimals (t : Text) : Prop := ∀ c ∈ t, c.isDecimal = true

/-- The digits of a number in front of its exponent, with a point before, among or behind them. -/
inductive IsMantissa : Text → Prop
  | whole {whole : Text} (hw : IsDecimals whole) (hne : whole ≠ []) : IsMantissa whole
  | point {whole fraction : Text} (hw : IsDecimals whole) (hf : IsDecimals fraction)
      (hne : whole ≠ [] ∨ fraction ≠ []) : IsMantissa (whole ++ .scalar '.' :: fraction)

inductive IsExponent : Text → Prop
  | unsigned {e : CodePoint} {digits : Text} (he : e = .scalar 'e' ∨ e = .scalar 'E')
      (hd : IsDecimals digits) (hne : digits ≠ []) : IsExponent (e :: digits)
  | signed {e sign : CodePoint} {digits : Text} (he : e = .scalar 'e' ∨ e = .scalar 'E')
      (hs : sign = .scalar '+' ∨ sign = .scalar '-') (hd : IsDecimals digits) (hne : digits ≠ []) :
      IsExponent (e :: sign :: digits)

inductive IsNumber : Text → Prop
  | mantissa {m : Text} (hm : IsMantissa m) : IsNumber m
  | exponent {m x : Text} (hm : IsMantissa m) (hx : IsExponent x) : IsNumber (m ++ x)

variable {c : CodePoint} {t u v w rest : Text} {p : CodePoint → Bool}

theorem isDecimals_takeWhile (t : Text) : IsDecimals (t.takeWhile CodePoint.isDecimal) :=
  fun _ hc => List.all_eq_true.mp List.all_takeWhile _ hc

theorem prefix_takeWhile (hv : ∀ c ∈ v, p c = true) (h : v <+: t) : v <+: t.takeWhile p := by
  obtain ⟨rest, rfl⟩ := h
  rw [List.takeWhile_append_of_pos hv]
  exact List.prefix_append v _

theorem spanText_name (hc : isNameStart c = true) :
    IsLongest IsName (spanText isNamePart (c :: t)).1 (c :: t) where
  holds := by
    have hpart : isNamePart c = true := by rw [isNamePart, hc, Bool.true_or]
    refine ⟨⟨c, t.takeWhile isNamePart, List.takeWhile_cons_of_pos hpart, hc⟩, fun d hd => ?_⟩
    exact List.all_eq_true.mp List.all_takeWhile d hd
  begins := List.takeWhile_prefix _
  longest := fun _ hv h => (prefix_takeWhile hv.2 h).length_le

theorem IsExponent.exists_cons (h : IsExponent t) :
    ∃ e u, t = e :: u ∧ (e = .scalar 'e' ∨ e = .scalar 'E') := by
  cases h with
  | unsigned he => exact ⟨_, _, rfl, he⟩
  | signed he => exact ⟨_, _, rfl, he⟩

theorem spanSign_cases (t : Text) :
    (∃ sign u, t = sign :: u ∧ (sign = .scalar '+' ∨ sign = .scalar '-') ∧
      spanSign t = ([sign], u)) ∨ spanSign t = ([], t) := by
  unfold spanSign
  split
  · exact .inl ⟨_, _, rfl, .inl rfl, rfl⟩
  · exact .inl ⟨_, _, rfl, .inr rfl, rfl⟩
  · exact .inr rfl

theorem isExponent_spanExponent (h : (spanExponent t).1 ≠ []) : IsExponent (spanExponent t).1 := by
  cases t with
  | nil => exact absurd rfl h
  | cons e t =>
      rw [spanExponent_cons] at h ⊢
      split_ifs at h ⊢ with hexponent
      · obtain ⟨he, hne⟩ := hexponent
        rcases spanSign_cases t with ⟨sign, u, -, hs, hspan⟩ | hspan
        · rw [hspan] at hne ⊢
          exact .signed he hs (isDecimals_takeWhile u) hne
        · rw [hspan] at hne ⊢
          exact .unsigned he (isDecimals_takeWhile t) hne
      · exact absurd rfl h

theorem spanSign_digits (hv : IsDecimals v) (hne : v ≠ []) :
    spanSign (v ++ rest) = ([], v ++ rest) := by
  obtain ⟨c, v, rfl⟩ := List.exists_cons_of_ne_nil hne
  have hc := hv c List.mem_cons_self
  unfold spanSign
  split
  · rename_i heq
    cases heq
    exact absurd hc (by decide)
  · rename_i heq
    cases heq
    exact absurd hc (by decide)
  · rfl

theorem spanExponent_longest (hv : IsExponent v) : v.length ≤ (spanExponent (v ++ rest)).1.length := by
  have htaken : ∀ {digits : Text}, IsDecimals digits → digits ≠ [] →
      (spanText CodePoint.isDecimal (digits ++ rest)).1 ≠ [] ∧
        digits.length ≤ (spanText CodePoint.isDecimal (digits ++ rest)).1.length := by
    intro digits hd hne
    have hlength := (prefix_takeWhile hd (List.prefix_append digits rest)).length_le
    exact ⟨List.ne_nil_of_length_pos
      (Nat.lt_of_lt_of_le (List.length_pos_iff.mpr hne) hlength), hlength⟩
  cases hv with
  | unsigned he hd hne =>
      obtain ⟨hsome, hlength⟩ := htaken hd hne
      rw [List.cons_append, spanExponent_cons, spanSign_digits hd hne, if_pos ⟨he, hsome⟩]
      simpa using hlength
  | @signed e sign digits he hs hd hne =>
      obtain ⟨hsome, hlength⟩ := htaken hd hne
      have hsign : spanSign (sign :: digits ++ rest) = ([sign], digits ++ rest) := by
        rcases hs with rfl | rfl <;> rfl
      rw [List.cons_append, spanExponent_cons, hsign, if_pos ⟨he, hsome⟩]
      simpa using hlength

theorem spanFraction_cases (whole t : Text) :
    (∃ after, t = .scalar '.' :: after ∧
      (whole ≠ [] ∨ after.takeWhile CodePoint.isDecimal ≠ []) ∧ spanFraction whole t =
        (.scalar '.' :: after.takeWhile CodePoint.isDecimal, after.dropWhile CodePoint.isDecimal)) ∨
      spanFraction whole t = ([], t) := by
  unfold spanFraction
  split
  · rename_i after
    dsimp only [spanText]
    split_ifs with hempty
    · exact .inr rfl
    · refine .inl ⟨after, rfl, ?_, rfl⟩
      by_contra hnone
      rw [not_or, not_not, not_not] at hnone
      exact hempty (by rw [hnone.1, hnone.2]; rfl)
  · exact .inr rfl

theorem isNumber_append {m : Text} (hm : IsMantissa m) (t : Text) :
    IsNumber (m ++ (spanExponent t).1) := by
  by_cases hnone : (spanExponent t).1 = []
  · rw [hnone, List.append_nil]
    exact .mantissa hm
  · exact .exponent hm (isExponent_spanExponent hnone)

theorem isNumber_spanNumber (h : (spanNumber t).1 ≠ []) : IsNumber (spanNumber t).1 := by
  rw [spanNumber_def] at h ⊢
  dsimp only [spanText] at h ⊢
  have hdigits := isDecimals_takeWhile t
  generalize t.takeWhile CodePoint.isDecimal = whole at h hdigits ⊢
  split_ifs at h ⊢ with hempty
  · exact absurd rfl h
  · rcases spanFraction_cases whole (t.dropWhile CodePoint.isDecimal) with
      ⟨after, -, hne, hspan⟩ | hspan
    · rw [hspan]
      exact isNumber_append (.point hdigits (isDecimals_takeWhile after) hne) _
    · rw [hspan] at hempty ⊢
      rw [List.append_nil]
      exact isNumber_append (.whole hdigits (by simpa using hempty)) _

theorem spanNumber_parts {whole fraction r r' : Text} (hwhole : spanText CodePoint.isDecimal t = (whole, r))
    (hfraction : spanFraction whole r = (fraction, r')) (hne : whole ≠ [] ∨ fraction ≠ []) :
    (spanNumber t).1 = whole ++ fraction ++ (spanExponent r').1 := by
  rw [spanNumber_def]
  dsimp only
  rw [hwhole]
  dsimp only
  rw [hfraction]
  dsimp only
  rw [if_neg]
  rcases hne with hne | hne <;> simp [hne]

theorem spanFraction_point {whole after : Text}
    (hne : whole ≠ [] ∨ after.takeWhile CodePoint.isDecimal ≠ []) :
    spanFraction whole (.scalar '.' :: after) =
      (.scalar '.' :: after.takeWhile CodePoint.isDecimal, after.dropWhile CodePoint.isDecimal) := by
  simp only [spanFraction]
  rw [if_neg]
  · rfl
  · rcases hne with hne | hne <;> simp [spanText, hne]

/-- Digits of a number are taken at least up to their end, and up to it where none go on. -/
theorem IsMantissa.spans {m : Text} (hm : IsMantissa m) (rest : Text) : ∃ whole fraction r r',
    spanText CodePoint.isDecimal (m ++ rest) = (whole, r) ∧
      spanFraction whole r = (fraction, r') ∧ (whole ≠ [] ∨ fraction ≠ []) ∧
      m.length ≤ (whole ++ fraction).length ∧
      ((∀ c u, rest = c :: u → c.isDecimal = false ∧ c ≠ .scalar '.') → r' = rest) := by
  cases hm with
  | whole hw hne =>
      have htaken : m <+: (m ++ rest).takeWhile CodePoint.isDecimal :=
        prefix_takeWhile hw (List.prefix_append m rest)
      obtain ⟨fraction, r', hfraction⟩ : ∃ fraction r', spanFraction
          ((m ++ rest).takeWhile CodePoint.isDecimal) ((m ++ rest).dropWhile CodePoint.isDecimal) =
            (fraction, r') := ⟨_, _, rfl⟩
      refine ⟨_, fraction, _, r', rfl, hfraction, .inl ?_, ?_, ?_⟩
      · exact fun hnil => hne (List.prefix_nil.mp (hnil ▸ htaken))
      · rw [List.length_append]
        exact Nat.le_add_right_of_le htaken.length_le
      · intro hrest
        have hwhole := spanText_append hw fun c u heq => (hrest c u heq).1
        obtain ⟨hw', hr⟩ := Prod.mk.inj hwhole
        rw [hw', hr] at hfraction
        rcases spanFraction_cases m rest with ⟨after, heq, -⟩ | hspan
        · exact absurd rfl (hrest _ _ heq).2
        · exact (congrArg Prod.snd (hspan.symm.trans hfraction)).symm
  | @point whole fraction hw hf hne =>
      have hsome : whole ≠ [] ∨ (fraction ++ rest).takeWhile CodePoint.isDecimal ≠ [] := by
        refine hne.imp id fun hne => ?_
        rw [List.takeWhile_append_of_pos hf]
        exact List.append_ne_nil_of_left_ne_nil hne _
      have hpoint : spanText CodePoint.isDecimal (whole ++ .scalar '.' :: fraction ++ rest) =
          (whole, .scalar '.' :: (fraction ++ rest)) := by
        rw [List.append_assoc]
        refine spanText_append hw ?_
        rintro c u ⟨⟩
        decide
      refine ⟨_, _, _, _, hpoint, spanFraction_point hsome, .inr (List.cons_ne_nil _ _), ?_, ?_⟩
      · rw [List.takeWhile_append_of_pos hf]
        simp only [List.length_append, List.length_cons]
        omega
      · intro hrest
        exact congrArg Prod.snd (spanText_append hf fun c u heq => (hrest c u heq).1)

theorem spanNumber_longest (hv : IsNumber v) : v.length ≤ (spanNumber (v ++ rest)).1.length := by
  cases hv with
  | mantissa hm =>
      obtain ⟨whole, fraction, r, r', hwhole, hfraction, hne, hlength, -⟩ := hm.spans rest
      rw [spanNumber_parts hwhole hfraction hne, List.length_append]
      exact Nat.le_add_right_of_le hlength
  | @exponent m x hm hx =>
      obtain ⟨whole, fraction, r, r', hwhole, hfraction, hne, hlength, hstop⟩ := hm.spans (x ++ rest)
      have hrest : r' = x ++ rest := by
        obtain ⟨e, u, rfl, he⟩ := hx.exists_cons
        refine hstop ?_
        rintro c v ⟨⟩
        rcases he with rfl | rfl <;> decide
      subst hrest
      rw [List.append_assoc, spanNumber_parts hwhole hfraction hne, List.length_append,
        List.length_append]
      exact Nat.add_le_add hlength (spanExponent_longest hx)

/-- What is taken for a number is the longest beginning of the form of one. -/
theorem isLongest_spanNumber (h : (spanNumber t).1 ≠ []) : IsLongest IsNumber (spanNumber t).1 t where
  holds := isNumber_spanNumber h
  begins := ⟨_, spanNumber_eq t⟩
  longest := by
    rintro v hv ⟨rest, rfl⟩
    exact spanNumber_longest hv

theorem Delimiter.all_pairwise :
    Delimiter.all.Pairwise fun d d' => ¬d.spelling <+: d'.spelling := by
  decide

theorem Delimiter.mem_all (d : Delimiter) : d ∈ Delimiter.all := by
  cases d <;> decide

/-- The delimiter that is taken is the longest one. -/
theorem isLongest_first? {d : Delimiter} (h : Delimiter.first? t = some d) :
    IsLongest (· ∈ Delimiter.all.map Delimiter.spelling) d.spelling t where
  holds := List.mem_map_of_mem d.mem_all
  begins := first?_begins h
  longest := by
    intro v hv hbegins
    obtain ⟨d', hd', rfl⟩ := List.mem_map.mp hv
    by_contra hlonger
    have hprefix : d.spelling <+: d'.spelling :=
      List.prefix_of_prefix_length_le (first?_begins h) hbegins (Nat.le_of_not_le hlonger)
    have hbefore := Delimiter.all_pairwise
    unfold Delimiter.first? at h
    obtain ⟨-, before, after, hall, hnot⟩ := List.find?_eq_some_iff_append.mp h
    rw [hall] at hd' hbefore
    rcases List.mem_append.mp hd' with hd' | hd'
    · have := hnot d' hd'
      simp [Text.begins, List.isPrefixOf_iff_prefix.mpr hbegins] at this
    · rcases List.mem_cons.mp hd' with rfl | hd'
      · exact hlonger (Nat.le_refl _)
      · exact (List.pairwise_cons.mp (List.pairwise_append.mp hbefore).2.1).1 d' hd' hprefix

end MetricBridge.Formula
