import MetricBridge.Proofs.Formula.Constants

namespace MetricBridge.Formula

open Text (IsDigits ofNat)

variable {t u rest name : Text}

theorem spanText_before {p : CodePoint → Bool} (hr : ∀ c v, rest = c :: v → p c = false)
    (u : Text) : spanText p (u ++ rest) = ((spanText p u).1, (spanText p u).2 ++ rest) := by
  induction u with
  | nil =>
      have hnil := spanText_append (p := p) (t := []) nofun hr
      rwa [List.nil_append] at hnil ⊢
  | cons c u ih =>
      obtain ⟨htake, hdrop⟩ := Prod.mk.inj ih
      unfold spanText at *
      cases hc : p c <;> simp [hc, htake, hdrop]

theorem isNameStart_of_isNamePart {c : CodePoint} (h : isNamePart c = true)
    (hc : c.isDecimal = false) : isNameStart c = true := by
  rcases (Bool.or_eq_true _ _).mp h with h | h
  · exact h
  · rw [CodePoint.isDecimal_of_isAsciiDigit h] at hc
    cases hc

theorem spanSign_name (hu : ∀ c ∈ u, isNamePart c = true) (hrest : Before attached rest) :
    spanSign (u ++ rest) = ([], u ++ rest) := by
  have hattached : ∀ c ∈ attached, c ≠ .scalar '+' ∧ c ≠ .scalar '-' := by decide
  have hhead : ∀ c v, u ++ rest = c :: v → c ≠ .scalar '+' ∧ c ≠ .scalar '-' := by
    intro c v h
    cases u with
    | nil => exact hattached c (hrest c v h)
    | cons d u =>
        cases h
        have hd := hu c List.mem_cons_self
        constructor <;> (rintro rfl; cases hd)
  unfold spanSign
  split
  · rename_i h
    exact absurd rfl (hhead _ _ h).1
  · rename_i h
    exact absurd rfl (hhead _ _ h).2
  · rfl

/-- The front of a name that would be the exponent of a number. -/
theorem exists_exponent (h : IsName name) : ∃ exponent more, exponent ++ more = name ∧
    (exponent.head?.any CodePoint.isDecimal = false) ∧ (more = [] ∨ IsName more) ∧
    ∀ rest, Before attached rest → spanExponent (name ++ rest) = (exponent, more ++ rest) := by
  obtain ⟨⟨c, u, rfl, hc⟩, hparts⟩ := h
  obtain ⟨-, hu⟩ := List.forall_mem_cons.mp hparts
  have hdecimal : c.isDecimal = false :=
    (Bool.or_eq_false_iff.mp (isNameStart_facts hc).2.2.2.1).1
  have hspan : ∀ rest, Before attached rest →
      spanText CodePoint.isDecimal (u ++ rest) =
        (u.takeWhile CodePoint.isDecimal, u.dropWhile CodePoint.isDecimal ++ rest) :=
    fun rest hrest => spanText_before (fun d v h => (hrest.endsNumber d v h).1) u
  by_cases hexponent : (c = .scalar 'e' ∨ c = .scalar 'E') ∧ u.takeWhile CodePoint.isDecimal ≠ []
  · refine ⟨c :: u.takeWhile CodePoint.isDecimal, u.dropWhile CodePoint.isDecimal, ?_, ?_, ?_, ?_⟩
    · rw [List.cons_append, List.takeWhile_append_dropWhile]
    · simpa using hdecimal
    · cases hmore : u.dropWhile CodePoint.isDecimal with
      | nil => exact .inl rfl
      | cons d v =>
          have hd : ∀ x ∈ d :: v, isNamePart x = true := fun x hx =>
            hu x ((List.dropWhile_sublist _).subset (hmore ▸ hx))
          have hnot : d.isDecimal = false := by
            have hhead := List.head?_dropWhile_not CodePoint.isDecimal u
            rw [hmore] at hhead
            simpa using hhead
          exact .inr ⟨⟨d, v, rfl, isNameStart_of_isNamePart (hd d List.mem_cons_self) hnot⟩, hd⟩
    · intro rest hrest
      rw [List.cons_append, spanExponent_cons, spanSign_name hu hrest, hspan rest hrest,
        if_pos hexponent]
      rfl
  · refine ⟨[], c :: u, rfl, rfl, .inr ⟨⟨c, u, rfl, hc⟩, hparts⟩, fun rest hrest => ?_⟩
    rw [List.cons_append, spanExponent_cons, spanSign_name hu hrest, hspan rest hrest,
      if_neg hexponent]

/-- The point behind digits belongs to the number, and an exponent behind the point. -/
theorem spanNumber_point {exponent more : Text} (hne : t ≠ []) (ht : IsDigits t)
    (hu : ∀ c v, u = c :: v → c.isDecimal = false) (h : spanExponent u = (exponent, more)) :
    spanNumber (t ++ .scalar '.' :: u) = (t ++ .scalar '.' :: exponent, more) := by
  have hwhole := spanDigits_point ht u
  have hnone : spanText CodePoint.isDecimal u = ([], u) := spanText_append (t := []) nofun hu
  rw [spanNumber_def, hwhole]
  simp [spanFraction, hne, hnone, h]

theorem scans_name (h : IsName t) (hrest : Before attached rest) :
    Scans (t ++ rest) [.name t] rest := by
  obtain ⟨ls, hls, hscans⟩ := (shows_name h).denotes
  obtain ⟨l, ls', hl, hnil, rfl⟩ := List.forall₂_cons_right_iff.mp hls
  cases List.forall₂_nil_right_iff.mp hnil
  exact hl.of_name ▸ hscans rest hrest

theorem displays_fused {n : Nat} {v : Literal} (h : IsName name) :
    Displays (Before attached) (ofNat n ++ (lit "." ++ name))
      [.number v, .mark .dot, .name name] true := by
  obtain ⟨exponent, more, rfl, hhead, hmore, hspan⟩ := exists_exponent h
  have hdigits := Text.isDigits_ofNat n
  have hne := Text.ofNat_ne_nil n
  have hpointed : (Lexeme.number (ofNat n ++ .scalar '.' :: exponent)).isPointed = true := by
    rw [isPointed_append hdigits, hhead]
    rfl
  have hnumber : ∀ rest, Before attached rest → ∀ {ls}, Scans (more ++ rest) ls rest →
      Scans (ofNat n ++ (lit "." ++ (exponent ++ more)) ++ rest)
        (.number (ofNat n ++ .scalar '.' :: exponent) :: ls) rest := by
    intro rest hrest ls hls
    have hname : ∀ c w, exponent ++ more ++ rest = c :: w → c.isDecimal = false := by
      obtain ⟨⟨c, w, hcons, hc⟩, -⟩ := h
      rw [hcons]
      rintro _ _ ⟨⟩
      exact (Bool.or_eq_false_iff.mp (isNameStart_facts hc).2.2.2.1).1
    have hspanned := spanNumber_point hne hdigits hname (hspan rest hrest)
    obtain ⟨c, w, hcons⟩ := List.exists_cons_of_ne_nil hne
    have hc : c.isAsciiDigit = true := hdigits c (hcons ▸ List.mem_cons_self)
    rw [hcons] at hspanned ⊢
    have htext : c :: w ++ (lit "." ++ (exponent ++ more)) ++ rest =
        c :: (w ++ .scalar '.' :: exponent) ++ (more ++ rest) := by
      simp [lit]
    obtain ⟨-, -, -, -, hblank⟩ := isAsciiDigit_facts hc
    rw [htext]
    exact .lexeme hblank (fun _ => scanLexeme_number hc (by simpa using hspanned)) hls
  rcases hmore with rfl | hmore
  · exact ⟨_, .swallowed hpointed (.inl rfl) .nil, by simp [hpointed], fun rest hrest =>
      hnumber rest hrest (.stop rest)⟩
  · exact ⟨_, .swallowed hpointed (.inr ⟨more, rfl⟩) .nil, by simp [hpointed], fun rest hrest =>
      hnumber rest hrest (scans_name hmore hrest)⟩

theorem Literal.Form.of_isDigits {v : Literal} (h : v.Form) (hv : v.isDigits = true) :
    ∃ n : Nat, v.text = ofNat n ∧ v.reread = .constant (.int n) := by
  have hnone : ∀ {c : CodePoint}, c.isAsciiDigit = false → c ∉ v.text := by
    intro c hc hmem
    rw [List.all_eq_true.mp hv c hmem] at hc
    cases hc
  cases h with
  | digits _ ht hr => exact ⟨_, ht, hr⟩
  | numeral n ht _ =>
      have hpoint : CodePoint.scalar '.' ∉ v.text := hnone (by decide)
      have hexponent : CodePoint.scalar 'e' ∉ v.text := hnone (by decide)
      rw [ht] at hpoint hexponent
      have hnumeral := n.isNumeral
      generalize n.text = t at hpoint hexponent hnumeral
      cases hnumeral with
      | point => simp at hpoint
      | exponent => simp at hexponent
      | both => simp at hpoint
  | infinite ht _ => exact absurd (ht ▸ List.mem_cons_self) (hnone (c := .scalar 'i') (by decide))
  | string t hv =>
      subst hv
      exact absurd List.mem_cons_self (hnone (c := .scalar '"') (by decide))
  | @word name hname _ ht _ =>
      obtain ⟨⟨c, u, rfl, hc⟩, -⟩ := hname
      exact absurd (ht ▸ List.mem_cons_self) (hnone (c := c) (Bool.eq_false_iff.mpr fun hdigit =>
        Bool.false_ne_true ((isNameStart_facts hc).2.2.2.1.symm.trans
          (isAsciiDigit_facts hdigit).2.2.2.1)))

theorem first?_point {c : CodePoint} (hc : isNameStart c = true) (t : Text) :
    Delimiter.first? (.scalar '.' :: c :: t) = some .dot := by
  have hnot : ∀ c' ∈ lit "*/^", c ≠ c' := by
    rintro c' hmem rfl
    have hall : ∀ c ∈ lit "*/^", isNameStart c = false := by decide
    exact Bool.false_ne_true ((hall _ hmem).symm.trans hc)
  cases hfirst : Delimiter.first? (.scalar '.' :: c :: t) with
  | none => exact absurd rfl (List.find?_eq_none.mp hfirst .dot (by decide))
  | some d =>
      obtain ⟨rest, hrest⟩ := first?_begins hfirst
      cases d with
      | dot => rfl
      | dotStar | dotSlash | dotCaret =>
          obtain ⟨rfl, -⟩ := List.cons.inj (List.cons.inj hrest).2
          exact absurd rfl (hnot _ (by decide))
      | _ => cases (List.cons.inj hrest).1

theorem scanLexeme_point {c : CodePoint} (hc : isNameStart c = true) (t : Text) (position : Nat) :
    scanLexeme position (.scalar '.' :: c :: t) = .ok (.delimiter .dot, c :: t) := by
  obtain ⟨-, -, -, hdigit, -⟩ := isNameStart_facts hc
  have hpoint : isNameStart (.scalar '.') = false := by decide
  unfold scanLexeme
  simp [startsNumber, hdigit, hpoint, first?_point hc, Delimiter.spelling, lit]

theorem shows_member (h : IsName name) :
    Shows (Before attached) (lit "." ++ name) [.mark .dot, .name name] := by
  obtain ⟨⟨c, u, rfl, hc⟩, -⟩ := id h
  refine ⟨[.delimiter .dot, .name (c :: u)], .cons (.mark _) rfl (.cons (.name _) rfl .nil), rfl,
    fun rest hrest => ?_⟩
  exact .lexeme rfl (scanLexeme_point hc (u ++ rest)) (scans_name h hrest)

end MetricBridge.Formula
