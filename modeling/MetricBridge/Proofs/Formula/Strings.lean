import MetricBridge.Formula.Scan
import MetricBridge.Proofs.Text.Quoted

namespace MetricBridge.Formula

open CodePoint (quotedAscii)

variable {t value rest w : Text} {c quote : CodePoint} {position n : Nat}

def IsString (quote : CodePoint) (w value : Text) : Prop :=
  ∀ start fuel position rest, w.length ≤ fuel →
    scanString quote start fuel position (w ++ rest) = .ok (value, rest)

namespace IsString

theorem close (quote : CodePoint) : IsString quote [quote] [] := by
  intro start fuel position rest hfuel
  cases fuel with
  | zero => cases hfuel
  | succ fuel => simp [scanString]

theorem ne_nil (h : IsString quote w value) : w ≠ [] := by
  rintro rfl
  cases h 0 0 0 [] (Nat.le_refl 0)

theorem plain (hc : c ≠ quote) (hc' : c ≠ .scalar '\\') (h : IsString quote w value) :
    IsString quote (c :: w) (c :: value) := by
  intro start fuel position rest hfuel
  cases fuel with
  | zero => cases hfuel
  | succ fuel =>
      have hrest := h start fuel (position + 1) rest (Nat.le_of_succ_le_succ hfuel)
      simp [scanString, hc, hc', hrest]

theorem escape {e : CodePoint} (hquote : .scalar '\\' ≠ quote) (hu : e ≠ .scalar 'u')
    (he : escape? e = some c) (h : IsString quote w value) :
    IsString quote (.scalar '\\' :: e :: w) (c :: value) := by
  intro start fuel position rest hfuel
  cases fuel with
  | zero => cases hfuel
  | succ fuel =>
      have hrest := h start fuel (position + 2) rest
        (Nat.le_of_succ_le (Nat.le_of_succ_le_succ hfuel))
      simp [scanString, hquote, hu, he, hrest]

theorem unit {p q r s : CodePoint} (hquote : .scalar '\\' ≠ quote)
    (hn : Text.unitOfHex? p q r s = some n) (h : IsString quote w value) :
    IsString quote (.scalar '\\' :: .scalar 'u' :: p :: q :: r :: s :: w) (.ofNat n :: value) := by
  intro start fuel position rest hfuel
  cases fuel with
  | zero => cases hfuel
  | succ fuel =>
      simp only [List.length_cons] at hfuel
      have hrest := h start fuel (position + 6) rest (by omega)
      simp [scanString, hquote, hexUnit?, hn, hrest]

end IsString

theorem hexUnit?_eq_some (h : hexUnit? t = some (n, rest)) :
    ∃ p q r s, t = p :: q :: r :: s :: rest ∧ Text.unitOfHex? p q r s = some n := by
  unfold hexUnit? at h
  split at h
  · obtain ⟨m, hm, hpair⟩ := Option.map_eq_some_iff.mp h
    cases hpair
    exact ⟨_, _, _, _, rfl, hm⟩
  · cases h

/-- The inside of a quoted text, and the value that it stands for: each escape stands for one code
point, and the quote occurs in escapes only. -/
inductive IsQuoted (quote : CodePoint) : Text → Text → Prop
  | nil : IsQuoted quote [] []
  | plain {c : CodePoint} {inside value : Text} (hc : c ≠ quote) (hc' : c ≠ .scalar '\\')
      (h : IsQuoted quote inside value) : IsQuoted quote (c :: inside) (c :: value)
  | escape {e c : CodePoint} {inside value : Text} (hquote : .scalar '\\' ≠ quote)
      (he : escape? e = some c) (h : IsQuoted quote inside value) :
      IsQuoted quote (.scalar '\\' :: e :: inside) (c :: value)
  | unit {p q r s : CodePoint} {n : Nat} {inside value : Text} (hquote : .scalar '\\' ≠ quote)
      (hn : Text.unitOfHex? p q r s = some n) (h : IsQuoted quote inside value) :
      IsQuoted quote (.scalar '\\' :: .scalar 'u' :: p :: q :: r :: s :: inside) (.ofNat n :: value)

theorem IsQuoted.isString {inside : Text} (h : IsQuoted quote inside value) :
    IsString quote (inside ++ [quote]) value := by
  induction h with
  | nil => exact .close quote
  | plain hc hc' _ ih => exact ih.plain hc hc'
  | @escape e c inside value hquote he _ ih =>
      refine ih.escape hquote ?_ he
      rintro rfl
      cases he
  | unit hquote hn _ ih => exact ih.unit hquote hn

theorem scanString_isQuoted {start fuel : Nat}
    (h : scanString quote start fuel position t = .ok (value, rest)) :
    ∃ inside, t = inside ++ quote :: rest ∧ IsQuoted quote inside value := by
  induction fuel generalizing position t value rest with
  | zero => cases h
  | succ fuel ih =>
      unfold scanString at h
      split at h
      · cases h
      · rename_i c u
        split_ifs at h with hend hslash
        · cases h
          exact ⟨[], by rw [hend]; rfl, .nil⟩
        · subst hslash
          split at h
          · cases h
          · rename_i e u
            split_ifs at h with hunit
            · subst hunit
              split at h
              · cases h
              · rename_i n u hdigits
                obtain ⟨p, q, r, s, rfl, hn⟩ := hexUnit?_eq_some hdigits
                split at h
                · rename_i hread
                  cases h
                  obtain ⟨inside, rfl, hinside⟩ := ih hread
                  exact ⟨_, rfl, hinside.unit hend hn⟩
                · cases h
            · split at h
              · cases h
              · rename_i d hescape
                split at h
                · rename_i hread
                  cases h
                  obtain ⟨inside, rfl, hinside⟩ := ih hread
                  exact ⟨_, rfl, hinside.escape hend hescape⟩
                · cases h
        · split at h
          · rename_i hread
            cases h
            obtain ⟨inside, rfl, hinside⟩ := ih hread
            exact ⟨_, rfl, hinside.plain hend hslash⟩
          · cases h

theorem scanString_eq_ok {start fuel : Nat}
    (h : scanString quote start fuel position t = .ok (value, rest)) :
    ∃ w, t = w ++ rest ∧ IsString quote w value := by
  obtain ⟨inside, rfl, hinside⟩ := scanString_isQuoted h
  exact ⟨inside ++ [quote], by rw [List.append_assoc]; rfl, hinside.isString⟩

namespace IsString

theorem unitEscape (hn : n < 0x10000) (h : IsString (.scalar '"') w value) :
    IsString (.scalar '"') (MetricBridge.unitEscape n ++ w) (.ofNat n :: value) :=
  h.unit nofun (unitOfHex?_hexDigits hn)

theorem quotedPlain (c : CodePoint) (h : IsString (.scalar '"') w value) :
    IsString (.scalar '"') (c.quotedPlain ++ w) (c :: value) := by
  have hescapes : ∀ p ∈ CodePoint.simpleEscapes, p.2 ≠ .scalar 'u' ∧ escape? p.2 = some p.1 := by
    decide
  rcases c.quotedPlain_cases with ⟨e, he, hquoted⟩ | ⟨hcontrol, hquoted⟩ | ⟨hquote, hslash, -, hquoted⟩
  · obtain ⟨hu, he⟩ := hescapes _ he
    rw [hquoted]
    exact h.escape nofun hu he
  · have hunit := h.unitEscape (show c.val < 0x10000 by omega)
    rw [CodePoint.ofNat_val] at hunit
    rwa [hquoted]
  · rw [hquoted]
    exact h.plain hquote hslash

theorem quotedAscii (c : CodePoint) (h : IsString (.scalar '"') w value) :
    IsString (.scalar '"') (c.quotedAscii ++ w) (c.units ++ value) := by
  by_cases hpair : c.val < 0x10000
  · unfold CodePoint.units
    rw [if_pos hpair]
    unfold CodePoint.quotedAscii
    split
    · exact h.quotedPlain c
    · have hunit := h.unitEscape hpair
      rw [CodePoint.ofNat_val] at hunit
      unfold CodePoint.numericEscape
      rwa [if_pos hpair]
  · have hhigh := c.highHalf_range
    have hlow := c.lowHalf_range
    rw [CodePoint.quotedAscii_pair hpair, List.append_assoc]
    unfold CodePoint.units
    rw [if_neg hpair]
    exact (h.unitEscape (by omega)).unitEscape (by omega)

theorem quoted (t : Text) :
    IsString (.scalar '"') (t.flatMap CodePoint.quotedAscii ++ [.scalar '"']) t.units := by
  induction t with
  | nil => exact .close _
  | cons c t ih =>
      rw [List.flatMap_cons, List.append_assoc]
      exact ih.quotedAscii c

theorem plainly (t : Text) :
    IsString (.scalar '"') (t.flatMap CodePoint.quotedPlain ++ [.scalar '"']) t := by
  induction t with
  | nil => exact .close _
  | cons c t ih =>
      rw [List.flatMap_cons, List.append_assoc]
      exact ih.quotedPlain c

theorem scanLexeme (hquote : quote = .scalar '"' ∨ quote = .scalar '\'')
    (h : IsString quote w value) (position : Nat) (rest : Text) :
    scanLexeme position (quote :: w ++ rest) = .ok (.string value, rest) := by
  have hlength : w.length ≤ (w ++ rest).length + 1 := by
    rw [List.length_append]
    omega
  rw [List.cons_append]
  unfold Formula.scanLexeme
  dsimp only
  rw [if_pos hquote, h _ _ _ _ hlength]

end IsString

theorem scanLexeme_string (t rest : Text) :
    scanLexeme position (t.quote ++ rest) = .ok (.string t.units, rest) :=
  (IsString.quoted t).scanLexeme (.inl rfl) position rest

theorem scanLexeme_quotePlain (t rest : Text) :
    scanLexeme position (t.quotePlain ++ rest) = .ok (.string t, rest) :=
  (IsString.plainly t).scanLexeme (.inl rfl) position rest

end MetricBridge.Formula
