import MetricBridge.Json.Reader
import MetricBridge.Proofs.Text.Quoted
import Mathlib.Data.List.Chain

namespace MetricBridge

open CodePoint (quotedAscii)

namespace CodePoint

theorem val_ofNat {n : Nat} (h : n < 0x110000) : (ofNat n).val = n := by
  by_cases hsurrogate : 0xD800 ≤ n ∧ n < 0xE000
  · exact val_ofNat_surrogate hsurrogate
  · have hvalid : n.isValidChar := by
      simp only [Nat.isValidChar]
      omega
    have htoNat : (Char.ofNat n).toNat = n := by
      rw [Char.ofNat, dif_pos hvalid]
      rfl
    simpa [ofNat, hsurrogate, val] using htoNat

theorem quotedAscii_unit {c : CodePoint} (h : 0x7F ≤ c.val) (h' : c.val < 0x10000) :
    c.quotedAscii = unitEscape c.val := by
  simp [quotedAscii, numericEscape, h', show ¬c.val < 0x7F by omega]

end CodePoint

namespace Json

theorem isHigh_iff {n : Nat} : isHigh n = true ↔ 0xD800 ≤ n ∧ n < 0xDC00 := by
  simp [isHigh]

theorem isLow_iff {n : Nat} : isLow n = true ↔ 0xDC00 ≤ n ∧ n < 0xE000 := by
  simp [isLow]

variable {m n : Nat}

theorem val_joinPair (hm : isHigh m = true) (hn : isLow n = true) :
    (joinPair m n).val = 0x10000 + (m - 0xD800) * 0x400 + (n - 0xDC00) := by
  rw [isHigh_iff] at hm
  rw [isLow_iff] at hn
  exact CodePoint.val_ofNat (by omega)

theorem quotedAscii_joinPair (hm : isHigh m = true) (hn : isLow n = true) :
    (joinPair m n).quotedAscii = unitEscape m ++ unitEscape n := by
  have hval := val_joinPair hm hn
  rw [isHigh_iff] at hm
  rw [isLow_iff] at hn
  have hhigh : (joinPair m n).highHalf = m := by
    rw [CodePoint.highHalf, hval]
    omega
  have hlow : (joinPair m n).lowHalf = n := by
    rw [CodePoint.lowHalf, hval]
    omega
  rw [CodePoint.quotedAscii_pair (by omega), hhigh, hlow]

theorem joinPair_halves {c : CodePoint} (h : ¬c.val < 0x10000) :
    isHigh c.highHalf = true ∧ isLow c.lowHalf = true ∧ joinPair c.highHalf c.lowHalf = c := by
  have hlt := c.val_lt
  refine ⟨isHigh_iff.mpr ?_, isLow_iff.mpr ?_, ?_⟩
  · unfold CodePoint.highHalf
    omega
  · unfold CodePoint.lowHalf
    omega
  · have heq : 0x10000 + (c.highHalf - 0xD800) * 0x400 + (c.lowHalf - 0xDC00) = c.val := by
      unfold CodePoint.highHalf CodePoint.lowHalf
      omega
    rw [joinPair, heq, CodePoint.ofNat_val]

end Json

namespace Text

def joined : Text → Text
  | [] => []
  | [c] => [c]
  | c :: d :: t =>
    if Json.isHigh c.val && Json.isLow d.val then Json.joinPair c.val d.val :: joined t
    else c :: joined (d :: t)

def Apart (c d : CodePoint) : Prop := (Json.isHigh c.val && Json.isLow d.val) = false

instance : DecidableRel Apart := fun _ _ => inferInstanceAs (Decidable (_ = false))

def IsJoined (t : Text) : Prop := t.IsChain Apart

instance (t : Text) : Decidable t.IsJoined := inferInstanceAs (Decidable (t.IsChain Apart))

theorem joined_eq_self {t : Text} (h : t.IsJoined) : joined t = t := by
  induction t using joined.induct with
  | case1 => rfl
  | case2 c => rfl
  | case3 c d t hpair ih =>
      have hapart := (List.isChain_cons_cons.mp h).1
      rw [Apart, hpair] at hapart
      cases hapart
  | case4 c d t hpair ih =>
      rw [joined, if_neg hpair, ih (List.isChain_cons_cons.mp h).2]

theorem length_joined_le (t : Text) : (joined t).length ≤ t.length := by
  induction t using joined.induct with
  | case1 | case2 => exact le_rfl
  | case3 c d t hpair ih =>
      rw [joined, if_pos hpair, List.length_cons, List.length_cons, List.length_cons]
      omega
  | case4 c d t hpair ih =>
      rw [joined, if_neg hpair, List.length_cons, List.length_cons]
      omega

theorem isJoined_of_joined_eq {t : Text} (h : joined t = t) : t.IsJoined := by
  induction t using joined.induct with
  | case1 => exact .nil
  | case2 c => exact .singleton c
  | case3 c d t hpair ih =>
      have hlength := congrArg List.length h
      have hle := length_joined_le t
      rw [joined, if_pos hpair, List.length_cons, List.length_cons, List.length_cons] at hlength
      omega
  | case4 c d t hpair ih =>
      rw [joined, if_neg hpair] at h
      exact List.isChain_cons_cons.mpr ⟨Bool.eq_false_iff.mpr hpair, ih (List.cons.inj h).2⟩

/-- A text with its pairs joined begins as the text does, or with a joined pair. -/
theorem exists_joined_cons (c : CodePoint) (t : Text) :
    ∃ d u, joined (c :: t) = d :: u ∧ (d = c ∨ Json.isLow d.val = false) := by
  cases t with
  | nil => exact ⟨c, [], rfl, .inl rfl⟩
  | cons d t =>
      by_cases hpair : (Json.isHigh c.val && Json.isLow d.val) = true
      · obtain ⟨hc, hd⟩ := Bool.and_eq_true_iff.mp hpair
        refine ⟨_, _, if_pos hpair, .inr (Bool.eq_false_iff.mpr ?_)⟩
        rw [ne_eq, Json.isLow_iff, Json.val_joinPair hc hd]
        omega
      · exact ⟨_, _, if_neg hpair, .inl rfl⟩

theorem isJoined_joined (t : Text) : (joined t).IsJoined := by
  induction t using joined.induct with
  | case1 => exact .nil
  | case2 c => exact .singleton c
  | case3 c d t hpair ih =>
      obtain ⟨hc, hd⟩ := Bool.and_eq_true_iff.mp hpair
      have hhigh : Json.isHigh (Json.joinPair c.val d.val).val = false := by
        rw [Bool.eq_false_iff, ne_eq, Json.isHigh_iff, Json.val_joinPair hc hd]
        omega
      rw [joined, if_pos hpair]
      cases hrest : joined t with
      | nil => exact .singleton _
      | cons e u =>
          refine List.isChain_cons_cons.mpr ⟨?_, hrest ▸ ih⟩
          rw [Apart, hhigh, Bool.false_and]
  | case4 c d t hpair ih =>
      obtain ⟨e, u, hrest, he⟩ := exists_joined_cons d t
      rw [joined, if_neg hpair, hrest]
      refine List.isChain_cons_cons.mpr ⟨?_, hrest ▸ ih⟩
      rcases he with rfl | hlow
      · exact Bool.eq_false_iff.mpr hpair
      · rw [Apart, hlow, Bool.and_false]

theorem flatMap_joined (t : Text) : (joined t).flatMap quotedAscii = t.flatMap quotedAscii := by
  induction t using joined.induct with
  | case1 => rfl
  | case2 c => rfl
  | case3 c d t hpair ih =>
      obtain ⟨hc, hd⟩ := Bool.and_eq_true_iff.mp hpair
      have hhigh := Json.isHigh_iff.mp hc
      have hlow := Json.isLow_iff.mp hd
      rw [joined, if_pos hpair, List.flatMap_cons, List.flatMap_cons, List.flatMap_cons, ih,
        Json.quotedAscii_joinPair hc hd, CodePoint.quotedAscii_unit (by omega) (by omega),
        CodePoint.quotedAscii_unit (by omega) (by omega), List.append_assoc]
  | case4 c d t hpair ih => rw [joined, if_neg hpair, List.flatMap_cons, ih, ← List.flatMap_cons]

/-- A text and the text with its pairs joined are written alike. -/
theorem quote_joined (t : Text) : (joined t).quote = t.quote := by
  rw [quote, quote, flatMap_joined]

theorem length_le_quotedAscii (t : Text) : t.length ≤ (t.flatMap quotedAscii).length := by
  have hpos : ∀ c : CodePoint, 1 ≤ c.quotedAscii.length := by
    intro c
    have hnumeric : 1 ≤ c.numericEscape.length := by
      unfold CodePoint.numericEscape unitEscape
      dsimp only
      split <;> simp
    unfold CodePoint.quotedAscii
    split
    · rcases c.quotedPlain_cases with ⟨e, -, hquoted⟩ | ⟨-, hquoted⟩ | ⟨-, -, -, hquoted⟩ <;>
        simp [hquoted, unitEscape]
    · exact hnumeric
  induction t with
  | nil => exact Nat.le_refl 0
  | cons c t ih =>
      have hc := hpos c
      rw [List.flatMap_cons, List.length_cons, List.length_append]
      omega

end Text

namespace Json

variable {t s rest : Text} {c : CodePoint} {start fuel m n : Nat}

theorem simpleEscape?_of_mem {e : CodePoint} (h : (c, e) ∈ CodePoint.simpleEscapes) :
    simpleEscape? e = some c := by
  have hall : ∀ p ∈ CodePoint.simpleEscapes, simpleEscape? p.2 = some p.1 := by decide
  exact hall _ h

theorem ne_u_of_simpleEscape? {e : CodePoint} (h : simpleEscape? e = some c) : e ≠ .scalar 'u' := by
  rintro rfl
  cases h

def Quotes (fuel : Nat) (t s rest : Text) : Prop :=
  ∀ start, readString start fuel t = .ok (s, rest)

namespace Quotes

theorem ne_nil (h : Quotes fuel t s rest) : t ≠ [] := by
  rintro rfl
  have h := h 0
  cases fuel <;> cases h

theorem close : Quotes (fuel + 1) (.scalar '"' :: rest) [] rest := fun _ => rfl

theorem plain (hc : c ≠ .scalar '"') (hc' : c ≠ .scalar '\\') (hval : ¬c.val < 0x20)
    (h : Quotes fuel t s rest) : Quotes (fuel + 1) (c :: t) (c :: s) rest := by
  intro start
  rw [readString.eq_def]
  simp only [if_neg hc, if_neg hc', if_neg hval, h start]

theorem escape {e : CodePoint} (he : simpleEscape? e = some c) (h : Quotes fuel t s rest) :
    Quotes (fuel + 1) (.scalar '\\' :: e :: t) (c :: s) rest := by
  have hu := ne_u_of_simpleEscape? he
  intro start
  rw [readString.eq_def]
  simp only [CodePoint.scalar.injEq, if_true, he, h start]
  exact if_neg (by decide)

theorem unit (hn : n < 0x10000) (hlow : isHigh n = true → lowHalf? t = none)
    (h : Quotes fuel t s rest) : Quotes (fuel + 1) (unitEscape n ++ t) (.ofNat n :: s) rest := by
  obtain ⟨e, after, rfl⟩ := List.exists_cons_of_ne_nil h.ne_nil
  intro start
  have hunit := unitOfHex?_hexDigits hn
  have hsingle : (if isHigh n = true then lowHalf? (e :: after) else none) = none := by
    split
    · exact hlow ‹_›
    · rfl
  simp only [unitEscape, List.cons_append, List.nil_append]
  rw [readString, if_neg (by decide), if_pos rfl]
  simp only [hunit, hsingle, h start]

theorem pair (hm : isHigh m = true) (hn : isLow n = true) (h : Quotes fuel t s rest) :
    Quotes (fuel + 1) (unitEscape m ++ (unitEscape n ++ t)) (joinPair m n :: s) rest := by
  obtain ⟨e, after, rfl⟩ := List.exists_cons_of_ne_nil h.ne_nil
  have hmlt := isHigh_iff.mp hm
  have hnlt := isLow_iff.mp hn
  have hunit := unitOfHex?_hexDigits (show m < 0x10000 by omega)
  have hunit' := unitOfHex?_hexDigits (show n < 0x10000 by omega)
  have hlow : lowHalf? (unitEscape n ++ e :: after) = some (n, e :: after) := by
    simp [unitEscape, lowHalf?, hunit', hn]
  intro start
  simp only [unitEscape, List.cons_append, List.nil_append] at hlow ⊢
  rw [readString, if_neg (by decide), if_pos rfl]
  simp only [hunit, hm, if_true, hlow, h start]

theorem quotedPlain (h : Quotes fuel t s rest) :
    Quotes (fuel + 1) (c.quotedPlain ++ t) (c :: s) rest := by
  rcases c.quotedPlain_cases with
    ⟨e, he, hquoted⟩ | ⟨hcontrol, hquoted⟩ | ⟨hquote, hslash, hcontrol, hquoted⟩
  · rw [hquoted]
    exact h.escape (simpleEscape?_of_mem he)
  · have hhigh : ¬isHigh c.val = true := by
      rw [isHigh_iff]
      omega
    have hunit := h.unit (show c.val < 0x10000 by omega) fun hc => absurd hc hhigh
    rw [CodePoint.ofNat_val] at hunit
    rwa [hquoted]
  · rw [hquoted]
    exact h.plain hquote hslash hcontrol

end Quotes

/-- What is quoted begins with the second half of a pair only if it is one. -/
theorem lowHalf?_quotedAscii (hc : isLow c.val = false) (t : Text) :
    lowHalf? (c.quotedAscii ++ t) = none := by
  have hunit : ∀ n < 0x10000, isLow n = false → ∀ t, lowHalf? (unitEscape n ++ t) = none := by
    intro n hn hlow t
    simp [lowHalf?, unitEscape, unitOfHex?_hexDigits hn, hlow]
  have hsimple : ∀ e : CodePoint, e ≠ .scalar 'u' → ∀ t,
      lowHalf? (.scalar '\\' :: e :: t) = none := by
    intro e he t
    unfold lowHalf?
    split
    · rename_i heq
      cases heq
      exact absurd rfl he
    · rfl
  have hplain : ∀ c : CodePoint, c ≠ .scalar '\\' → ∀ t, lowHalf? (c :: t) = none := by
    intro c hc t
    unfold lowHalf?
    split
    · rename_i heq
      cases heq
      exact absurd rfl hc
    · rfl
  by_cases hascii : c.val < 0x7F
  · rw [CodePoint.quotedAscii, if_pos hascii]
    rcases c.quotedPlain_cases with ⟨e, he, hquoted⟩ | ⟨hcontrol, hquoted⟩ | ⟨-, hslash, -, hquoted⟩
    · rw [hquoted]
      exact hsimple e (ne_u_of_simpleEscape? (simpleEscape?_of_mem he)) t
    · rw [hquoted]
      exact hunit _ (by omega) hc t
    · rw [hquoted]
      exact hplain c hslash t
  · by_cases hpair : c.val < 0x10000
    · rw [CodePoint.quotedAscii_unit (by omega) hpair]
      exact hunit _ hpair hc t
    · obtain ⟨hhigh, -, -⟩ := joinPair_halves hpair
      have hnot : isLow c.highHalf = false := by
        rw [isHigh_iff] at hhigh
        rw [Bool.eq_false_iff, ne_eq, isLow_iff]
        omega
      have hlt := c.highHalf_range
      rw [CodePoint.quotedAscii_pair hpair, List.append_assoc]
      exact hunit _ (by omega) hnot _

theorem Quotes.quotedAscii (h : Quotes fuel t s rest)
    (hlow : isHigh c.val = true → lowHalf? t = none) :
    Quotes (fuel + 1) (c.quotedAscii ++ t) (c :: s) rest := by
  by_cases hascii : c.val < 0x7F
  · rw [CodePoint.quotedAscii, if_pos hascii]
    exact h.quotedPlain
  · by_cases hpair : c.val < 0x10000
    · have hunit := h.unit hpair hlow
      rwa [CodePoint.ofNat_val, ← CodePoint.quotedAscii_unit (by omega) hpair] at hunit
    · obtain ⟨hhigh, hlow, heq⟩ := joinPair_halves hpair
      have hjoined := h.pair hhigh hlow
      rwa [heq, ← List.append_assoc, ← CodePoint.quotedAscii_pair hpair] at hjoined

/-- The content of a quoted text is read back, with its pairs joined. -/
theorem quotes_joined (t rest : Text) (h : t.length < fuel) :
    Quotes fuel (t.flatMap CodePoint.quotedAscii ++ .scalar '"' :: rest) t.joined rest := by
  obtain ⟨fuel, rfl⟩ := Nat.exists_eq_add_of_lt h
  clear h
  induction t using Text.joined.induct generalizing fuel with
  | case1 => exact .close
  | case2 c =>
      have hclose : Quotes (fuel + 1) (.scalar '"' :: rest) [] rest := .close
      have hone := hclose.quotedAscii (c := c) fun _ => rfl
      simpa [Text.joined, Nat.add_comm, Nat.add_left_comm] using hone
  | case3 c d t hpair ih =>
      obtain ⟨hc, hd⟩ := Bool.and_eq_true_iff.mp hpair
      have hhigh := isHigh_iff.mp hc
      have hlow := isLow_iff.mp hd
      have hjoined := (ih (fuel + 1)).pair hc hd
      rw [← CodePoint.quotedAscii_unit (by omega) (by omega),
        ← CodePoint.quotedAscii_unit (by omega) (by omega)] at hjoined
      rw [Text.joined, if_pos hpair]
      simpa [Nat.add_comm, Nat.add_left_comm] using hjoined
  | case4 c d t hpair ih =>
      have hlow : isHigh c.val = true → lowHalf? ((d :: t).flatMap CodePoint.quotedAscii ++
          .scalar '"' :: rest) = none := by
        intro hc
        have hd : isLow d.val = false := by simpa [hc] using hpair
        rw [List.flatMap_cons, List.append_assoc]
        exact lowHalf?_quotedAscii hd _
      have hcons := (ih fuel).quotedAscii hlow
      rw [Text.joined, if_neg hpair]
      simpa [Nat.add_comm, Nat.add_left_comm] using hcons

end Json
end MetricBridge
