import MetricBridge.Text.Quoted
import Mathlib.Data.List.Basic

namespace MetricBridge

open Text (hexValue? unitOfHex?)

theorem hexValue?_hexDigit (n : Nat) : hexValue? (hexDigit n) = some (n % 16) := by
  have hall : ∀ k < 16, hexValue? (.scalar (Nat.digitChar k)) = some k := by decide
  exact hall (n % 16) (Nat.mod_lt n (by decide))

theorem unitOfHex?_hexDigits {n : Nat} (h : n < 0x10000) :
    unitOfHex? (hexDigit (n / 4096)) (hexDigit (n / 256)) (hexDigit (n / 16)) (hexDigit n) =
      some n := by
  have hn : 4096 * (n / 4096 % 16) + 256 * (n / 256 % 16) + 16 * (n / 16 % 16) + n % 16 = n := by
    omega
  simp [unitOfHex?, hexValue?_hexDigit, hn]

namespace CodePoint

def simpleEscapes : List (CodePoint × CodePoint) :=
  [(.scalar '"', .scalar '"'), (.scalar '\\', .scalar '\\'), (.scalar '\n', .scalar 'n'),
    (.scalar '\r', .scalar 'r'), (.scalar '\t', .scalar 't'), (.scalar '\x0C', .scalar 'f'),
    (.scalar '\x08', .scalar 'b')]

/-- A quoted code point is written with an escape of its own, by its number, or as it is. -/
theorem quotedPlain_cases (c : CodePoint) :
    (∃ e, (c, e) ∈ simpleEscapes ∧ c.quotedPlain = [.scalar '\\', e]) ∨
      (c.val < 0x20 ∧ c.quotedPlain = unitEscape c.val) ∨
      (c ≠ .scalar '"' ∧ c ≠ .scalar '\\' ∧ ¬c.val < 0x20 ∧ c.quotedPlain = [c]) := by
  by_cases hsimple : c ∈ simpleEscapes.map Prod.fst
  · have hall : ∀ p ∈ simpleEscapes, p.1.quotedPlain = [.scalar '\\', p.2] := by decide
    obtain ⟨⟨c, e⟩, he, rfl⟩ := List.mem_map.mp hsimple
    exact .inl ⟨e, he, hall _ he⟩
  · simp only [simpleEscapes, List.map_cons, List.map_nil, List.mem_cons, List.not_mem_nil,
      or_false, not_or] at hsimple
    obtain ⟨hquote, hslash, hn, hr, ht, hf, hb⟩ := hsimple
    rw [quotedPlain, if_neg hquote, if_neg hslash, if_neg hn, if_neg hr, if_neg ht, if_neg hf,
      if_neg hb]
    by_cases hcontrol : c.val < 0x20
    · rw [if_pos hcontrol]
      exact .inr (.inl ⟨hcontrol, if_pos (by omega)⟩)
    · exact .inr (.inr ⟨hquote, hslash, hcontrol, if_neg hcontrol⟩)

theorem ofNat_val (c : CodePoint) : ofNat c.val = c := by
  cases c with
  | scalar c =>
      have hc : ¬(0xD800 ≤ c.toNat ∧ c.toNat < 0xE000) := by
        have hvalid : c.toNat < 0xD800 ∨ 0xDFFF < c.toNat ∧ c.toNat < 0x110000 := c.valid
        omega
      unfold ofNat
      rw [dif_neg (show ¬(0xD800 ≤ val (.scalar c) ∧ val (.scalar c) < 0xE000) from hc)]
      exact congrArg scalar (Char.ofNat_toNat c)
  | surrogate n =>
      have hn : 0xD800 ≤ val (.surrogate n) ∧ val (.surrogate n) < 0xE000 := by
        simp only [val]
        omega
      unfold ofNat
      rw [dif_pos hn]
      simp [val]

theorem val_lt (c : CodePoint) : c.val < 0x110000 := by
  cases c with
  | scalar c =>
      have hvalid : c.toNat < 0xD800 ∨ 0xDFFF < c.toNat ∧ c.toNat < 0x110000 := c.valid
      simp only [val]
      omega
  | surrogate n =>
      simp only [val]
      omega

theorem val_ofNat_surrogate {n : Nat} (h : 0xD800 ≤ n ∧ n < 0xE000) : (ofNat n).val = n := by
  unfold ofNat
  rw [dif_pos h]
  simp only [val]
  omega

def highHalf (c : CodePoint) : Nat := 0xD800 + (c.val - 0x10000) / 0x400

def lowHalf (c : CodePoint) : Nat := 0xDC00 + (c.val - 0x10000) % 0x400

def units (c : CodePoint) : Text :=
  if c.val < 0x10000 then [c] else [ofNat c.highHalf, ofNat c.lowHalf]

theorem highHalf_range (c : CodePoint) : 0xD800 ≤ c.highHalf ∧ c.highHalf < 0xE000 := by
  have := c.val_lt
  unfold highHalf
  omega

theorem lowHalf_range (c : CodePoint) : 0xD800 ≤ c.lowHalf ∧ c.lowHalf < 0xE000 := by
  unfold lowHalf
  omega

theorem quotedAscii_half {n : Nat} (h : 0xD800 ≤ n ∧ n < 0xE000) :
    (ofNat n).quotedAscii = unitEscape n := by
  have hval := val_ofNat_surrogate h
  unfold quotedAscii numericEscape
  rw [hval, if_neg (by omega)]
  dsimp only
  rw [if_pos (by omega)]

theorem quotedAscii_pair {c : CodePoint} (h : ¬c.val < 0x10000) :
    c.quotedAscii = unitEscape c.highHalf ++ unitEscape c.lowHalf := by
  unfold quotedAscii numericEscape
  rw [if_neg (by omega)]
  exact if_neg h

/-- The halves of a pair are quoted as the pair is. -/
theorem flatMap_units (c : CodePoint) : c.units.flatMap quotedAscii = c.quotedAscii := by
  unfold units
  split
  · simp
  · rename_i h
    simp [quotedAscii_half c.highHalf_range, quotedAscii_half c.lowHalf_range, quotedAscii_pair h]

end CodePoint

namespace Text

def units (t : Text) : Text := t.flatMap CodePoint.units

theorem quote_units (t : Text) : t.units.quote = t.quote := by
  simp [quote, units, List.flatMap_assoc, CodePoint.flatMap_units]

end Text
end MetricBridge
