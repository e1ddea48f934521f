import MetricBridge.Proofs.Text.Utf8

namespace MetricBridge

open Text (IsPlain)

namespace Text

variable {s t : Text}

theorem IsPlain.append (hs : s.IsPlain) (ht : t.IsPlain) : IsPlain (s ++ t) :=
  List.forall_mem_append.mpr ⟨hs, ht⟩

theorem IsPlain.of_subset (h : s ⊆ t) (ht : t.IsPlain) : s.IsPlain := fun c hc => ht c (h hc)

instance (t : Text) : Decidable t.IsPlain :=
  inferInstanceAs (Decidable (∀ c ∈ t, 0x20 ≤ c.val ∧ c.val < 0x7F))

theorem isPlain_hexDigit (n : Nat) : IsPlain [hexDigit n] := by
  have hall : ∀ k < 16, IsPlain [.scalar (Nat.digitChar k)] := by decide
  exact hall (n % 16) (Nat.mod_lt n (by decide))

theorem isPlain_unitEscape (n : Nat) : IsPlain (unitEscape n) := by
  have hmarks : IsPlain [.scalar '\\', .scalar 'u'] := by decide
  exact hmarks.append ((isPlain_hexDigit _).append ((isPlain_hexDigit _).append
    ((isPlain_hexDigit _).append (isPlain_hexDigit _))))

theorem isPlain_quotedAscii (c : CodePoint) : IsPlain c.quotedAscii := by
  have hnumeric : IsPlain c.numericEscape := by
    unfold CodePoint.numericEscape
    dsimp only
    split
    · exact isPlain_unitEscape _
    · exact (isPlain_unitEscape _).append (isPlain_unitEscape _)
  have hescapes : ∀ p ∈ CodePoint.simpleEscapes, IsPlain [.scalar '\\', p.2] := by decide
  unfold CodePoint.quotedAscii
  split
  · rcases c.quotedPlain_cases with ⟨e, he, hquoted⟩ | ⟨-, hquoted⟩ | ⟨-, -, hcontrol, hquoted⟩
    · rw [hquoted]
      exact hescapes _ he
    · rw [hquoted]
      exact isPlain_unitEscape _
    · rw [hquoted]
      intro d hd
      rw [List.mem_singleton.mp hd]
      omega
  · exact hnumeric

theorem isPlain_quote (t : Text) : IsPlain t.quote := by
  have hmark : IsPlain [.scalar '"'] := by decide
  have hcontent : IsPlain (t.flatMap CodePoint.quotedAscii) := by
    intro c hc
    obtain ⟨d, -, hc⟩ := List.mem_flatMap.mp hc
    exact isPlain_quotedAscii d c hc
  exact (hmark.append hcontent).append hmark

theorem isPlain_ofNat (n : Nat) : IsPlain (ofNat n) :=
  .of_subset (fun _ hc => Numeral.mem_alphabet (isDigits_ofNat n _ hc)) (by decide)

theorem isPlain_ofInt (n : Int) : IsPlain (ofInt n) := by
  have hminus : IsPlain [.scalar '-'] := by decide
  cases n with
  | ofNat k => exact isPlain_ofNat k
  | negSucc k => exact hminus.append (isPlain_ofNat (k + 1))

theorem isPlain_ofFloat (x : Float) : IsPlain (ofFloat x) := by
  obtain ⟨n, hn, -⟩ := NumberLayout.exists_numeral (Binary.shortest (Binary.ofFloat x))
  have halphabet : IsPlain Numeral.alphabet := by decide
  have hminus : IsPlain [.scalar '-'] := by decide
  rw [ofFloat, NumberLayout.float]
  split
  · decide
  · refine IsPlain.append ?_ ?_
    · split
      · exact hminus
      · exact List.forall_mem_nil _
    · split
      · decide
      · rw [hn]
        exact halphabet.of_subset n.text_subset

end Text

namespace Json

open Text

theorem isPlain_floatText (x : Float) : IsPlain (floatText x) := by
  cases floatForm x with
  | nan _ written => exact written ▸ (by decide)
  | infinity _ _ written => exact written ▸ (by decide)
  | minusInfinity _ _ written => exact written ▸ (by decide)
  | numeral negative n _ _ written =>
      have hsign : IsPlain (if negative then [.scalar '-'] else []) := by cases negative <;> decide
      have halphabet : IsPlain Numeral.alphabet := by decide
      exact written ▸ hsign.append (halphabet.of_subset n.text_subset)

theorem isPlain_print (j : Json) : IsPlain (print j) := by
  have hseparator : ∀ b : Bool, IsPlain (if b then [] else lit ", ") := by decide
  induction j using Json.induct with
  | null => decide
  | bool b => cases b <;> decide
  | int n => exact isPlain_ofInt n
  | float x => exact isPlain_floatText x
  | string t => exact isPlain_quote t
  | array items ih =>
      have hopen : IsPlain [.scalar '['] := by decide
      have hclose : IsPlain [.scalar ']'] := by decide
      have hitems : IsPlain (printItems items) := by
        induction items with
        | nil => exact List.forall_mem_nil _
        | cons item items ihitems =>
            obtain ⟨hitem, hitems⟩ := List.forall_mem_cons.mp ih
            rw [printItems]
            exact (hitem.append (hseparator _)).append (ihitems hitems)
      exact (hopen.append hitems).append hclose
  | object fields ih =>
      have hopen : IsPlain [.scalar '{'] := by decide
      have hclose : IsPlain [.scalar '}'] := by decide
      have hcolon : IsPlain (lit ": ") := by decide
      have hfields : IsPlain (printFields fields) := by
        induction fields with
        | nil => exact List.forall_mem_nil _
        | cons field fields ihfields =>
            obtain ⟨hfield, hfields⟩ := List.forall_mem_cons.mp ih
            obtain ⟨name, value⟩ := field
            rw [printFields]
            exact ((((isPlain_quote name).append hcolon).append hfield).append
              (hseparator _)).append (ihfields hfields)
      exact (hopen.append hfields).append hclose

end Json
end MetricBridge
