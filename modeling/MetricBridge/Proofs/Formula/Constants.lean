import MetricBridge.Proofs.Decimal.Sign
import MetricBridge.Proofs.Formula.Calculated
import MetricBridge.Proofs.Formula.Grammatical
import MetricBridge.Proofs.Formula.Shown
import MetricBridge.Proofs.Json.Floats

namespace MetricBridge.Formula

open Text (IsNumeral digitValues? natOfDigits ofNat ofFloat)

variable {t literal : Text} {x : Float} {n : Nat} {k : Int} {v : Literal}

theorem number_ofNat (h : n < 10 ^ integerDigitLimit) :
    Rule.number (ofNat n) = .ok (.int n) := by
  unfold Rule.number
  rw [Text.digitValues?_ofNat]
  dsimp only
  rw [Text.natOfDigits_toDigits h]

def Literal.IsNumber : Literal → Prop
  | int k => ∃ n : Nat, k = n ∧ n < 10 ^ integerDigitLimit
  | float x => IsMagnitude x
  | _ => False

theorem isNumber_of_number (h : Rule.number literal = .ok v) : v.IsNumber := by
  unfold Rule.number at h
  split at h
  · rename_i digits hdigits
    split at h
    · rename_i n hn
      cases h
      exact ⟨n, rfl, Text.natOfDigits_lt hdigits hn⟩
    · cases h
  · cases h
    cases hx : Text.decimalFloat? literal with
    | none => exact isMagnitude_ofScientific 0 true 1
    | some x => exact Text.isMagnitude_decimalFloat hx

theorem digitValues?_eq_none {c : CodePoint} (hc : c ∈ t) (hd : c.decimalValue? = none) :
    digitValues? t = none := by
  induction t with
  | nil => cases hc
  | cons d t ih =>
      unfold digitValues? at ih ⊢
      rw [List.mapM_cons]
      rcases List.mem_cons.mp hc with rfl | hc
      · rw [hd]
        rfl
      · rw [ih hc]
        cases d.decimalValue? <;> rfl

theorem digitValues?_numeral (h : IsNumeral t) : digitValues? t = none := by
  have hpoint : (CodePoint.scalar '.').decimalValue? = none := by decide
  have hexponent : (CodePoint.scalar 'e').decimalValue? = none := by decide
  cases h with
  | point => exact digitValues?_eq_none (by simp) hpoint
  | exponent => exact digitValues?_eq_none (by simp) hexponent
  | both => exact digitValues?_eq_none (by simp) hpoint

theorem exists_numeral_ofFloat (h : IsMagnitude x) (hinf : x.isInf = false) :
    ∃ n : Numeral, ofFloat x = n.text ∧ n.value = x := by
  have hsign : signOf x = .positive := if_neg h.sign_ne_one
  have htext : ofFloat x = NumberLayout.full.decimal (Binary.ofFloat x).shortest := by
    unfold ofFloat NumberLayout.float
    simp only [h.isNaN_eq_false, h.sign_ne_one, hinf, Bool.false_eq_true, if_false, List.nil_append]
  obtain ⟨n, hn, hdenotes⟩ := NumberLayout.exists_numeral (Binary.ofFloat x).shortest
  refine ⟨n, htext.trans hn, ?_⟩
  cases unpacks h.isNaN_eq_false hinf with
  | zero _ hunpack =>
      have hzero : (0.0 : Float).toModel.unpack = .zero .positive := rfl
      rw [hsign] at hunpack
      rw [eq_of_unpack (hunpack.trans hzero.symm)] at hn
      have hread : Text.decimalFloat? (NumberLayout.full.decimal (Binary.ofFloat 0.0).shortest) =
          some 0.0 := by
        decide +kernel
      rw [hn, n.decimalFloat?_text] at hread
      rw [Option.some.inj hread, eq_of_unpack (hunpack.trans hzero.symm)]
  | @finite y hfloat hy hunpack =>
      rw [hfloat] at hdenotes
      refine eq_of_unpack ?_
      rw [hunpack, hsign]
      exact n.unpack_value hdenotes hy hy.covers_shortest

theorem ofFloat_infinite (h : IsMagnitude x) (hinf : x.isInf = true) : ofFloat x = lit "inf" := by
  unfold ofFloat NumberLayout.float
  simp only [h.isNaN_eq_false, h.sign_ne_one, hinf, Bool.false_eq_true, if_false, if_true,
    List.nil_append]
  rfl

theorem number_numeral (n : Numeral) : Rule.number n.text = .ok (.float n.value) := by
  unfold Rule.number
  rw [digitValues?_numeral n.isNumeral, n.decimalFloat?_text]
  rfl

theorem ne_point (h : Text.IsDigits t) : ∀ c ∈ t, decide (c ≠ .scalar '.') = true := by
  intro c hc
  refine decide_eq_true ?_
  rintro rfl
  exact nomatch h _ hc

theorem isPointed_digits (h : Text.IsDigits t) : (Lexeme.number t).isPointed = false := by
  have hdrop : t.dropWhile (· ≠ .scalar '.') = [] := List.dropWhile_eq_nil_iff.mpr (ne_point h)
  simp only [Lexeme.isPointed, hdrop]

theorem isPointed_append (h : Text.IsDigits t) (u : Text) :
    (Lexeme.number (t ++ .scalar '.' :: u)).isPointed = !u.head?.any CodePoint.isDecimal := by
  have hdrop : (t ++ .scalar '.' :: u).dropWhile (· ≠ .scalar '.') = .scalar '.' :: u := by
    rw [List.dropWhile_append_of_pos (ne_point h)]
    exact List.dropWhile_cons_of_neg (by simp)
  simp only [Lexeme.isPointed, hdrop]

theorem isPointed_numeral (n : Numeral) : (Lexeme.number n.text).isPointed = false := by
  obtain ⟨whole, fraction, exponent, -, hw, -, hf, he, -⟩ := n
  have hbehind : ∀ c ∈ Numeral.exponentText exponent, decide (c ≠ .scalar '.') = true := by
    cases exponent with
    | none => nofun
    | some e =>
        obtain ⟨negative, digits⟩ := e
        have hdigits := ne_point (he _ rfl).2
        cases negative <;> simpa [Numeral.exponentText] using hdigits
  unfold Numeral.text Numeral.fractionText
  dsimp only
  cases fraction with
  | nil =>
      have hdrop : (whole ++ Numeral.exponentText exponent).dropWhile (· ≠ .scalar '.') = [] :=
        List.dropWhile_eq_nil_iff.mpr (List.forall_mem_append.mpr ⟨ne_point hw, hbehind⟩)
      simp only [if_true, List.nil_append, Lexeme.isPointed, hdrop]
  | cons c u =>
      have hc : c.isDecimal = true := CodePoint.isDecimal_of_isAsciiDigit (hf c List.mem_cons_self)
      rw [if_neg (List.cons_ne_nil c u), List.cons_append, isPointed_append hw]
      simp [hc]

theorem shows_number {p : Text → Prop} {m : Terminal} (hl : (Lexeme.number t).Denotes m)
    (ht : ∃ c u, t = c :: u ∧ c.isAsciiDigit = true) (hpoint : (Lexeme.number t).isPointed = false)
    (hspan : ∀ rest, p rest → spanNumber (t ++ rest) = (t, rest)) : Shows p t [m] := by
  obtain ⟨c, u, rfl, hc⟩ := ht
  obtain ⟨-, -, -, -, hblank⟩ := isAsciiDigit_facts hc
  exact .single hl hpoint hblank fun rest hrest _ => scanLexeme_number hc (hspan rest hrest)

theorem shows_ofNat (h : n < 10 ^ integerDigitLimit) :
    Shows (Before apart) (ofNat n) [.number (.int n)] := by
  have hdigits := Text.isDigits_ofNat n
  have hne := Text.ofNat_ne_nil n
  have hpoint : CodePoint.scalar '.' ∉ apart := by decide
  refine shows_number (.number (number_ofNat h)) ?_ (isPointed_digits hdigits) fun rest hrest =>
    spanNumber_digits hne hdigits (hrest.mono (List.subset_cons_self _ _)).endsNumber fun u hu =>
      hpoint (hrest _ u hu)
  obtain ⟨c, u, heq⟩ := List.exists_cons_of_ne_nil hne
  exact ⟨c, u, heq, hdigits c (heq ▸ List.mem_cons_self)⟩

theorem shows_numeral (n : Numeral) : Shows (Before attached) n.text [.number (.float n.value)] :=
  shows_number (.number (number_numeral n)) n.isNumeral.cons (isPointed_numeral n) fun _ hrest =>
    spanNumber_numeral n.isNumeral hrest.endsNumber

theorem shows_quote {m : Terminal} (hl : (Lexeme.string t.units).Denotes m) :
    Shows (Before attached) t.quote [m] := by
  have hquote : t.quote = .scalar '"' :: (t.flatMap CodePoint.quotedAscii ++ [.scalar '"']) := rfl
  have hscan : ∀ rest, Before attached rest → ∀ position,
      scanLexeme position (t.quote ++ rest) = .ok (.string t.units, rest) :=
    fun rest _ _ => scanLexeme_string t rest
  rw [hquote] at hscan
  exact .single hl rfl (by decide) hscan

theorem isName_inf : IsName (lit "inf") :=
  ⟨⟨_, _, rfl, by decide⟩, by decide⟩

theorem shows_name (h : IsName t) : Shows (Before attached) t [.name t] :=
  .name h (.name t) fun _ hrest => hrest.head (by decide)

def Literal.isDigits (v : Literal) : Bool := v.text.all CodePoint.isAsciiDigit

def Literal.behind (v : Literal) : Text := if v.isDigits then apart else attached

theorem Literal.behind_subset (v : Literal) : v.behind ⊆ attached := by
  unfold behind
  split
  · exact List.subset_cons_self _ _
  · exact List.Subset.refl _

theorem Literal.closers_subset (v : Literal) : closers ⊆ v.behind := by
  unfold behind
  split
  · exact List.subset_append_right _ _
  · exact List.subset_append_right _ _

inductive Literal.Form (v : Literal) : Prop
  | digits {n : Nat} (hn : n < 10 ^ integerDigitLimit) (ht : v.text = ofNat n)
      (hr : v.reread = .constant (.int n))
  | numeral (n : Numeral) (ht : v.text = n.text) (hr : v.reread = .constant (.float n.value))
  | infinite (ht : v.text = lit "inf") (hr : v.reread = .symbol (lit "inf"))
  | string (t : Text) (hv : v = .string t)
  | word {t : Text} (hname : IsName t) (hv : v.terminal = .name t) (ht : v.text = t)
      (hr : v.reread = .constant v)

theorem form_float (h : IsMagnitude x) : (Literal.float x).Form := by
  by_cases hwhole : Literal.isWhole x = true
  · have htext : (Literal.float x).text = ofNat (Binary.ofFloat x).floor := by
      simp only [Literal.text, Literal.floatText_eq, if_pos hwhole, if_neg h.not_lt_zero]
      rfl
    have hreread : (Literal.float x).reread = .constant (.int (Binary.ofFloat x).floor) := by
      simp only [Literal.reread, if_pos hwhole, if_neg h.not_lt_zero]
    simp only [Literal.isWhole, Bool.and_eq_true, decide_eq_true_eq] at hwhole
    have hlimit : 21 ≤ integerDigitLimit := by decide
    exact .digits (Nat.lt_of_lt_of_le hwhole.2 (Nat.pow_le_pow_right (n := 10) (by decide) hlimit))
      htext hreread
  · have htext : (Literal.float x).text = ofFloat x := by
      simp only [Literal.text, Literal.floatText_eq, if_neg hwhole]
    by_cases hinf : x.isInf = true
    · refine .infinite (htext.trans (ofFloat_infinite h hinf)) ?_
      rw [Literal.reread, if_neg hwhole, if_pos hinf, ofFloat_infinite h hinf]
    · obtain ⟨n, hn, rfl⟩ := exists_numeral_ofFloat h (Bool.eq_false_iff.mpr hinf)
      refine .numeral n (htext.trans hn) ?_
      rw [Literal.reread, if_neg hwhole, if_neg hinf]

theorem Literal.IsWritten.form (h : v.IsWritten) : v.Form := by
  obtain ⟨l, hl⟩ := h
  cases v with
  | int k =>
      obtain ⟨literal, -, hk⟩ := hl.of_number
      obtain ⟨n, rfl, hn⟩ := isNumber_of_number hk
      exact .digits hn rfl rfl
  | float x =>
      obtain ⟨literal, -, hx⟩ := hl.of_number
      exact form_float (isNumber_of_number hx)
  | string t => exact .string t rfl
  | bool b => cases b with
      | true => exact .word (t := "true") ⟨⟨_, _, rfl, by decide⟩, by decide⟩ rfl rfl rfl
      | false => exact .word (t := "false") ⟨⟨_, _, rfl, by decide⟩, by decide⟩ rfl rfl rfl
  | null => exact .word (t := "null") ⟨⟨_, _, rfl, by decide⟩, by decide⟩ rfl rfl rfl

theorem Literal.Form.shows (h : v.Form) :
    Shows (Before v.behind) v.text v.reread.terminals := by
  have hattached : ∀ {ms : List Terminal}, Shows (Before attached) v.text ms →
      Shows (Before v.behind) v.text ms :=
    fun h => h.mono fun _ hrest => hrest.mono v.behind_subset
  cases h with
  | @digits n hn ht hr =>
      have hdigits : v.isDigits = true := by
        rw [isDigits, ht]
        exact List.all_eq_true.mpr (Text.isDigits_ofNat n)
      rw [behind, if_pos hdigits, ht, hr]
      exact shows_ofNat hn
  | numeral n ht hr =>
      refine hattached ?_
      rw [ht, hr]
      exact shows_numeral n
  | infinite ht hr =>
      refine hattached ?_
      rw [ht, hr]
      exact shows_name isName_inf
  | string t hv =>
      subst hv
      exact hattached (shows_quote (.string _))
  | word hname hv ht hr =>
      refine hattached ?_
      rw [ht, hr, Expr.terminals, hv]
      exact shows_name hname

theorem Literal.Form.closed (h : v.Form) : Shows Closed v.text v.reread.terminals :=
  h.shows.mono fun _ hrest => hrest.mono v.closers_subset

theorem Literal.Form.fits (h : v.Form) (depth : Nat) (awaits : Bool) :
    v.reread.Fits (depth + 1) .primary awaits := by
  cases h with
  | digits hn _ hr => exact hr ▸ .constant ⟨_, .number (number_ofNat hn)⟩
  | numeral n _ hr => exact hr ▸ .constant ⟨_, .number (number_numeral n)⟩
  | infinite _ hr => exact hr ▸ .symbol (by decide) (by decide)
  | string t hv => exact hv ▸ .constant ⟨_, .string _⟩
  | @word name _ hv _ hr => exact hr ▸ .constant ⟨.name name, hv ▸ .name name⟩

end MetricBridge.Formula
