import MetricBridge.Proofs.Formula.Guarded

namespace MetricBridge

namespace Text

variable {t : Text} {digits : List Nat}

theorem digitValues?_eq_some (h : digitValues? t = some digits) :
    (∀ c ∈ t, c.isDecimal = true) ∧ digits.length = t.length := by
  induction t generalizing digits with
  | nil =>
      cases h
      exact ⟨nofun, rfl⟩
  | cons c t ih =>
      unfold digitValues? at h
      rw [List.mapM_cons] at h
      obtain ⟨d, hd, h⟩ := Option.bind_eq_some_iff.mp h
      obtain ⟨ds, hds, h⟩ := Option.bind_eq_some_iff.mp h
      obtain ⟨hdecimal, hlength⟩ := ih hds
      cases h
      have hc : c.isDecimal = true := Option.isSome_iff_exists.mpr ⟨d, hd⟩
      exact ⟨List.forall_mem_cons.mpr ⟨hc, hdecimal⟩, congrArg Nat.succ hlength⟩

theorem exists_digitValues? (h : ∀ c ∈ t, c.isDecimal = true) :
    ∃ digits, digitValues? t = some digits := by
  induction t with
  | nil => exact ⟨[], rfl⟩
  | cons c t ih =>
      obtain ⟨hc, ht⟩ := List.forall_mem_cons.mp h
      obtain ⟨d, hd⟩ := Option.isSome_iff_exists.mp hc
      obtain ⟨ds, hds⟩ := ih ht
      unfold digitValues? at hds ⊢
      exact ⟨d :: ds, by rw [List.mapM_cons, hd, hds]; rfl⟩

theorem natOfDigits_eq_error :
    (∃ fault, natOfDigits digits = .error fault) ↔ integerDigitLimit < digits.length := by
  unfold natOfDigits
  split
  · rename_i hlong
    exact ⟨fun _ => hlong, fun _ => ⟨_, rfl⟩⟩
  · rename_i hshort
    exact ⟨nofun, fun hlong => absurd hlong hshort⟩

end Text

namespace Formula

def Lexeme.IsOverlong (l : Lexeme) : Prop :=
  ∃ literal, l = .number literal ∧ (∀ c ∈ literal, c.isDecimal = true) ∧
    integerDigitLimit < literal.length

inductive Accounts {α : Type} (ts : List Token) (left : α → List Token) : Except Failure α → Prop
  | read (a) (h : left a ⊆ ts) : Accounts ts left (.ok a)
  | overlong (h : ∃ u ∈ ts, u.lexeme.IsOverlong) : Accounts ts left (.error .integerTooLong)
  | reported (e) : Accounts ts left (.error (.syntaxError e))
  | tooDeep : Accounts ts left (.error .tooDeep)

variable {s : Surroundings} {ts us : List Token}

theorem settle_subset (s : Surroundings) (h : us ⊆ ts) : settle s us ⊆ ts := by
  unfold settle
  split
  · exact List.Subset.trans (List.dropWhile_suffix _).subset h
  · exact h

theorem passed_subset (h : us ⊆ ts) : passed us ⊆ ts := by
  unfold passed
  split
  · exact h
  · split
    · exact h
    · exact (List.cons_subset.mp h).2

theorem front_mem (h : (front us).lexeme ≠ .finish) (hus : us ⊆ ts) : front us ∈ ts := by
  cases us with
  | nil => exact absurd rfl h
  | cons t us => exact hus List.mem_cons_self

theorem Rule.number_eq_error {literal : Text} {e : Failure} : Rule.number literal = .error e ↔
    e = .integerTooLong ∧ (Lexeme.number literal).IsOverlong := by
  unfold Rule.number
  constructor
  · intro h
    split at h
    · rename_i digits hdigits
      obtain ⟨hdecimal, hlength⟩ := Text.digitValues?_eq_some hdigits
      split at h
      · cases h
      · rename_i hlong
        cases h
        exact ⟨rfl, literal, rfl, hdecimal, hlength ▸ Text.natOfDigits_eq_error.mp ⟨_, hlong⟩⟩
    · cases h
  · rintro ⟨rfl, _, ⟨⟩, hdecimal, hlong⟩
    obtain ⟨digits, hdigits⟩ := Text.exists_digitValues? hdecimal
    obtain ⟨fault, hfault⟩ :=
      Text.natOfDigits_eq_error.mpr ((Text.digitValues?_eq_some hdigits).2 ▸ hlong)
    rw [hdigits]
    dsimp only
    rw [hfault]

/-- An integer that is too long is one of the tokens, and no isolated digit is met among tokens. -/
theorem guards_subset (ts : List Token) : Guards (· ⊆ ts) fun e =>
    e ≠ .isolatedDigit ∧ (e = .integerTooLong → ∃ u ∈ ts, u.lexeme.IsOverlong) where
  settle := settle_subset _
  passed := passed_subset
  fault := fun _ _ => ⟨nofun, nofun⟩
  number := by
    intro us literal e hus hlexeme he
    obtain ⟨rfl, hlong⟩ := Rule.number_eq_error.mp he
    have hmem := front_mem (by rw [hlexeme]; nofun) hus
    exact ⟨nofun, fun _ => ⟨_, hmem, hlexeme ▸ hlong⟩⟩
  tooDeep := ⟨nofun, nofun⟩

/-- What stops the parser is reported, except for integers that are too long. -/
theorem parseTokens_accounts (depth : Nat) (ts : List Token) :
    Accounts ts (fun _ => []) (parseTokens depth ts) := by
  cases hparse : parseTokens depth ts with
  | ok e => exact .read e (List.nil_subset _)
  | error e =>
      obtain ⟨hdigit, hlong⟩ := (guards_subset ts).parseTokens (List.Subset.refl ts) hparse
      cases e with
      | syntaxError e => exact .reported e
      | isolatedDigit => exact absurd rfl hdigit
      | integerTooLong => exact .overlong (hlong rfl)
      | tooDeep => exact .tooDeep

end Formula
end MetricBridge
