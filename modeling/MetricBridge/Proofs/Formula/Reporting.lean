import MetricBridge.Proofs.Formula.Isolated
import MetricBridge.Proofs.Formula.Overlong
import MetricBridge.Proofs.Formula.Translating

namespace MetricBridge.Formula

variable {formula t rest : Text} {fuel position : Nat} {e : Failure} {tree : Expr}
  {depths : Depths}

def CalculatedFieldFault.IsReported (formula : Text) (fault : CalculatedFieldFault) : Prop :=
  ∃ problem, fault.problem? formula = some problem ∧
    problem.kind ∈ [ProblemKind.malformedFormula, .unsupportedFormula] ∧
    problem.field "formula" = .string formula

theorem unparsed_isReported : (CalculatedFieldFault.unparsed e).IsReported formula ↔
    e ≠ .isolatedDigit ∧ e ≠ .integerTooLong := by
  constructor
  · rintro ⟨problem, hproblem, -⟩
    constructor <;> rintro rfl <;> cases hproblem
  · rintro ⟨hdigit, hlong⟩
    cases e with
    | syntaxError e => exact ⟨_, rfl, List.mem_cons_self, rfl⟩
    | tooDeep => exact ⟨_, rfl, List.mem_cons_self, rfl⟩
    | isolatedDigit => exact absurd rfl hdigit
    | integerTooLong => exact absurd rfl hlong

theorem unemitted_isReported {fault : EmitFault} (h : parse depths formula = .ok tree)
    (hemit : tree.emit depths.nodes = .error fault) :
    (CalculatedFieldFault.unemitted fault).IsReported formula := by
  obtain ⟨body, p, -, hwrites⟩ := parse_reads h
  have hends := hwrites.isFormula.regular.ends depths.nodes
  rw [hemit] at hends
  cases hends with
  | tooDeep => exact ⟨_, rfl, List.mem_cons_of_mem _ List.mem_cons_self, rfl⟩
  | refused => exact ⟨_, rfl, List.mem_cons_of_mem _ List.mem_cons_self, rfl⟩

theorem scanLexeme_ne_integerTooLong : scanLexeme position t ≠ .error .integerTooLong := by
  intro h
  unfold scanLexeme at h
  split at h
  · cases h
  · dsimp only at h
    split_ifs at h
    · split at h <;> cases h
    · cases h
    · split at h <;> cases h

theorem scanFrom_ne_integerTooLong : scanFrom fuel position t ≠ .error .integerTooLong := by
  induction fuel generalizing position t with
  | zero => nofun
  | succ fuel ih =>
      unfold scanFrom
      split
      · nofun
      · split_ifs
        · exact fun h => ih (map_eq_error h)
        · exact ih
        · split
          · rename_i hl
            rintro ⟨⟩
            exact scanLexeme_ne_integerTooLong hl
          · exact fun h => ih (map_eq_error h)

theorem parse_eq_integerTooLong (h : parse depths formula = .error .integerTooLong) :
    ∃ ts, tokenize formula = .ok ts ∧ ∃ u ∈ ts, u.lexeme.IsOverlong := by
  unfold parse at h
  split at h
  · rename_i hscan
    cases h
    exact absurd hscan scanFrom_ne_integerTooLong
  · rename_i ts hts
    have haccounts := parseTokens_accounts depths.rules ts
    rw [h] at haccounts
    cases haccounts with
    | overlong hmem => exact ⟨ts, hts, hmem⟩

theorem forall_not_isOverlong {ts : List Token} (h : parse depths formula = .ok tree)
    (hts : tokenize formula = .ok ts) : ∀ u ∈ ts, ¬ u.lexeme.IsOverlong := by
  rintro u hu ⟨literal, hnumber, hlong⟩
  obtain ⟨⟨ts', hts', hdenotes⟩, -⟩ := parse_sound h
  cases hts.symm.trans hts'
  have hcontent : u.lexeme ∈ (ts.map Token.lexeme).filter Lexeme.isContent :=
    List.mem_filter.mpr ⟨List.mem_map_of_mem hu, by rw [hnumber]; rfl⟩
  have hall : ∀ l ∈ (ts.map Token.lexeme).filter Lexeme.isContent, ∃ m, l.Denotes m :=
    ((List.forall₂_and_left _ _).mp (hdenotes.imp fun _ _ hm => ⟨⟨_, hm⟩, hm⟩)).1
  obtain ⟨m, hm⟩ := hall _ hcontent
  rw [hnumber] at hm
  cases hm with
  | number hvalue =>
      rw [Rule.number_eq_error.mpr ⟨rfl, literal, rfl, hlong⟩] at hvalue
      cases hvalue
  | operator hop => cases hop

theorem parse_eq_isolatedDigit : parse depths formula = .error .isolatedDigit ↔
    ∃ rest, Comes formula rest ∧ StartsIsolated rest := by
  rw [← tokenize_isolated]
  unfold parse
  split
  · rename_i hscan
    rw [hscan]
    exact ⟨fun h => by cases h; rfl, fun h => by cases h; rfl⟩
  · rename_i ts hts
    have haccounts := parseTokens_accounts depths.rules ts
    rw [hts]
    refine ⟨fun h => ?_, nofun⟩
    rw [h] at haccounts
    cases haccounts

theorem Comes.forall_blank (h : Comes t rest) (ht : ∀ c ∈ t, c.isBlank = true) :
    ∀ c ∈ rest, c.isBlank = true := by
  induction h with
  | stop => exact ht
  | blank _ _ ih => exact ih (List.forall_mem_cons.mp ht).2
  | lexeme hc =>
      rw [(List.forall_mem_cons.mp ht).1] at hc
      cases hc

theorem parse_blank (h : formula.trim.isEmpty = true) :
    parse depths formula ≠ .error .isolatedDigit ∧ parse depths formula ≠ .error .integerTooLong := by
  have hblank := blank_of_trim h
  constructor
  · intro hparse
    obtain ⟨rest, hcomes, hrest⟩ := parse_eq_isolatedDigit.mp hparse
    obtain ⟨c, u, rfl, hc⟩ := hrest.exists_cons
    rw [hcomes.forall_blank hblank c List.mem_cons_self] at hc
    cases hc
  · intro hparse
    obtain ⟨ts, hts, u, hu, literal, hnumber, -⟩ := parse_eq_integerTooLong hparse
    have hcontent := scanFrom_blank hblank hts u hu
    rw [hnumber] at hcontent
    cases hcontent

theorem translate_isReported :
    ((∃ field, translate depths formula = .ok field) ∨
        ∃ fault, translate depths formula = .error fault ∧ fault.IsReported formula) ↔
      parse depths formula ≠ .error .isolatedDigit ∧ parse depths formula ≠ .error .integerTooLong := by
  cases hblank : formula.trim.isEmpty with
  | true =>
      refine ⟨fun _ => parse_blank hblank, fun _ => .inl ⟨⟨none, []⟩, ?_⟩⟩
      rw [translate, if_pos hblank]
  | false =>
      cases hparse : parse depths formula with
      | error e =>
          have htranslate : translate depths formula = .error (.unparsed e) := by
            rw [translate, hblank, hparse]
            rfl
          have hfault : ((∃ field, translate depths formula = .ok field) ∨
              ∃ fault, translate depths formula = .error fault ∧ fault.IsReported formula) ↔
              (CalculatedFieldFault.unparsed e).IsReported formula := by
            rw [htranslate]
            simp
          rw [hfault, unparsed_isReported]
          simp
      | ok tree =>
          rw [translate_of_parse hparse]
          refine ⟨fun _ => ⟨nofun, nofun⟩, fun _ => ?_⟩
          cases hemit : tree.emit depths.nodes with
          | error fault => exact .inr ⟨_, rfl, unemitted_isReported hparse hemit⟩
          | ok text => exact .inl ⟨_, rfl⟩

/-- A text ends in a calculated field or in a problem that names it, unless the scanner comes to an
isolated digit or the parser to an integer that is too long. Where such an integer stands, there is
no calculated field. -/
theorem translate_reports (formula : Text) :
    (((∃ field, translate depths formula = .ok field) ∨
        ∃ fault, translate depths formula = .error fault ∧ fault.IsReported formula) ↔
      (∀ rest, Comes formula rest → ¬ StartsIsolated rest) ∧
        parse depths formula ≠ .error .integerTooLong) ∧
    (parse depths formula = .error .integerTooLong →
      ∃ ts, tokenize formula = .ok ts ∧ ∃ u ∈ ts, u.lexeme.IsOverlong) ∧
    ∀ ts, tokenize formula = .ok ts → (∃ u ∈ ts, u.lexeme.IsOverlong) →
      ∀ tree, parse depths formula ≠ .ok tree := by
  have hnone : (∀ rest, Comes formula rest → ¬ StartsIsolated rest) ↔
      parse depths formula ≠ .error .isolatedDigit := by
    rw [ne_eq, parse_eq_isolatedDigit, not_exists]
    exact forall_congr' fun rest => (not_and).symm
  refine ⟨translate_isReported.trans (and_congr_left' hnone).symm, parse_eq_integerTooLong, ?_⟩
  rintro ts hts ⟨u, hu, hlong⟩ tree htree
  exact forall_not_isOverlong htree hts u hu hlong

example : translate .least "1 + ²" = .error (.unparsed .isolatedDigit) := by decide +kernel

end MetricBridge.Formula
