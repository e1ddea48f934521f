import MetricBridge.Problem.Faults
import MetricBridge.Proofs.Formula.Guarded
import MetricBridge.Proofs.Formula.Slices

namespace MetricBridge.Formula

variable {formula t : Text} {c quote : CodePoint} {ts us : List Token} {k : Token}
  {depths : Depths}
  {e : SyntaxError} {fuel start position : Nat}

structure Ending (ts us : List Token) : Prop where
  subset : us ⊆ ts
  finish : ∃ u ∈ us, u.lexeme = .finish

namespace Ending

theorem front_mem (h : Ending ts us) : front us ∈ ts := by
  obtain ⟨u, hu, -⟩ := h.finish
  cases us with
  | nil => cases hu
  | cons v us => exact h.subset List.mem_cons_self

theorem settle (s : Surroundings) (h : Ending ts us) : Ending ts (settle s us) := by
  unfold Formula.settle
  split
  · refine ⟨List.Subset.trans (List.dropWhile_suffix _).subset h.subset, ?_⟩
    obtain ⟨u, hu, hfinish⟩ := h.finish
    refine ⟨u, ?_, hfinish⟩
    -- only line feeds are dropped
    rw [← List.takeWhile_append_dropWhile (p := fun t : Token => t.lexeme = .newline) (l := us),
      List.mem_append] at hu
    refine hu.resolve_left fun hfeed => ?_
    have hnewline := of_decide_eq_true (List.all_eq_true.mp List.all_takeWhile u hfeed)
    rw [hfinish] at hnewline
    cases hnewline
  · exact h

theorem passed (h : Ending ts us) : Ending ts (passed us) := by
  unfold Formula.passed
  split
  · exact h
  · rename_i u us
    split
    · exact h
    · rename_i hu
      obtain ⟨v, hv, hfinish⟩ := h.finish
      refine ⟨fun w hw => h.subset (List.mem_cons_of_mem u hw), v, ?_, hfinish⟩
      rcases List.mem_cons.mp hv with rfl | hv
      · exact absurd hfinish hu
      · exact hv

end Ending

/-- What is reported shows at one of the tokens. -/
theorem guards_ending (ts : List Token) : Guards (Ending ts) fun failure =>
    ∀ e, failure = .syntaxError e → ∃ k ∈ ts, k.position = e.position where
  settle := .settle _
  passed := .passed
  fault := by
    rintro us fault h e ⟨⟩
    exact ⟨front us, h.front_mem, rfl⟩
  number := by
    rintro us literal failure - - hnumber e rfl
    unfold Rule.number at hnumber
    split at hnumber
    · split at hnumber <;> cases hnumber
    · cases hnumber
  tooDeep := nofun

theorem parseTokens_points {depth : Nat} (hts : ∃ u ∈ ts, u.lexeme = .finish)
    (h : parseTokens depth ts = .error (.syntaxError e)) : ∃ k ∈ ts, k.position = e.position :=
  (guards_ending ts).parseTokens ⟨List.Subset.refl ts, hts⟩ h e rfl

theorem scanString_points (h : scanString quote start fuel position t = .error e) :
    e.position = start ∨ position ≤ e.position ∧ e.position < position + t.length := by
  induction fuel generalizing position t with
  | zero =>
      cases h
      exact .inl rfl
  | succ fuel ih =>
      unfold scanString at h
      split at h
      · cases h
        exact .inl rfl
      · rename_i c u
        have hmore : ∀ {n : Nat} {v : Text}, n + v.length = (c :: u).length →
            scanString quote start fuel (position + n) v = .error e →
            e.position = start ∨ position ≤ e.position ∧ e.position < position + (c :: u).length := by
          intro n v hlength hv
          refine (ih hv).imp id fun hplace => ?_
          omega
        split_ifs at h
        · split at h
          · cases h
            exact .inl rfl
          · split_ifs at h
            · split at h
              · cases h
                exact .inr ⟨Nat.le_refl _, by simp⟩
              · rename_i hdigits
                obtain ⟨p, q, r, s, rfl, -⟩ := hexUnit?_eq_some hdigits
                split at h
                · cases h
                · rename_i hread
                  cases h
                  exact hmore (by simp only [List.length_cons]; omega) hread
            · split at h
              · cases h
                exact .inr ⟨Nat.le_refl _, by simp⟩
              · split at h
                · cases h
                · rename_i hread
                  cases h
                  exact hmore (by simp only [List.length_cons]; omega) hread
        · split at h
          · cases h
          · rename_i hread
            cases h
            exact hmore (by simp only [List.length_cons]; omega) hread

theorem scanLexeme_points (h : scanLexeme position (c :: t) = .error (.syntaxError e)) :
    position ≤ e.position ∧ e.position < position + (c :: t).length := by
  unfold scanLexeme at h
  dsimp only at h
  split_ifs at h
  · split at h
    · cases h
    · rename_i hread
      cases h
      have hplace := scanString_points hread
      simp only [List.length_cons]
      omega
  · cases h
  · split at h
    · cases h
    · cases h
      exact ⟨Nat.le_refl _, by simp⟩

theorem scanFrom_points (h : scanFrom fuel position t = .error (.syntaxError e)) :
    position ≤ e.position ∧ e.position < position + t.length := by
  induction fuel generalizing position t with
  | zero => cases h
  | succ fuel ih =>
      unfold scanFrom at h
      split at h
      · cases h
      · rename_i c t
        split_ifs at h
        · have hplace := ih (map_eq_error h)
          simp only [List.length_cons]
          omega
        · have hplace := ih h
          simp only [List.length_cons]
          omega
        · split at h
          · rename_i hl
            cases h
            exact scanLexeme_points hl
          · rename_i hl
            have hplace := ih (map_eq_error h)
            have hlength := scanLexeme_length hl
            simp only [List.length_cons] at hplace ⊢
            omega

theorem position_le_of_mem (hts : tokenize t = .ok ts) (hk : k ∈ ts) : k.position ≤ t.length := by
  obtain ⟨slices, rfl, hslices⟩ := exists_slices hts
  obtain ⟨s, hs, rfl⟩ := List.mem_map.mp hk
  have hisIn := hslices.isIn s hs
  exact hisIn.ordered.trans hisIn.within

theorem parse_place (h : parse depths formula = .error (.syntaxError e)) : e.position ≤ formula.length ∧
    ∀ ts, tokenize formula = .ok ts → ∃ k ∈ ts, k.position = e.position := by
  unfold parse at h
  split at h
  · rename_i hscan
    cases h
    have hplace := scanFrom_points hscan
    refine ⟨by omega, fun ts hts => ?_⟩
    rw [hscan] at hts
    cases hts
  · rename_i ts hts
    obtain ⟨body, p, rfl, -⟩ := scanFrom_ends hts
    obtain ⟨k, hk, hplace⟩ := parseTokens_points
      ⟨⟨.finish, p⟩, List.mem_append_right _ List.mem_cons_self, rfl⟩ h
    refine ⟨hplace ▸ position_le_of_mem hts hk, fun ts hts' => ?_⟩
    cases hts.symm.trans hts'
    exact ⟨k, hk, hplace⟩

/-- The problem of a malformed formula names the formula and a place in it: the beginning of one of its
tokens, if it is split into tokens. The message ends with the place. The translator, unless the formula is
blank, reports the same place, and its message quotes the formula and the message of the parser. -/
theorem parse_points {failure : Failure} {problem : Problem} (h : parse depths formula = .error failure)
    (hproblem : failure.problem? formula = some problem) :
    problem.kind = .malformedFormula ∧ problem.field "formula" = .string formula ∧
      ∃ (position : Nat) (message : Text), problem.field "position" = .int position ∧
        problem.field "message" = .string message ∧ position ≤ formula.length ∧
        lit " (char " ++ Text.ofNat (position + 1) ++ lit ")" <:+ message ∧
        (∀ ts, tokenize formula = .ok ts → ∃ k ∈ ts, k.position = position) ∧
        (formula.trim.isEmpty = false → ∃ fault reported, translate depths formula = .error fault ∧
          fault.problem? formula = some reported ∧ reported.kind = .malformedFormula ∧
          reported.field "formula" = .string formula ∧ reported.field "position" = .int position ∧
          reported.field "message" =
            .string (lit "Failed to parse formula" ++ lit " \"" ++ formula ++ lit "\": " ++ message)) := by
  cases failure with
  | syntaxError e =>
      cases hproblem
      obtain ⟨hlength, htokens⟩ := parse_place h
      refine ⟨rfl, rfl, e.position, e.message, rfl, rfl, hlength, ?_, htokens, fun hblank => ?_⟩
      · exact ⟨e.fault.text, by simp only [SyntaxError.message, List.append_assoc]⟩
      · refine ⟨.unparsed (.syntaxError e), _, ?_, rfl, rfl, rfl, rfl, rfl⟩
        rw [translate, hblank, h]
        rfl
  | _ => cases hproblem

/-- The equals sign behind a target that cannot be assigned to, with a line feed before it. -/
theorem parse_points_target :
    let formula := lit "($a\n+ 1) = 2"
    ∃ failure problem, parse .least formula = .error failure ∧ failure.problem? formula = some problem ∧
      problem.field "position" = .int 9 ∧ (∃ ts, tokenize formula = .ok ts ∧ ∃ k ∈ ts, k.position = 9) ∧
      ∃ fault reported, translate .least formula = .error fault ∧ fault.problem? formula = some reported ∧
        reported.kind = .malformedFormula ∧ reported.field "position" = .int 9 := by
  intro formula
  have hparse : parse .least formula = .error (.syntaxError ⟨.invalidTarget, 9⟩) := by
    have hfault : (match parse .least formula with
        | .ok _ => none
        | .error failure => some failure) = some (.syntaxError ⟨.invalidTarget, 9⟩) := by
      decide +kernel
    cases hresult : parse .least formula with
    | ok tree =>
        rw [hresult] at hfault
        cases hfault
    | error failure =>
        rw [hresult] at hfault
        rw [Option.some.inj hfault]
  obtain ⟨-, -, position, message, hposition, -, -, -, htokens, htranslate⟩ :=
    parse_points hparse rfl
  obtain rfl : position = 9 := by cases hposition; rfl
  have hok : (tokenize formula).isOk = true := by decide +kernel
  obtain ⟨ts, hts⟩ := exists_eq_ok hok
  obtain ⟨fault, reported, hfault, hreported, hkind, -, hplace, -⟩ := htranslate (by decide)
  exact ⟨_, _, hparse, rfl, rfl, ⟨ts, hts, htokens ts hts⟩, fault, reported, hfault, hreported,
    hkind, hplace⟩

end MetricBridge.Formula
