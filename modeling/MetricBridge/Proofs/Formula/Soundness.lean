import MetricBridge.Proofs.Formula.Scanning
import MetricBridge.Proofs.Formula.Statements

namespace MetricBridge.Formula

variable {t : Text} {e : Expr} {depths : Depths}

theorem parse_reads (h : parse depths t = .ok e) :
    ∃ body p, tokenize t = .ok (body ++ [⟨.finish, p⟩]) ∧ Writes depths.rules body e := by
  unfold parse at h
  split at h
  · cases h
  · rename_i ts hts
    obtain ⟨body, p, rfl, hbody⟩ := scanFrom_ends hts
    exact ⟨body, p, hts, parseTokens_reads hbody h⟩

/-- Of the tokens of a text none is lost, doubled or moved: those with content stand one by one for
the symbols of the tree, and the tree respects the levels of the grammar. -/
theorem parse_sound (h : parse depths t = .ok e) :
    (∃ ts, tokenize t = .ok ts ∧ List.Forall₂ Lexeme.Denotes
      ((ts.map Token.lexeme).filter Lexeme.isContent) e.content) ∧ e.IsFormula depths.rules := by
  obtain ⟨body, p, hts, hwrites⟩ := parse_reads h
  refine ⟨⟨_, hts, ?_⟩, hwrites.isFormula⟩
  simpa [Lexeme.isContent] using hwrites.content

/-- A formula with a block, an assignment, a conditional with a range in its branch, accessors, a
call, a chain of comparisons, signs, powers, factorials and words. -/
theorem parse_sound_mixed :
    ∃ e, parse .least "x = a[1, -2 ^ 3!].b ? (1:2:3 to c) <= d < e : \x7bk: not f(g)\x7d; x mod 2.5" = .ok e ∧
      (∃ ts, tokenize "x = a[1, -2 ^ 3!].b ? (1:2:3 to c) <= d < e : \x7bk: not f(g)\x7d; x mod 2.5" =
          .ok ts ∧
        List.Forall₂ Lexeme.Denotes ((ts.map Token.lexeme).filter Lexeme.isContent) e.content) ∧
      e.IsFormula Depths.least.rules := by
  have hok : (parse .least
      "x = a[1, -2 ^ 3!].b ? (1:2:3 to c) <= d < e : \x7bk: not f(g)\x7d; x mod 2.5").isOk = true := by
    decide +kernel
  obtain ⟨e, he⟩ := exists_eq_ok hok
  exact ⟨e, he, parse_sound he⟩

end MetricBridge.Formula
