import MetricBridge.Proofs.Formula.Completeness
import MetricBridge.Proofs.Formula.Soundness
import MetricBridge.Proofs.Formula.Splitting

namespace MetricBridge.Formula

/-- The brackets that are open after the lexeme, the innermost first. A closing bracket closes the
innermost one, if that is its partner. -/
def Lexeme.leftOpen (outer : List Delimiter) : Lexeme → List Delimiter
  | delimiter d =>
    if d.opens then d :: outer
    else match d.opening?, outer with
      | some b, c :: inner => if b = c then inner else c :: inner
      | _, outer => outer
  | _ => outer

def openBrackets (ls : List Lexeme) : List Delimiter := ls.foldl Lexeme.leftOpen []

variable {depth n : Nat} {us vs ts ts' : List Token} {t : Token} {ms : List Terminal} {e : Expr}
  {depths : Depths}
  {es : List Expr} {free seen : Bool} {outer inner : List Delimiter} {l : Lexeme} {m : Terminal}

theorem Lexeme.Denotes.leftOpen_eq (h : l.Denotes m) (hm : m.IsGrammatical)
    (hb : m.brackets? outer = some inner) : l.leftOpen outer = inner := by
  cases h with
  | mark d =>
      unfold Lexeme.leftOpen
      unfold Terminal.brackets? at hb
      dsimp only at hb ⊢
      split_ifs at hb ⊢ with hopens
      · exact Option.some.inj hb
      · cases hd : d.opening? with
        | none =>
            rw [hd] at hb
            exact Option.some.inj hb
        | some b =>
            rw [hd] at hb
            cases outer with
            | nil => cases hb
            | cons c outer =>
                obtain ⟨heq, ⟨⟩⟩ := Option.ite_none_right_eq_some.mp hb
                exact if_pos heq
  | @operator l op hop =>
      cases hb
      cases l with
      | delimiter d =>
          cases hm with
          | operator hmem =>
              have hall : ∀ d ∈ Delimiter.all, d.spelling ∈ operators →
                  d.opens = false ∧ d.opening? = none := by
                decide
              cases hop
              obtain ⟨hopens, hopening⟩ := hall d (by cases d <;> decide) hmem
              simp [Lexeme.leftOpen, hopens, hopening]
      | _ => rfl
  | _ => exact Option.some.inj hb

namespace Spells

theorem leftOpen_eq (h : Spells n ts ms) (hms : ∀ m ∈ ms, m.IsGrammatical)
    (hb : brackets? ms outer = some inner) :
    (ts.map Token.lexeme).foldl Lexeme.leftOpen outer = inner := by
  induction h generalizing outer with
  | nil => exact Option.some.inj hb
  | feed _ ht _ ih =>
      rw [List.map_cons, List.foldl_cons, ht]
      exact ih hms hb
  | cons ht _ ih =>
      obtain ⟨hm, hms⟩ := List.forall_mem_cons.mp hms
      obtain ⟨between, hbetween, hb⟩ := Option.bind_eq_some_iff.mp hb
      rw [List.map_cons, List.foldl_cons, ht.leftOpen_eq hm hbetween]
      exact ih hms hb

theorem congr (h : Spells n ts ms) (hts : ts'.map Token.lexeme = ts.map Token.lexeme) :
    Spells n ts' ms := by
  induction h generalizing ts' with
  | nil =>
      rw [List.map_eq_nil_iff.mp hts]
      exact .nil _
  | feed hn ht _ ih =>
      obtain ⟨t', ts', rfl, ht', hts'⟩ := List.map_eq_cons_iff.mp hts
      exact .feed hn (ht'.trans ht) (ih hts')
  | cons ht _ ih =>
      obtain ⟨t', ts', rfl, ht', hts'⟩ := List.map_eq_cons_iff.mp hts
      exact .cons (ht' ▸ ht) (ih hts')

/-- Where a bracket is open, more symbols are to come, and a line feed may stand before them. -/
theorem insert (h : Spells n (us ++ vs) ms) (ht : t.lexeme = .newline)
    (hms : ∀ m ∈ ms, m.IsGrammatical) (hb : brackets? ms outer = some [])
    (hn : outer.length = n)
    (hopen : (us.map Token.lexeme).foldl Lexeme.leftOpen outer ≠ []) :
    Spells n (us ++ t :: vs) ms := by
  induction us generalizing n ms outer with
  | nil =>
      cases ms with
      | nil => exact absurd (Option.some.inj hb) hopen
      | cons m ms => exact .feed (hn ▸ List.length_pos_iff.mpr hopen) ht h
  | cons u us ih =>
      cases h with
      | feed hpos hu h =>
          refine .feed hpos hu (ih h hms hb hn ?_)
          rwa [List.map_cons, List.foldl_cons, hu] at hopen
      | cons hu h =>
          obtain ⟨hm, hms⟩ := List.forall_mem_cons.mp hms
          obtain ⟨between, hbetween, hb⟩ := Option.bind_eq_some_iff.mp hb
          rw [List.map_cons, List.foldl_cons, hu.leftOpen_eq hm hbetween] at hopen
          refine .cons hu (ih h hms hb ?_ hopen)
          rw [← hn, Terminal.opened_brackets hbetween]

/-- A line feed among the tokens of symbols counts for nothing. -/
theorem remove (h : Spells n (us ++ t :: vs) ms) (ht : t.lexeme = .newline) :
    Spells n (us ++ vs) ms := by
  induction us generalizing n ms with
  | nil =>
      cases h with
      | feed _ _ h => exact h
      | cons hdenotes => exact absurd ht hdenotes.ne_newline
  | cons u us ih =>
      cases h with
      | feed hn hu h => exact .feed hn hu (ih h)
      | cons hu h => exact .cons hu (ih h)

end Spells

theorem Expr.Fits.leftOpen_eq {level : Level} {awaits : Bool} (he : e.Fits depth level awaits)
    (h : Spells n ts e.terminals) (outer : List Delimiter) :
    (ts.map Token.lexeme).foldl Lexeme.leftOpen outer = outer :=
  h.leftOpen_eq he.grammatical (nested_terminals e outer)

namespace Sequence

theorem congr (h : Sequence free ts es seen) (hts : ts'.map Token.lexeme = ts.map Token.lexeme) :
    Sequence free ts' es seen := by
  induction h generalizing ts' with
  | done =>
      rw [List.map_eq_nil_iff.mp hts]
      exact .done _
  | separator ht _ ih =>
      obtain ⟨t', ts', rfl, ht', hts'⟩ := List.map_eq_cons_iff.mp hts
      exact .separator (ht' ▸ ht) (ih hts')
  | statement hu _ ih =>
      rw [List.map_append] at hts
      obtain ⟨us', ts', rfl, hus', hts'⟩ := List.map_eq_append_iff.mp hts
      exact .statement (hu.congr hus') (ih hts')

theorem leftOpen_separator (ht : t.lexeme.separates = true) : t.lexeme.leftOpen [] = [] := by
  unfold Lexeme.separates at ht
  split at ht
  · rename_i hl
    rw [hl]
    rfl
  · rename_i hl
    rw [hl]
    rfl
  · cases ht

theorem openBrackets_append (he : e.Fits depth .assignment false) (h : Spells 0 us e.terminals) :
    openBrackets ((us ++ vs).map Token.lexeme) = openBrackets (vs.map Token.lexeme) := by
  rw [openBrackets, List.map_append, List.foldl_append, he.leftOpen_eq h]
  rfl

theorem insert (h : Sequence free (us ++ vs) es seen) (ht : t.lexeme = .newline)
    (hes : ∀ e ∈ es, e.Fits depth .assignment false)
    (hopen : openBrackets (us.map Token.lexeme) ≠ []) :
    Sequence free (us ++ t :: vs) es seen := by
  generalize hall : us ++ vs = ts at h
  induction h generalizing us with
  | done =>
      obtain ⟨rfl, rfl⟩ := List.append_eq_nil_iff.mp hall
      exact absurd rfl hopen
  | separator hs _ ih =>
      cases us with
      | nil => exact absurd rfl hopen
      | cons u us =>
          obtain ⟨rfl, rfl⟩ := List.cons.inj hall
          rw [openBrackets, List.map_cons, List.foldl_cons, leftOpen_separator hs] at hopen
          exact .separator hs (ih hes hopen rfl)
  | statement hw h ih =>
      obtain ⟨he, hes⟩ := List.forall_mem_cons.mp hes
      rcases List.append_eq_append_iff.mp hall with ⟨more, rfl, rfl⟩ | ⟨more, rfl, rfl⟩
      · rw [← List.cons_append, ← List.append_assoc]
        exact .statement (hw.insert ht he.grammatical (nested_terminals _ []) rfl hopen) h
      · rw [openBrackets_append he hw] at hopen
        rw [List.append_assoc]
        exact .statement hw (ih hes hopen rfl)

theorem remove (h : Sequence free (us ++ t :: vs) es seen) (ht : t.lexeme = .newline)
    (hes : ∀ e ∈ es, e.Fits depth .assignment false)
    (hopen : openBrackets (us.map Token.lexeme) ≠ []) : Sequence free (us ++ vs) es seen := by
  generalize hall : us ++ t :: vs = ts at h
  induction h generalizing us with
  | done => exact absurd hall (by simp)
  | separator hs _ ih =>
      cases us with
      | nil => exact absurd rfl hopen
      | cons u us =>
          obtain ⟨rfl, rfl⟩ := List.cons.inj hall
          rw [openBrackets, List.map_cons, List.foldl_cons, leftOpen_separator hs] at hopen
          exact .separator hs (ih hes hopen rfl)
  | statement hw h ih =>
      obtain ⟨he, hes⟩ := List.forall_mem_cons.mp hes
      rcases List.append_eq_append_iff.mp hall with ⟨more, rfl, hmore⟩ | ⟨more, rfl, rfl⟩
      · cases more with
        | nil =>
            rw [List.append_nil] at hw
            exact absurd (he.leftOpen_eq hw []) hopen
        | cons u more =>
            obtain ⟨rfl, rfl⟩ := List.cons.inj hmore
            have hsequence := Sequence.statement (hw.remove ht) h
            rwa [List.append_assoc] at hsequence
      · rw [openBrackets_append he hw] at hopen
        rw [List.append_assoc]
        exact .statement hw (ih hes hopen rfl)

end Sequence

namespace Writes

theorem congr (h : Writes depth ts e) (hts : ts'.map Token.lexeme = ts.map Token.lexeme) :
    Writes depth ts' e := by
  cases h with
  | statement hf h => exact .statement hf (h.congr hts)
  | block hne hf h => exact .block hne hf (h.congr hts)

/-- Inside brackets a line feed may come or go. -/
theorem newline_iff (ht : t.lexeme = .newline) (hopen : openBrackets (us.map Token.lexeme) ≠ []) :
    Writes depth (us ++ t :: vs) e ↔ Writes depth (us ++ vs) e := by
  constructor
  · intro h
    cases h with
    | statement hf h => exact .statement hf (h.remove ht)
    | block hne hf h => exact .block hne hf (h.remove ht hf hopen)
  · intro h
    cases h with
    | statement hf h =>
        exact .statement hf (h.insert ht hf.grammatical (nested_terminals e []) rfl hopen)
    | block hne hf h => exact .block hne hf (h.insert ht hf hopen)

end Writes

theorem parse_iff {text : Text} {ls : List Lexeme} (h : Scans text ls []) :
    parse depths text = .ok e ↔ Writes depths.rules (ls.map (⟨·, 0⟩)) e := by
  obtain ⟨body, p, hts, rfl⟩ := tokenize_iff.mpr h
  have hbody : ∀ u ∈ body, u.lexeme ≠ .finish := by
    obtain ⟨body', p', heq, hbody'⟩ := scanFrom_ends hts
    obtain ⟨rfl, -⟩ := List.append_inj' heq rfl
    exact hbody'
  have hlexemes : ((body.map Token.lexeme).map (⟨·, 0⟩)).map Token.lexeme =
      body.map Token.lexeme := by
    simp [Function.comp_def]
  unfold parse
  rw [hts]
  dsimp only
  rw [parseTokens_eq_ok_iff hbody]
  exact ⟨fun h => h.congr hlexemes, fun h => h.congr hlexemes.symm⟩

theorem scans_of_parse {text : Text} (h : parse depths text = .ok e) : ∃ ls, Scans text ls [] := by
  obtain ⟨body, p, hts, -⟩ := parse_reads h
  exact ⟨_, tokenize_iff.mp ⟨body, p, hts, rfl⟩⟩

/-- At any place between the lexemes of a text a blank makes no difference to what is parsed. Inside
brackets a line feed makes none either. -/
theorem parse_layout {before after : Text} {ls : List Lexeme} {c : CodePoint}
    (h : Scans (before ++ after) ls after) (hc : c.isBlank = true)
    (hfeed : c = .scalar '\n' → openBrackets ls ≠ []) (e : Expr) :
    parse depths (before ++ c :: after) = .ok e ↔ parse depths (before ++ after) = .ok e := by
  have hinserted := h.inserted hc
  have hsame : ∀ {more}, Scans after more [] →
      (parse depths (before ++ c :: after) = .ok e ↔ parse depths (before ++ after) = .ok e) := by
    intro more hmore
    rw [parse_iff (h.trans hmore)]
    by_cases hc' : c = .scalar '\n'
    · subst hc'
      rw [parse_iff (hinserted.trans (.feed hmore))]
      have hopen : openBrackets ((ls.map fun l => (⟨l, 0⟩ : Token)).map Token.lexeme) ≠ [] := by
        simpa [Function.comp_def] using hfeed rfl
      simpa using Writes.newline_iff (t := ⟨.newline, 0⟩) rfl hopen
    · rw [parse_iff (hinserted.trans (.blank hc hc' hmore))]
  constructor
  · intro hparse
    obtain ⟨all, hall⟩ := scans_of_parse hparse
    obtain ⟨rest, -, hrest⟩ := hinserted.cut hall
    cases hrest with
    | feed hmore => exact (hsame hmore).mp hparse
    | blank _ _ hmore => exact (hsame hmore).mp hparse
    | lexeme hnot => rw [hc] at hnot; cases hnot
  · intro hparse
    obtain ⟨all, hall⟩ := scans_of_parse hparse
    obtain ⟨more, -, hmore⟩ := h.cut hall
    exact (hsame hmore).mpr hparse

/-- A line feed before the comma of a call. -/
theorem parse_layout_call : ∃ e, parse .least (lit "min(1" ++ lit ",$a)") = .ok e ∧
    parse .least (lit "min(1" ++ .scalar '\n' :: lit ",$a)") = .ok e := by
  have hscans : Scans (lit "min(1" ++ lit ",$a)")
      [.name "min", .delimiter .openParen, .number "1"] (lit ",$a)") :=
    .lexeme rfl (fun _ => rfl) (.lexeme rfl (fun _ => rfl) (.lexeme rfl (fun _ => rfl) (.stop _)))
  have hok : (parse .least (lit "min(1" ++ lit ",$a)")).isOk = true := by decide +kernel
  obtain ⟨e, he⟩ := exists_eq_ok hok
  exact ⟨e, he, (parse_layout hscans rfl (fun _ => by decide) e).mpr he⟩

end MetricBridge.Formula
