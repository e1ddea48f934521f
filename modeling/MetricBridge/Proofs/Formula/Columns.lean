import MetricBridge.Proofs.Formula.Pieces

namespace MetricBridge.Formula

variable {t text number column rest : Text} {c : CodePoint} {start position : Nat} {e : Expr}

def IsSingleName (t : Text) : Prop :=
  ∃ ts, tokenize t = .ok ts ∧ ts.map Token.lexeme = [.name t, .finish]

theorem isSingleName_iff : IsSingleName t ↔ IsName t := by
  constructor
  · rintro ⟨ts, hts, hlexemes⟩
    have hmem : Lexeme.name t ∈ ts.map Token.lexeme := hlexemes ▸ List.mem_cons_self
    obtain ⟨u, hu, hname⟩ := List.mem_map.mp hmem
    exact isName_of_scanFrom hts u hu t hname
  · intro h
    obtain ⟨ls, hls, hscans⟩ := (shows_name h).denotes
    obtain ⟨l, ls', hl, hnil, rfl⟩ := List.forall₂_cons_right_iff.mp hls
    cases List.forall₂_nil_right_iff.mp hnil
    have hscan := hscans [] .nil
    rw [List.append_nil] at hscan
    obtain ⟨body, p, hts, hbody⟩ := hscan.scanFrom 0 rfl (Nat.lt_succ_self t.length)
    refine ⟨_, hts, ?_⟩
    rw [List.map_append, hbody, hl.of_name]
    rfl

/-- Of all decimal digits, names contain the ASCII ones. -/
theorem isNamePart_iff_of_isDecimal (h : c.isDecimal = true) :
    isNamePart c = true ↔ c.isAsciiDigit = true := by
  rw [isNamePart, Bool.or_eq_true]
  refine ⟨?_, .inr⟩
  rintro (hstart | hdigit)
  · have hnone := (isNameStart_facts hstart).2.2.2.1
    rw [CodePoint.isAnyDigit, h] at hnone
    cases hnone
  · exact hdigit

def IsPlainColumn (number column : Text) : Prop :=
  (∀ c ∈ number, c.isAsciiDigit = true) ∧ ∀ c ∈ column, isNamePart c = true

theorem isName_flatName (h : ∀ c ∈ number, c.isDecimal = true) :
    IsName (flatName number column) ↔ IsPlainColumn number column := by
  have hnumber : (∀ c ∈ number, isNamePart c = true) ↔ ∀ c ∈ number, c.isAsciiDigit = true :=
    forall₂_congr fun c hc => isNamePart_iff_of_isDecimal (h c hc)
  have hgoals : ∀ c ∈ goalsSymbol ++ lit "_", isNamePart c = true := by decide
  have hline : ∀ c ∈ lit "_", isNamePart c = true := by decide
  unfold IsPlainColumn IsName flatName
  rw [List.forall_mem_append, List.forall_mem_append, List.forall_mem_append, ← hnumber]
  constructor
  · rintro ⟨-, ⟨⟨-, hdigits⟩, -⟩, hcolumn⟩
    exact ⟨hdigits, hcolumn⟩
  · rintro ⟨hdigits, hcolumn⟩
    exact ⟨⟨_, _, rfl, by decide⟩, ⟨⟨hgoals, hdigits⟩, hline⟩, hcolumn⟩

theorem Lexeme.eq_name_of_metric? {l : Lexeme} {metric : Text} (h : l.metric? = some metric) :
    l = .name (.scalar '$' :: metric) := by
  cases l with
  | name value =>
      have hvalue : Expr.metricName? value = some metric := h
      unfold Expr.metricName? at hvalue
      split at hvalue <;> cases hvalue
      rfl
  | _ => cases h

namespace Expr

inductive Gives (column : Text) : Expr → Prop
  | text (dot) : Gives column (.index [.constant (.string column)] dot)
  | symbol (dot) : Gives column (.index [.symbol column] dot)

inductive NamesColumnOf (number column : Text) : Expr → Prop
  | mk {goal subscript} (dot) (hg : Indexes number goal) (hc : Gives column subscript) :
      NamesColumnOf number column
        (.accessor (.accessor (.symbol "$goals") (.index [.constant (.string goal)] dot)) subscript)

variable {base subscript : Expr} {depth : Nat}

theorem dimensions?_eq_ok {dimensions : List Expr} (h : dimensions? subscript = .ok dimensions) :
    ∃ dot, subscript = .index dimensions dot := by
  cases subscript with
  | index dimensions' dot =>
      cases h
      exact ⟨dot, rfl⟩
  | _ => cases h

theorem gives_iff : Gives column subscript ↔
    ∃ dimensions, dimensions? subscript = .ok dimensions ∧ columnOf dimensions = .ok column := by
  constructor
  · rintro (_ | _) <;> exact ⟨_, rfl, rfl⟩
  · rintro ⟨dimensions, hdimensions, hcolumn⟩
    obtain ⟨dot, rfl⟩ := dimensions?_eq_ok hdimensions
    unfold columnOf at hcolumn
    split at hcolumn <;> cases hcolumn
    · exact .text dot
    · exact .symbol dot

/-- What is emitted for an accessor is a flat name, and it is for the columns of goals only. -/
theorem emitAccessor_eq_ok : emitAccessor depth e base subscript = .ok t ↔
    ∃ number column, NamesColumnOf number column (.accessor base subscript) ∧
      t = flatName number column := by
  constructor
  · intro h
    unfold emitAccessor at h
    dsimp only at h
    split at h
    · exact absurd h refuse_ne_ok
    · rename_i name goalIndex
      split_ifs at h with hname
      · exact absurd h refuse_ne_ok
      · obtain rfl : name = goalsSymbol := not_not.mp hname
        split at h
        · cases h
        · rename_i goal hgoal
          split at h
          · exact absurd h refuse_ne_ok
          · rename_i number hnumber
            split at h
            · cases h
            · rename_i dimensions hdimensions
              split at h
              · exact absurd h refuse_ne_ok
              · rename_i column hcolumn
                cases h
                obtain ⟨dot, rfl⟩ := dimensions?_eq_ok hgoal
                obtain ⟨index, rfl, hindex⟩ := goalOf_eq.mp hnumber
                exact ⟨number, column, .mk dot hindex (gives_iff.mpr ⟨_, hdimensions, hcolumn⟩), rfl⟩
    · exact absurd h refuse_ne_ok
  · rintro ⟨number, column, ⟨dot, hg, hc⟩, rfl⟩
    obtain ⟨dimensions, hdimensions, hcolumn⟩ := gives_iff.mp hc
    have hgoal : ∀ goal, dimensions? (.index [.constant (.string goal)] dot) =
        .ok [.constant (.string goal)] := fun _ => rfl
    have hsymbol : ¬ lit "$goals" ≠ goalsSymbol := not_not_intro rfl
    simp only [emitAccessor, hgoal, goalOf_eq.mpr ⟨_, rfl, hg⟩, hdimensions, hcolumn, hsymbol,
      if_false]

theorem NamesColumnOf.decimal (h : NamesColumnOf number column e) :
    ∀ c ∈ number, c.isDecimal = true := by
  obtain ⟨-, hg, -⟩ := h
  exact hg.2.1

theorem NamesColumnOf.mention (h : NamesColumnOf number column e) :
    ∃ given, e.mention? = some (.column (flatName number column) given) := by
  obtain ⟨dot, hg, hc⟩ := h
  have hgoal := goalOf_eq.mpr ⟨_, rfl, hg⟩
  cases hc <;> exact ⟨_, by simp only [mention?, hgoal, columnOf]; rfl⟩

theorem isAccessor_of_mention? {flat : Text} {given : Option Text}
    (h : e.mention? = some (.column flat given)) : e.isAccessor = true := by
  cases e with
  | accessor => rfl
  | symbol name =>
      obtain ⟨metric, -, hmetric⟩ := Option.map_eq_some_iff.mp h
      cases hmetric
  | _ => cases h

end Expr

namespace Expr

theorem NamesColumnOf.given (h : NamesColumnOf number column e) (hnames : NamesWritten e.terminals) :
    IsName column ∨ ∃ object, e = .accessor object (.index [.constant (.string column)] false) := by
  obtain ⟨dot, -, hc⟩ := h
  cases hc with
  | symbol => exact .inl (hnames column (by simp [terminals, pieces]))
  | text dot' => cases dot' with
      | true => exact .inl (hnames column (by simp [terminals]))
      | false => exact .inr ⟨_, rfl⟩

end Expr

section Translated

variable {formula : Text} {metrics : List Text} {tree : Expr} {depths : Depths}
  (h : translate depths formula = .ok ⟨some text, metrics⟩) (htree : parse depths formula = .ok tree)

include h htree

theorem fits_of_translate : ∃ ts p, tokenize formula = .ok (ts ++ [⟨.finish, p⟩]) ∧
    Spells 0 ts tree.terminals ∧ ∃ depth level awaits, tree.Fits depth level awaits := by
  obtain ⟨body, p, hts, hwrites⟩ := parse_reads htree
  obtain ⟨hemit, -⟩ := emit_of_translate h htree
  cases hwrites with
  | block => cases Expr.isEmitted_of_emit hemit
  | statement hfits hspells => exact ⟨body, p, hts, hspells, _, _, _, hfits⟩

/-- The flat name of a column in a formula stands in the calculated field. -/
theorem column_of_translate (he : e ∈ tree.outside) (ha : e.isAccessor = true) :
    ∃ number column, e.NamesColumnOf number column ∧ flatName number column <:+: text ∧
      (IsName column ∨
        ∃ object, e = .accessor object (.index [.constant (.string column)] false)) := by
  obtain ⟨ts, p, hts, hspells, _, _, _, hfits⟩ := fits_of_translate h htree
  obtain ⟨⟨m, u, hu, hinfix⟩, hterminals⟩ :=
    hfits.pieces (emit_of_translate h htree).1 he ha
  cases e with
  | accessor base subscript =>
      cases m with
      | zero => cases hu
      | succ m =>
          obtain ⟨number, column, hcolumn, rfl⟩ := Expr.emitAccessor_eq_ok.mp hu
          exact ⟨number, column, hcolumn, hinfix,
            hcolumn.given ((hspells.namesWritten hts).part hterminals)⟩
  | _ => cases ha

/-- If all columns are written as names, each is a token of the calculated field. -/
theorem tokens_of_translate (hplain : ∀ e ∈ tree.outside, ∀ number column,
      e.NamesColumnOf number column → IsPlainColumn number column) :
    ∃ ts, tokenize text = .ok ts ∧ ∀ e ∈ tree.outside, ∀ number column,
      e.NamesColumnOf number column → ∃ u ∈ ts, u.lexeme = .name (flatName number column) := by
  obtain ⟨body, p, hts, hspells, _, _, _, hfits⟩ := fits_of_translate h htree
  have hflat : ∀ flat given, .column flat given ∈ tree.mentions → IsName flat := by
    intro flat given hmem
    obtain ⟨e, he, hmention⟩ := List.mem_filterMap.mp hmem
    obtain ⟨number, column, hcolumn, -⟩ :=
      column_of_translate h htree he (Expr.isAccessor_of_mention? hmention)
    obtain ⟨given', hname⟩ := hcolumn.mention
    cases hname.symm.trans hmention
    exact (isName_flatName hcolumn.decimal).mpr (hplain e he number column hcolumn)
  obtain ⟨ts, htext, hmetrics⟩ :=
    (hfits.retells ⟨hspells.namesWritten hts, hflat⟩ (emit_of_translate h htree).1).tokenized
  refine ⟨ts, htext, fun e he number column hcolumn => ?_⟩
  obtain ⟨given, hmention⟩ := hcolumn.mention
  have hmem : (flatName number column).tail ∈ tree.mentions.map Mention.name :=
    List.mem_map.mpr ⟨_, List.mem_filterMap.mpr ⟨e, he, hmention⟩, rfl⟩
  rw [← hmetrics] at hmem
  obtain ⟨u, hu, hmetric⟩ := List.mem_filterMap.mp hmem
  exact ⟨u, hu, Lexeme.eq_name_of_metric? hmetric⟩

end Translated

def indexed (t : Text) : Text := lit "[" ++ t.quotePlain ++ lit "]"

def columnFormula (goal column : Text) : Text := goalsSymbol ++ (indexed goal ++ indexed column)

theorem shows_indexed (t : Text) :
    Shows Whatever (indexed t) (Expr.index [.constant (.string t)] false).terminals := by
  have hopen : Shows Whatever (lit "[") [.mark .openBracket] :=
    .delimiter (d := .openBracket) nofun (.mark .openBracket) fun _ _ => rfl
  have hclose : Shows Whatever (lit "]") [.mark .closeBracket] :=
    .delimiter (d := .closeBracket) nofun (.mark .closeBracket) fun _ _ => rfl
  have hstring : Shows Whatever t.quotePlain [.string t] :=
    .single (.string t) rfl (by decide) fun rest _ _ => scanLexeme_quotePlain t rest
  exact (hopen.opening hstring).opening hclose

def columnTree (goal column : Text) : Expr :=
  .accessor (.accessor (.symbol goalsSymbol) (.index [.constant (.string goal)] false))
    (.index [.constant (.string column)] false)

theorem shows_columnFormula (goal column : Text) :
    Shows Whatever (columnFormula goal column) (columnTree goal column).terminals := by
  have hgoals : Shows (fun rest => ∃ more, rest = .scalar '[' :: more) goalsSymbol
      [.name goalsSymbol] := by
    refine .name ⟨⟨_, _, rfl, by decide⟩, by decide⟩ (.name goalsSymbol) ?_
    rintro rest ⟨more, rfl⟩ c u heq
    cases heq
    decide
  exact hgoals.append ((shows_indexed goal).opening (shows_indexed column)) fun rest _ => ⟨_, rfl⟩

theorem fits_columnTree (goal column : Text) :
    (columnTree goal column).Fits 35 .assignment false := by
  have hstring : ∀ t, (Expr.constant (.string t)).Fits 18 .assignment false := by
    intro t
    have hconstant : (Expr.constant (.string t)).Fits 1 .primary false :=
      .constant ⟨.string t, .string t⟩
    exact hconstant.loosen (k := 17) rfl
  have hsymbol : (Expr.symbol goalsSymbol).Fits 1 .primary false :=
    .symbol (by decide) (by decide)
  have hgoal : (Expr.accessor (.symbol goalsSymbol) (.index [.constant (.string goal)] false)).Fits
      18 .primary false :=
    .brackets (List.cons_ne_nil _ _) (hsymbol.mono (by decide))
      (List.forall_mem_singleton.mpr (hstring goal))
  have htree : (columnTree goal column).Fits 18 .primary false :=
    .brackets (List.cons_ne_nil _ _) hgoal (List.forall_mem_singleton.mpr (hstring column))
  exact htree.loosen (k := 17) rfl

theorem parse_columnFormula (goal column : Text) :
    parse depths (columnFormula goal column) = .ok (columnTree goal column) := by
  obtain ⟨ts, hts, hparse⟩ := parse_of_shows ((shows_columnFormula goal column).mono
    fun _ _ => trivial) (fits_columnTree goal column)
  rw [parse, hts]
  exact hparse depths.rules (Nat.le_trans (by decide) depths.le_rules)

theorem translate_columnFormula {goal : Text} (h : Indexes number goal) (column : Text) :
    translate depths (columnFormula goal column) = .ok ⟨some (flatName number column), []⟩ := by
  obtain ⟨n, hn⟩ : ∃ n, depths.nodes = n + 1 :=
    ⟨depths.nodes - 1, by have := depths.le_nodes; omega⟩
  have hemit : (columnTree goal column).emit depths.nodes = .ok (flatName number column) := by
    rw [hn]
    exact Expr.emitAccessor_eq_ok.mpr ⟨number, column, .mk false h (.text false), rfl⟩
  rw [translate_of_parse (parse_columnFormula goal column), hemit]
  rfl

/-- What is emitted for an accessor is the flat name of a column, with the number of the goal and
the column as they are given. It is one name if the number consists of ASCII digits and the column
of characters of names. In a formula only a string in brackets gives another column, and then every
text is accepted and stands in the calculated field; without such columns each flat name is a token
of the field. -/
theorem goal_columns (formula : Text) :
    (∀ {depth e base subscript t}, emitAccessor depth e base subscript = .ok t →
      ∃ number column, (Expr.accessor base subscript).NamesColumnOf number column ∧
        t = flatName number column ∧ (IsSingleName t ↔ IsPlainColumn number column)) ∧
    (∀ {text metrics tree}, translate depths formula = .ok ⟨some text, metrics⟩ →
      parse depths formula = .ok tree →
        (∀ e ∈ tree.outside, e.isAccessor = true → ∃ number column,
          e.NamesColumnOf number column ∧ flatName number column <:+: text ∧ (IsName column ∨
            ∃ object, e = .accessor object (.index [.constant (.string column)] false))) ∧
        ((∀ e ∈ tree.outside, ∀ number column, e.NamesColumnOf number column →
            IsPlainColumn number column) →
          ∃ ts, tokenize text = .ok ts ∧ ∀ e ∈ tree.outside, ∀ number column,
            e.NamesColumnOf number column →
              ∃ u ∈ ts, u.lexeme = .name (flatName number column))) ∧
    ∀ {number goal}, Indexes number goal → ∀ column,
      translate depths (columnFormula goal column) = .ok ⟨some (flatName number column), []⟩ := by
  refine ⟨fun h => ?_, fun h htree => ⟨?_, tokens_of_translate h htree⟩, translate_columnFormula⟩
  · obtain ⟨number, column, hcolumn, rfl⟩ := Expr.emitAccessor_eq_ok.mp h
    exact ⟨number, column, hcolumn, rfl,
      isSingleName_iff.trans (isName_flatName hcolumn.decimal)⟩
  · exact fun e he ha => column_of_translate h htree he ha

/-- A column that is a sum, and one that is a name. -/
theorem goal_columns_sum :
    (translate .least (columnFormula "idgoal=1" "a + b") = .ok ⟨some "$goals_1_a + b", []⟩ ∧
      (∃ number column, (columnTree "idgoal=1" "a + b").NamesColumnOf number column ∧
        lit "$goals_1_a + b" = flatName number column ∧
        (IsSingleName "$goals_1_a + b" ↔ IsPlainColumn number column)) ∧
      ¬ IsSingleName "$goals_1_a + b") ∧
    ∃ tree ts, parse .least "2 * $goals[\"idgoal=2\"].revenue" = .ok tree ∧
      translate .least "2 * $goals[\"idgoal=2\"].revenue" = .ok ⟨some "2 * $goals_2_revenue", []⟩ ∧
      tree.mentions = [.column "$goals_2_revenue" none] ∧
      tokenize "2 * $goals_2_revenue" = .ok ts ∧ ∀ e ∈ tree.outside, ∀ number column,
        e.NamesColumnOf number column → ∃ u ∈ ts, u.lexeme = .name (flatName number column) := by
  obtain ⟨hemitted, htranslated, haccepted⟩ :=
    @goal_columns .least "2 * $goals[\"idgoal=2\"].revenue"
  have hindex : Indexes "1" "idgoal=1" := ⟨by decide, by decide, .inl rfl⟩
  refine ⟨⟨haccepted hindex "a + b", @hemitted 0 (.symbol "e") _ _ _ rfl, ?_⟩, ?_⟩
  · rw [isSingleName_iff]
    rintro ⟨-, hparts⟩
    exact absurd (hparts (.scalar ' ') (by decide)) (by decide)
  · have htranslate : translate .least "2 * $goals[\"idgoal=2\"].revenue" =
        .ok ⟨some "2 * $goals_2_revenue", []⟩ := by
      decide +kernel
    have hmentions : (parse .least "2 * $goals[\"idgoal=2\"].revenue").map Expr.mentions =
        .ok [.column "$goals_2_revenue" none] := by
      decide +kernel
    obtain ⟨tree, htree, hlist⟩ := map_eq_ok hmentions
    have hplain : ∀ e ∈ tree.outside, ∀ number column, e.NamesColumnOf number column →
        IsPlainColumn number column := by
      intro e he number column hcolumn
      obtain ⟨given, hmention⟩ := hcolumn.mention
      have hmem : Mention.column (flatName number column) given ∈ tree.mentions :=
        List.mem_filterMap.mpr ⟨e, he, hmention⟩
      rw [hlist, List.mem_singleton] at hmem
      rw [← isName_flatName hcolumn.decimal, (Mention.column.inj hmem).1]
      exact ⟨⟨_, _, rfl, by decide⟩, by decide⟩
    obtain ⟨-, htokens⟩ := htranslated htranslate htree
    obtain ⟨ts, hts, hnames⟩ := htokens hplain
    exact ⟨tree, ts, htree, htranslate, hlist, hts, hnames⟩

end MetricBridge.Formula
