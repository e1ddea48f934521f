import MetricBridge.Proofs.Formula.Constants
import MetricBridge.Proofs.Formula.Emission
import MetricBridge.Proofs.Formula.Faithful
import MetricBridge.Proofs.Formula.Mentions
import MetricBridge.Proofs.Formula.Translating

namespace MetricBridge.Formula

def Lexeme.metric? : Lexeme → Option Text
  | name value => Expr.metricName? value
  | _ => none

def Terminal.metric? : Terminal → Option Text
  | name value => Expr.metricName? value
  | _ => none

def Terminal.isKey : Terminal → Bool
  | key _ => true
  | _ => false

theorem Lexeme.Denotes.metric?_eq {l : Lexeme} {m : Terminal} (h : l.Denotes m)
    (hm : m.isKey = false) : l.metric? = m.metric? := by
  have hword : ∀ word ∈ wordOperators, Expr.metricName? word = none := by decide
  cases h with
  | quotedKey => cases hm
  | bareKey => cases hm
  | operator hop =>
      cases l with
      | name value =>
          have hvalue : isWordOperator value = true := by
            by_contra hnot
            rw [Lexeme.operator?, if_neg hnot] at hop
            cases hop
          exact hword value (List.contains_iff_mem.mp hvalue)
      | _ => rfl
  | _ => rfl

theorem metrics_of_denotes {ls : List Lexeme} {ms : List Terminal}
    (h : List.Forall₂ Lexeme.Denotes ls ms) (hkeys : ∀ m ∈ ms, m.isKey = false) :
    ls.filterMap Lexeme.metric? = ms.filterMap Terminal.metric? := by
  induction h with
  | nil => rfl
  | cons hl _ ih =>
      obtain ⟨hkey, hkeys⟩ := List.forall_mem_cons.mp hkeys
      rw [List.filterMap_cons, List.filterMap_cons, hl.metric?_eq hkey, ih hkeys]

/-- In front of whatever may stand behind an operand, the text is scanned, and the metrics that it
names are these. -/
def Names (t : Text) (metrics : List Text) : Prop :=
  ∃ ms, Shows Closed t ms ∧ (∀ m ∈ ms, m.isKey = false) ∧ ms.filterMap Terminal.metric? = metrics

namespace Names

variable {t t' op name : Text} {fn : Operation} {metrics metrics' : List Text} {m : Terminal}

theorem single (h : Shows Closed t [m]) (hm : m.isKey = false) : Names t m.metric?.toList := by
  refine ⟨[m], h, List.forall_mem_singleton.mpr hm, ?_⟩
  rw [List.filterMap_cons]
  cases m.metric? <;> rfl

theorem ofName (h : IsName t) : Names t (Expr.metricName? t).toList :=
  single (.name h (.name t) fun _ hrest => hrest.head (by decide)) rfl

theorem binary (hop : IsSpaced op) (h : Names t metrics) (h' : Names t' metrics') :
    Names (t ++ (lit " " ++ op ++ lit " " ++ t')) (metrics ++ metrics') := by
  obtain ⟨ms, hshows, hkeys, rfl⟩ := h
  obtain ⟨ms', hshows', hkeys', rfl⟩ := h'
  refine ⟨_, hshows.binary hop hshows', ?_, ?_⟩
  · exact List.forall_mem_append.mpr ⟨hkeys, List.forall_mem_cons.mpr ⟨rfl, hkeys'⟩⟩
  · rw [List.filterMap_append, List.filterMap_cons]
    rfl

theorem sign (hop : (op, fn) ∈ Level.unaryTable) (h : Names t metrics) :
    Names (if isWordText op then op ++ lit " " ++ t else op ++ t) metrics := by
  obtain ⟨ms, hshows, hkeys, rfl⟩ := h
  have hword : ∀ entry ∈ Level.unaryTable, isWordText entry.1 = isWordOperator entry.1 := by decide
  rw [hword _ hop]
  exact ⟨_, hshows.sign hop, List.forall_mem_cons.mpr ⟨rfl, hkeys⟩, rfl⟩

theorem factorial (hop : (op, fn) ∈ Level.factorialTable) (h : Names t metrics) :
    Names (t ++ op) metrics := by
  obtain ⟨ms, hshows, hkeys, rfl⟩ := h
  refine ⟨_, hshows.factorial hop, ?_, ?_⟩
  · exact List.forall_mem_append.mpr ⟨hkeys, List.forall_mem_singleton.mpr rfl⟩
  · rw [List.filterMap_append]
    exact List.append_nil _

theorem group (h : Names t metrics) : Names (lit "(" ++ t ++ lit ")") metrics := by
  obtain ⟨ms, hshows, hkeys, rfl⟩ := h
  refine ⟨_, hshows.parenthesized, ?_, ?_⟩
  · exact List.forall_mem_append.mpr
      ⟨List.forall_mem_cons.mpr ⟨rfl, hkeys⟩, List.forall_mem_singleton.mpr rfl⟩
  · rw [Expr.bracketed, List.filterMap_append]
    exact List.append_nil _

theorem exists_pieces {ts : List Text} {lists : List (List Text)}
    (h : List.Forall₂ Names ts lists) : ∃ pieces, List.Forall₂ (Shows Closed) ts pieces ∧
      (∀ ms ∈ pieces, ∀ m ∈ ms, m.isKey = false) ∧
      pieces.map (List.filterMap Terminal.metric?) = lists := by
  induction h with
  | nil => exact ⟨[], .nil, nofun, rfl⟩
  | cons ht _ ih =>
      obtain ⟨ms, hshows, hkeys, rfl⟩ := ht
      obtain ⟨pieces, hall, hnone, rfl⟩ := ih
      exact ⟨ms :: pieces, .cons hshows hall, List.forall_mem_cons.mpr ⟨hkeys, hnone⟩, rfl⟩

theorem filterMap_markedBy (d : Delimiter) (pieces : List (List Terminal)) :
    (Expr.markedBy d pieces).filterMap Terminal.metric? =
      (pieces.map (List.filterMap Terminal.metric?)).flatten := by
  cases pieces with
  | nil => rfl
  | cons ms pieces =>
      rw [Expr.markedBy_cons, List.filterMap_append, List.filterMap_flatMap, List.map_cons,
        List.flatten_cons, ← List.flatMap_def]
      rfl

theorem call {ts : List Text} {lists : List (List Text)} (hname : IsName name)
    (hn : Expr.metricName? name = none) (h : List.Forall₂ Names ts lists) :
    Names (name ++ lit "(" ++ Expr.commaSeparated ts ++ lit ")") lists.flatten := by
  obtain ⟨pieces, hshows, hkeys, rfl⟩ := exists_pieces h
  refine ⟨_, .call hname hshows, ?_, ?_⟩
  · refine List.forall_mem_cons.mpr ⟨rfl, ?_⟩
    exact List.forall_mem_append.mpr ⟨List.forall_mem_cons.mpr ⟨rfl, Expr.forall_markedBy rfl hkeys⟩,
      List.forall_mem_singleton.mpr rfl⟩
  · have hmetric : (Terminal.name name).metric? = none := hn
    rw [List.filterMap_cons, hmetric, Expr.bracketed, List.filterMap_append, List.filterMap_cons,
      ← filterMap_markedBy .comma]
    exact List.append_nil _

theorem tokenized (h : Names t metrics) :
    ∃ ts, tokenize t = .ok ts ∧ ts.filterMap (fun u => u.lexeme.metric?) = metrics := by
  obtain ⟨ms, hshows, hkeys, rfl⟩ := h
  obtain ⟨ls, hls, hscans⟩ := hshows.denotes
  have hscan := hscans [] .nil
  rw [List.append_nil] at hscan
  obtain ⟨body, p, hts, rfl⟩ := hscan.scanFrom 0 rfl (Nat.lt_succ_self t.length)
  refine ⟨_, hts, ?_⟩
  rw [List.filterMap_append, ← metrics_of_denotes hls hkeys, List.filterMap_map]
  exact List.append_nil _

end Names

theorem names_literal {v : Literal} (h : v.IsWritten) : Names v.text [] := by
  have hsingle : ∃ m, v.reread.terminals = [m] ∧ m.isKey = false ∧ m.metric? = none := by
    cases h.form with
    | digits _ _ hr | numeral _ _ hr | infinite _ hr => exact hr ▸ ⟨_, rfl, rfl, rfl⟩
    | string _ hv => exact hv ▸ ⟨_, rfl, rfl, rfl⟩
    | word _ _ _ hr =>
        rw [hr]
        cases v with
        | bool b => cases b <;> exact ⟨_, rfl, rfl, rfl⟩
        | _ => exact ⟨_, rfl, rfl, rfl⟩
  obtain ⟨m, hterminals, hkey, hmetric⟩ := hsingle
  have hshows := h.form.closed
  rw [hterminals] at hshows
  have hnames := Names.single hshows hkey
  rwa [hmetric] at hnames

namespace Expr

variable {e left right arg base subscript callee : Expr} {es : List Expr} {op : Text} {fn : Operation}

structure IsNamed (e : Expr) : Prop where
  symbols : NamesWritten e.terminals
  columns : ∀ flat given, .column flat given ∈ e.mentions → IsName flat

def Retells (e : Expr) : Prop :=
  e.IsNamed → ∀ {n t}, emit n e = .ok t → Names t (e.mentions.map Mention.name)

theorem IsNamed.child {c : Expr} (h : e.IsNamed) (ha : e.isAccessor = false)
    (hc : c ∈ e.children) (hms : ∀ m ∈ c.terminals, m ∈ e.terminals) : c.IsNamed where
  symbols := h.symbols.part hms
  columns flat given hmem := by
    refine h.columns flat given ?_
    rw [mentions_eq, ha]
    exact List.mem_append_right _ (List.mem_flatMap.mpr ⟨c, hc, hmem⟩)

theorem retells_binary (hop : IsSpaced op) (hl : Retells left) (hr : Retells right) :
    Retells (.operator op fn [left, right]) := by
  intro hnamed n t h
  obtain ⟨m, m', a, b, ha, hb, rfl⟩ := emit_binary h
  have hleft := hl (hnamed.child rfl (by simp [children]) (by simp +contextual [terminals])) ha
  have hright := hr (hnamed.child rfl (by simp [children]) (by simp +contextual [terminals])) hb
  rw [mentions_node rfl rfl]
  simpa [children] using hleft.binary hop hright

theorem retells_unary (hop : (op, fn) ∈ Level.unaryTable) (ha : Retells arg) :
    Retells (.operator op fn [arg]) := by
  intro hnamed n t h
  obtain ⟨m, a, ha', rfl⟩ := emit_unary h
  have hfn : fn ≠ .factorial := by
    rintro rfl
    simp [Level.unaryTable] at hop
  have harg := ha (hnamed.child rfl (by simp [children])
    (by simp +contextual [terminals, hfn])) ha'
  rw [mentions_node rfl rfl, if_neg hfn]
  simpa [children] using harg.sign hop

theorem retells_factorial (hop : (op, fn) ∈ Level.factorialTable) (ha : Retells arg) :
    Retells (.operator op fn [arg]) := by
  intro hnamed n t h
  obtain ⟨m, a, ha', rfl⟩ := emit_unary h
  have hfn : fn = .factorial := by simp_all [Level.factorialTable]
  have harg := ha (hnamed.child rfl (by simp [children])
    (by simp +contextual [terminals, hfn])) ha'
  rw [mentions_node rfl rfl, if_pos hfn]
  simpa [children] using harg.factorial hop

theorem retells_parenthesis {content : Expr} (hc : Retells content) :
    Retells (.parenthesis content) := by
  intro hnamed n t h
  obtain ⟨m, a, ha, rfl⟩ := emit_parenthesis h
  have hcontent := hc (hnamed.child rfl (by simp [children]) (by simp +contextual [terminals])) ha
  rw [mentions_node rfl rfl]
  simpa [children] using hcontent.group

theorem names_all {m : Nat} {parts : List Text} (h : ∀ e ∈ es, Retells e)
    (hnamed : ∀ e ∈ es, e.IsNamed) (hparts : List.Forall₂ (fun e t => emit m e = .ok t) es parts) :
    List.Forall₂ Names parts (es.map fun e => e.mentions.map Mention.name) := by
  induction hparts with
  | nil => exact .nil
  | cons he _ ih =>
      obtain ⟨h, hs⟩ := List.forall_mem_cons.mp h
      obtain ⟨hnamed, hnameds⟩ := List.forall_mem_cons.mp hnamed
      exact .cons (h hnamed he) (ih hs hnameds)

theorem retells_conditional {condition whenTrue whenFalse : Expr} (hc : Retells condition)
    (ht : Retells whenTrue) (hf : Retells whenFalse) :
    Retells (.conditional condition whenTrue whenFalse) := by
  intro hnamed n t h
  obtain ⟨m, a, b, c, ha, hb, hc', rfl⟩ := emit_conditional h
  have hchild : ∀ e ∈ [condition, whenTrue, whenFalse], e.IsNamed := fun e he =>
    hnamed.child rfl he (by
      simp only [List.mem_cons, List.not_mem_nil, or_false] at he
      rcases he with rfl | rfl | rfl <;> simp +contextual [terminals])
  have hall : ∀ e ∈ [condition, whenTrue, whenFalse], Retells e :=
    List.forall_mem_cons.mpr ⟨hc, List.forall_mem_cons.mpr ⟨ht, List.forall_mem_singleton.mpr hf⟩⟩
  have hnames : List.Forall₂ Names [a, b, c] _ :=
    names_all hall hchild (.cons ha (.cons hb (.cons hc' .nil)))
  have htext : lit "IF(" ++ a ++ lit ", " ++ b ++ lit ", " ++ c ++ lit ")" =
      conditionalFunction ++ lit "(" ++ commaSeparated [a, b, c] ++ lit ")" := by
    simp [commaSeparated, Text.joinWith, conditionalFunction, lit]
  have hcall : Names (conditionalFunction ++ lit "(" ++ commaSeparated [a, b, c] ++ lit ")") _ :=
    .call ⟨⟨_, _, rfl, by decide⟩, by decide⟩ (by decide) hnames
  rw [mentions_node rfl rfl, htext]
  simpa [children] using hcall

theorem metricName?_function {name target : Text} (h : functionName? name = some target) :
    metricName? name = none ∧ metricName? target = none := by
  unfold functionName? at h
  split_ifs at h with hmin hmax habs
  · cases h
    exact ⟨hmin ▸ by decide, by decide⟩
  · cases h
    exact ⟨hmax ▸ by decide, by decide⟩
  · cases h
    exact ⟨habs ▸ by decide, by decide⟩

theorem retells_call (ha : ∀ a ∈ es, Retells a) : Retells (.call callee es) := by
  intro hnamed n t h
  obtain ⟨m, name, target, parts, rfl, htarget, hparts, rfl⟩ := emit_call h
  obtain ⟨hname, -, -⟩ := isName_of_functionName? htarget
  obtain ⟨hsource, hmetric⟩ := metricName?_function htarget
  have hargs := names_all ha
    (fun a ha => hnamed.child rfl (by simp [children, ha]) fun m hm => by
      simp [terminals, mem_markedBy (mem_pieces ha) hm]) (forall₂_of_mapM hparts)
  have hcallee : (symbol name).mentions = [] := by rw [mentions_symbol, hsource]; rfl
  rw [mentions_node rfl rfl]
  simpa [children, hcallee, List.flatMap_def, List.map_flatten, Function.comp_def] using
    Names.call hname hmetric hargs

theorem names_comparisons {m : Nat} {whole : Expr} {links : List (Text × Operation × Expr)}
    {a b : Text} {metrics : List Text} (ha : Names a metrics)
    (hops : ∀ k ∈ links, (k.1, k.2.1) ∈ Level.relational.joining)
    (hlinks : ∀ k ∈ links, ∀ {t}, emit m k.2.2 = .ok t → Names t (k.2.2.mentions.map Mention.name))
    (hb : emitComparisons (emit m) m whole (links.map (·.2.1)) (links.map (·.2.2)) = .ok b) :
    Names (a ++ b)
      (metrics ++ (links.map (·.2.2)).flatMap fun e => e.mentions.map Mention.name) := by
  induction links generalizing a b metrics with
  | nil =>
      cases hb
      simpa using ha
  | cons k links ih =>
      obtain ⟨hop, hops⟩ := List.forall_mem_cons.mp hops
      obtain ⟨hk, hlinks⟩ := List.forall_mem_cons.mp hlinks
      obtain ⟨sign, t, more, hsign, ht, hmore, rfl⟩ := emitComparisons_cons hb
      cases hsign.symm.trans (symbol?_relational hop)
      have hall : ∀ entry ∈ Level.relational.joining, IsSpaced entry.1 := by decide
      have hnames := ih (ha.binary (hall _ hop) (hk ht)) hops hlinks hmore
      simpa using hnames

theorem retells_comparisons {first : Expr} {links : List (Text × Operation × Expr)}
    (hfirst : Retells first) (hops : ∀ k ∈ links, (k.1, k.2.1) ∈ Level.relational.joining)
    (hlinks : ∀ k ∈ links, Retells k.2.2) : Retells
      (.relational (links.map (·.2.1)) (first :: links.map (·.2.2)) (links.map (·.1))) := by
  intro hnamed n t h
  obtain ⟨m, whole, a, b, ha, hb, rfl⟩ := emit_relational h
  have hhead := hfirst (hnamed.child rfl (by simp [children]) (by simp +contextual [terminals])) ha
  have hnames := names_comparisons hhead hops (fun k hk _ ht => hlinks k hk
    (hnamed.child rfl (by
      simp only [children, List.mem_cons, List.mem_map]
      exact .inr ⟨k, hk, rfl⟩) fun m hm => by simp [terminals, mem_chained hk hm]) ht) hb
  rw [mentions_node rfl rfl]
  simpa [children, List.map_flatMap] using hnames

theorem retells_constant {v : Literal} (hv : v.IsWritten) : Retells (.constant v) := by
  intro hnamed n t h
  cases emit_constant h
  exact names_literal hv

theorem retells_symbol (name : Text) : Retells (.symbol name) := by
  intro hnamed n t h
  have ht := emit_symbol h
  subst ht
  have hname := Names.ofName (hnamed.symbols t List.mem_cons_self)
  rw [mentions_symbol]
  cases hmetric : metricName? t <;> rw [hmetric] at hname <;> exact hname

theorem retells_accessor {dimensions : List Expr} {dot : Bool} (hb : base.Regular) :
    Retells (.accessor base (.index dimensions dot)) := by
  intro hnamed n t h
  cases n with
  | zero => cases h
  | succ n =>
      have hcolumn : (accessor base (.index dimensions dot)).IsGoalColumn ∨ ∃ fault,
          emit (n + 1) (.accessor base (.index dimensions dot)) =
            refuse n (.accessor fault) (.accessor base (.index dimensions dot)) :=
        (emitAccessor_eq hb).imp And.left And.right
      rcases hcolumn with hcolumn | ⟨fault, hfault⟩
      · obtain ⟨metric, given, hmention, -, hemit⟩ := hcolumn.exists_flat
        cases (hemit n _).symm.trans h
        have hmentions : (accessor base (.index dimensions dot)).mentions =
            [.column (.scalar '$' :: metric) given] := by
          rw [mentions_accessor, hmention]
          rfl
        have hflat := hnamed.columns _ given (hmentions ▸ List.mem_cons_self)
        rw [hmentions]
        exact .ofName hflat
      · rw [hfault] at h
        exact absurd h refuse_ne_ok

theorem retells_refused (h : e.isEmitted = false) : Retells e := by
  intro hnamed n t ht
  rw [isEmitted_of_emit ht] at h
  cases h

theorem Fits.retells {depth : Nat} {level : Level} {awaits : Bool}
    (h : e.Fits depth level awaits) : Retells e := by
  induction h with
  | tighter _ _ ih => exact ih
  | conditional _ _ _ ihc iht ihf => exact retells_conditional ihc iht ihf
  | join _ hop _ _ iha ihb => exact retells_binary (isSpaced_joining hop) iha ihb
  | comparison hop _ _ iha ihb => exact retells_binary (isSpaced_joining hop) iha ihb
  | comparisons _ _ hops _ ihfirst ihlinks => exact retells_comparisons ihfirst hops ihlinks
  | sign hop _ ih => exact retells_unary hop ih
  | @power _ _ op fn _ _ hop _ _ iha ihb =>
      have hall : ∀ entry ∈ Level.powerTable, IsSpaced entry.1 := by decide
      exact retells_binary (hall (op, fn) hop) iha ihb
  | factorial hop _ ih => exact retells_factorial hop ih
  | call _ _ _ _ iha => exact retells_call iha
  | brackets _ hb => exact retells_accessor hb.regular
  | dot hb => exact retells_accessor hb.regular
  | constant hv => exact retells_constant hv
  | symbol => exact retells_symbol _
  | parenthesis _ ih => exact retells_parenthesis ih
  | assignment | definition | range | stepped | array | object => exact retells_refused rfl

end Expr

variable {formula text : Text} {metrics : List Text} {tree : Expr} {depths : Depths}

theorem emit_of_translate (h : translate depths formula = .ok ⟨some text, metrics⟩)
    (htree : parse depths formula = .ok tree) :
    tree.emit depths.nodes = .ok text ∧ metrics = tree.metrics := by
  rw [translate_of_parse htree] at h
  split at h
  · cases h
  · rename_i hemit
    cases h
    exact ⟨hemit, rfl⟩

theorem Spells.namesWritten {n : Nat} {ts : List Token} {p : Nat} {ms : List Terminal}
    (h : Spells n ts ms) (hts : tokenize formula = .ok (ts ++ [⟨.finish, p⟩])) :
    Expr.NamesWritten ms := by
  intro name hname
  obtain ⟨u, hu, hdenotes⟩ := h.denoted hname
  exact isName_of_scanFrom hts u (List.mem_append_left _ hu) name hdenotes.of_name

/-- A calculated field whose columns have flat names that are names is split into tokens. Those that
name metrics are the references of the formula in their order, and the metrics listed with the field
are those listed for the references: for a symbol its own, for a column the one whose symbol gives
the column. -/
theorem translate_mentions (h : translate depths formula = .ok ⟨some text, metrics⟩)
    (htree : parse depths formula = .ok tree)
    (hcolumns : ∀ flat given, .column flat given ∈ tree.mentions → IsName flat) :
    ∃ ts, tokenize text = .ok ts ∧
      ts.filterMap (fun u => u.lexeme.metric?) = tree.mentions.map Mention.name ∧
      metrics = (tree.mentions.filterMap Mention.listed?).eraseDups := by
  obtain ⟨body, p, hts, hwrites⟩ := parse_reads htree
  obtain ⟨hemit, rfl⟩ := emit_of_translate h htree
  have hends := hwrites.isFormula.regular.ends depths.nodes
  rw [hemit] at hends
  cases hends with
  | emitted hnone =>
      cases hwrites with
      | block => cases Expr.isEmitted_of_emit hemit
      | statement hfits hspells =>
          obtain ⟨ts, htext, hmetrics⟩ :=
            (hfits.retells ⟨hspells.namesWritten hts, hcolumns⟩ hemit).tokenized
          exact ⟨ts, htext, hmetrics, Expr.metrics_eq hnone⟩

/-- Columns given by a symbol and by a text, a column's flat name as a symbol, and a symbol that
occurs twice. -/
theorem translate_mentions_columns : ∃ tree ts,
    parse .least "min($goals[\"idgoal=2\"][$x], $y) - $goals_1_a * $goals[\"idgoal=1\"].a + $y" =
      .ok tree ∧
    tree.mentions = [.column "$goals_2_$x" (some "x"), .symbol "y", .symbol "goals_1_a",
      .column "$goals_1_a" none, .symbol "y"] ∧
    translate .least "min($goals[\"idgoal=2\"][$x], $y) - $goals_1_a * $goals[\"idgoal=1\"].a + $y" =
      .ok ⟨some "NARY_MIN($goals_2_$x, $y) - $goals_1_a * $goals_1_a + $y",
        ["x", "y", "goals_1_a"]⟩ ∧
    tokenize "NARY_MIN($goals_2_$x, $y) - $goals_1_a * $goals_1_a + $y" = .ok ts ∧
    ts.filterMap (fun u => u.lexeme.metric?) = tree.mentions.map Mention.name := by
  have htranslate :
      translate .least "min($goals[\"idgoal=2\"][$x], $y) - $goals_1_a * $goals[\"idgoal=1\"].a + $y" =
        .ok ⟨some "NARY_MIN($goals_2_$x, $y) - $goals_1_a * $goals_1_a + $y",
          ["x", "y", "goals_1_a"]⟩ := by
    decide +kernel
  have hmentions :
      (parse .least "min($goals[\"idgoal=2\"][$x], $y) - $goals_1_a * $goals[\"idgoal=1\"].a + $y").map
        Expr.mentions = .ok [.column "$goals_2_$x" (some "x"), .symbol "y", .symbol "goals_1_a",
          .column "$goals_1_a" none, .symbol "y"] := by
    decide +kernel
  obtain ⟨tree, htree, hlist⟩ := map_eq_ok hmentions
  have hcolumns : ∀ flat given, .column flat given ∈ tree.mentions → IsName flat := by
    intro flat given hmem
    rw [hlist] at hmem
    simp only [List.mem_cons, Mention.column.injEq, reduceCtorEq, List.not_mem_nil, or_false,
      false_or] at hmem
    rcases hmem with ⟨rfl, -⟩ | ⟨rfl, -⟩ <;> exact ⟨⟨_, _, rfl, by decide⟩, by decide⟩
  obtain ⟨ts, htext, hmetrics, -⟩ := translate_mentions htranslate htree hcolumns
  exact ⟨tree, ts, htree, hlist, htranslate, htext, hmetrics⟩

/-- The metric whose symbol gives a column is listed, though no token names it; a metric in the text
of a column is named, though it is not listed. -/
theorem translate_column_mentions :
    (∃ ts, translate .least "$goals[\"idgoal=1\"][$x]" = .ok ⟨some "$goals_1_$x", ["x"]⟩ ∧
      tokenize "$goals_1_$x" = .ok ts ∧ ∀ u ∈ ts, u.lexeme.metric? ≠ some "x") ∧
    ∃ ts, translate .least "$goals[\"idgoal=1\"][\"a + $y\"]" = .ok ⟨some "$goals_1_a + $y", []⟩ ∧
      tokenize "$goals_1_a + $y" = .ok ts ∧ ∃ u ∈ ts, u.lexeme = .name "$y" :=
  ⟨⟨[⟨.name "$goals_1_$x", 0⟩, ⟨.finish, 11⟩], by decide +kernel, by decide +kernel,
      by decide +kernel⟩,
    ⟨[⟨.name "$goals_1_a", 0⟩, ⟨.delimiter .plus, 11⟩, ⟨.name "$y", 13⟩, ⟨.finish, 15⟩],
      by decide +kernel, by decide +kernel, by decide +kernel⟩⟩

end MetricBridge.Formula
