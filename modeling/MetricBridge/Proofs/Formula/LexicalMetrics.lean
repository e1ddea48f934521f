import MetricBridge.Proofs.Formula.Naming
import MetricBridge.Proofs.Formula.Denotable

namespace MetricBridge.Formula

def accessed : List Lexeme → Bool
  | .delimiter .openBracket :: _ => true
  | .delimiter .dot :: _ => true
  | _ => false

/-- The names with a dollar sign, without the sign, that are no part of an accessor. `pointed` says
whether a dot stands before. -/
def freeMetrics (pointed : Bool) : List Lexeme → List Text
  | [] => []
  | l :: ls =>
    (if pointed || accessed ls then none else l.metric?).toList ++
      freeMetrics (l = .delimiter .dot) ls

variable {m : Terminal} {ms ms' : List Terminal} {names names' : List Text} {based : Bool}
  {l : Lexeme} {ls rest : List Lexeme}

structure Terminal.IsQuiet (m : Terminal) : Prop where
  metric : ∀ {l : Lexeme}, l.Denotes m → l.metric? = none
  undotted : ∀ {l : Lexeme}, l.Denotes m → l ≠ .delimiter .dot

structure Terminal.IsApart (m : Terminal) : Prop extends m.IsQuiet where
  unbracketed : ∀ {l : Lexeme}, l.Denotes m → l ≠ .delimiter .openBracket

theorem Terminal.isQuiet_mark {d : Delimiter} (hd : d ≠ .dot) : (Terminal.mark d).IsQuiet where
  metric h := by rw [h.of_mark]; rfl
  undotted h := by rw [h.of_mark]; simpa using hd

theorem Terminal.isApart_mark {d : Delimiter} (hd : d ≠ .dot) (hd' : d ≠ .openBracket) :
    (Terminal.mark d).IsApart where
  toIsQuiet := isQuiet_mark hd
  unbracketed h := by rw [h.of_mark]; simpa using hd'

theorem Terminal.isApart_operator {op : Text} (hop : op ∈ operators) :
    (Terminal.operator op).IsApart where
  metric h := h.metric?_eq rfl
  undotted := by
    rintro l h rfl
    cases h.eq_mark (.operator hop) (by decide)
  unbracketed := by
    rintro l h rfl
    cases h.eq_mark (.operator hop) (by decide)

theorem Literal.isQuiet_terminal (v : Literal) : v.terminal.IsQuiet where
  metric h := by
    have hm : v.terminal.isKey = false ∧ v.terminal.metric? = none := by
      cases v with
      | bool b => cases b <;> exact ⟨rfl, by decide⟩
      | null => exact ⟨rfl, by decide⟩
      | _ => exact ⟨rfl, rfl⟩
    rw [h.metric?_eq hm.1, hm.2]
  undotted := by
    rintro l h rfl
    cases v with
    | bool b => cases b <;> cases h.of_name
    | null => cases h.of_name
    | string => cases h.of_string
    | int | float => obtain ⟨_, hl, -⟩ := h.of_number; cases hl

theorem accessed_cons (h : l ≠ .delimiter .dot) (h' : l ≠ .delimiter .openBracket) :
    accessed (l :: ls) = false := by
  unfold accessed
  split
  · rename_i heq
    exact absurd (List.cons.inj heq).1 h'
  · rename_i heq
    exact absurd (List.cons.inj heq).1 h
  · rfl

theorem freeMetrics_cons (hl : l.metric? = none) (hdot : l ≠ .delimiter .dot) (pointed : Bool) :
    freeMetrics pointed (l :: ls) = freeMetrics false ls := by
  rw [freeMetrics, hl, ite_self, decide_eq_false hdot]
  rfl

/-- The metrics named by lexemes for the symbols, in front of lexemes that make a name before them
the object of an accessor or do not. -/
def Tells (based : Bool) (ms : List Terminal) (names : List Text) : Prop :=
  ∀ ls rest, List.Forall₂ Lexeme.Denotes ls ms → accessed rest = based →
    freeMetrics false (ls ++ rest) = names ++ freeMetrics false rest

namespace Tells

theorem nil : Tells based [] [] := by
  intro ls rest hls _
  cases hls
  rfl

theorem behind (h : Tells based ms names) (hm : m.IsQuiet) : Tells based (m :: ms) names := by
  intro ls rest hls hrest
  cases hls with
  | cons hl hls =>
      rw [List.cons_append, freeMetrics_cons (hm.metric hl) (hm.undotted hl), h _ _ hls hrest]

theorem around {based' : Bool} (h : Tells based' ms names) (hm : m.IsQuiet)
    (haccess : ∀ {l : Lexeme} {us}, l.Denotes m → accessed (l :: us) = based')
    (h' : Tells based ms' names') : Tells based (ms ++ m :: ms') (names ++ names') := by
  intro ls rest hls hrest
  have hfirst := List.forall₂_take_append ls _ _ hls
  have hlast := List.forall₂_drop_append ls _ _ hls
  rw [← List.take_append_drop ms.length ls, List.append_assoc]
  generalize ls.drop ms.length = us at hlast ⊢
  cases hlast with
  | cons hl hus =>
      rw [List.cons_append, h _ _ hfirst (haccess hl),
        freeMetrics_cons (hm.metric hl) (hm.undotted hl), h' _ _ hus hrest, List.append_assoc]

theorem between (h : Tells false ms names) (hm : m.IsApart) (h' : Tells based ms' names') :
    Tells based (ms ++ m :: ms') (names ++ names') :=
  h.around hm.toIsQuiet (fun hl => accessed_cons (hm.undotted hl) (hm.unbracketed hl)) h'

theorem before (h : Tells false ms names) (hm : m.IsApart) : Tells based (ms ++ [m]) names := by
  have hend : Tells based [] [] := nil
  have hbetween := h.between hm hend
  rwa [List.append_nil] at hbetween

theorem bracketed {opening closing : Delimiter} (h : Tells false ms names) (ho : opening ≠ .dot)
    (hc : closing ≠ .dot) (hc' : closing ≠ .openBracket) :
    Tells based (Expr.bracketed opening closing ms) names :=
  (h.before (Terminal.isApart_mark hc hc')).behind (Terminal.isQuiet_mark ho)

theorem markedBy {d : Delimiter} {pieces : List (List Terminal)} {lists : List (List Text)}
    (hd : d ≠ .dot) (hd' : d ≠ .openBracket) (h : List.Forall₂ (Tells false) pieces lists) :
    Tells false (Expr.markedBy d pieces) lists.flatten := by
  induction h with
  | nil => exact nil
  | @cons ms names pieces lists hms hpieces ih =>
      cases hpieces with
      | nil => simpa using hms
      | cons =>
          rw [Expr.markedBy, List.intercalate_cons_cons, List.append_assoc, List.flatten_cons]
          exact hms.between (Terminal.isApart_mark hd hd') ih

theorem name (value : Text) : Tells false [.name value] (Expr.metricName? value).toList := by
  intro ls rest hls hrest
  cases hls with
  | cons hl hls =>
      cases hls
      rw [hl.of_name, List.cons_append, List.nil_append, freeMetrics, hrest,
        decide_eq_false (by nofun)]
      rfl

theorem object (value : Text) : Tells true [.name value] [] := by
  intro ls rest hls hrest
  cases hls with
  | cons hl hls =>
      cases hls
      rw [hl.of_name, List.cons_append, List.nil_append, freeMetrics, hrest,
        decide_eq_false (by nofun)]
      rfl

theorem dotted (value : Text) (h : Tells true ms names) :
    Tells based (ms ++ [.mark .dot, .name value]) names := by
  intro ls rest hls _
  have hfirst := List.forall₂_take_append ls _ _ hls
  have hlast := List.forall₂_drop_append ls _ _ hls
  rw [← List.take_append_drop ms.length ls, List.append_assoc]
  generalize ls.drop ms.length = us at hlast ⊢
  cases hlast with
  | cons hdot hlast =>
      cases hlast with
      | cons hname hlast =>
          cases hlast
          rw [hdot.of_mark, hname.of_name, List.cons_append, h _ _ hfirst rfl]
          rfl

end Tells

namespace Expr

variable {e c base subscript : Expr} {es : List Expr} {depth : Nat} {level : Level} {awaits : Bool}

def declares : Expr → Bool
  | object _ => true
  | definition .. => true
  | _ => false

def listed (based : Bool) (e : Expr) : List Text :=
  (freeSymbols based e.walk).filterMap metricName?

theorem listed_node (hnode : ∀ based es, freeSymbols based (e :: es) = freeSymbols false es) :
    e.listed based = e.children.flatMap (listed false) := by
  have h := freeSymbols_node hnode (fun c _ => c.unbases) based []
  rw [List.append_nil, freeSymbols, List.append_nil] at h
  rw [listed, h, List.filterMap_flatMap]
  rfl

theorem listed_accessor : (accessor base subscript).listed based =
    base.listed true ++ subscript.listed false := by
  have h := freeSymbols_accessor base.unbases subscript.unbases based []
  rw [List.append_nil, freeSymbols, List.append_nil] at h
  rw [listed, h, List.filterMap_append]
  rfl

def Retold (level : Level) (e : Expr) : Prop :=
  (∀ d ∈ e.walk, d.declares = false) → ∀ based, (based = true → level = .primary) →
    Tells based e.terminals (e.listed based)

theorem retold_of_loose (hl : level ≠ .primary)
    (h : (∀ d ∈ e.walk, d.declares = false) → Tells false e.terminals (e.listed false)) :
    e.Retold level := by
  intro hnone based hbased
  cases based with
  | false => exact h hnone
  | true => exact absurd (hbased rfl) hl

theorem Retold.child (h : c.Retold level) (hc : c ∈ e.children)
    (hnone : ∀ d ∈ e.walk, d.declares = false) : Tells false c.terminals (c.listed false) :=
  h (fun d hd => hnone d (mem_walk_of_child hc hd)) false nofun

theorem tells_pieces (h : ∀ c ∈ es, Tells false c.terminals (c.listed false)) :
    List.Forall₂ (Tells false) (pieces es) (es.map (listed false)) := by
  rw [pieces_eq_map, List.forall₂_map_left_iff, List.forall₂_map_right_iff]
  exact List.forall₂_same.mpr h

theorem tells_markedBy {d : Delimiter} (hd : d ≠ .dot) (hd' : d ≠ .openBracket)
    (h : ∀ c ∈ es, Tells false c.terminals (c.listed false)) :
    Tells false (markedBy d (pieces es)) (es.flatMap (listed false)) := by
  rw [List.flatMap_def]
  exact .markedBy hd hd' (tells_pieces h)

theorem retold_binary {op : Text} {fn : Operation} {left right : Expr} {level' level'' : Level}
    (hl : level ≠ .primary) (hop : op ∈ operators) (hleft : left.Retold level')
    (hright : right.Retold level'') : (operator op fn [left, right]).Retold level := by
  refine retold_of_loose hl fun hnone => ?_
  rw [listed_node fun _ _ => rfl]
  simp only [children, List.flatMap_cons, List.flatMap_nil, List.append_nil]
  exact (hleft.child (by simp [children]) hnone).between (Terminal.isApart_operator hop)
    (hright.child (by simp [children]) hnone)

theorem tells_chained {links : List (Text × Operation × Expr)}
    (hops : ∀ k ∈ links, (k.1, k.2.1) ∈ Level.relational.joining)
    (hlinks : ∀ k ∈ links, Tells false k.2.2.terminals (k.2.2.listed false)) (h : Tells false ms names) :
    Tells false (ms ++ chained (links.map (·.1)) (pieces (links.map (·.2.2))))
      (names ++ (links.map (·.2.2)).flatMap (listed false)) := by
  induction links generalizing ms names with
  | nil => simpa [chained] using h
  | cons k links ih =>
      obtain ⟨hop, hops⟩ := List.forall_mem_cons.mp hops
      obtain ⟨hk, hlinks⟩ := List.forall_mem_cons.mp hlinks
      have hmore := ih hops hlinks
        (h.between (Terminal.isApart_operator (mem_operators hop)) hk)
      simpa [chained, pieces] using hmore

theorem Fits.retold (h : e.Fits depth level awaits) : e.Retold level := by
  induction h with
  | tighter hl _ ih => exact retold_of_loose hl fun hnone => ih hnone false Bool.false_ne_true.elim
  | assignment _ _ _ iht ihv =>
      refine retold_of_loose (by decide) fun hnone => ?_
      rw [listed_node fun _ _ => rfl]
      simp only [children, List.flatMap_cons, List.flatMap_nil, List.append_nil]
      exact (iht.child (by simp [children]) hnone).between (Terminal.isApart_mark (by decide) (by decide))
        (ihv.child (by simp [children]) hnone)
  | definition | object => exact fun hnone => Bool.noConfusion (hnone _ (mem_walk_self _))
  | conditional _ _ _ ihc iht ihf =>
      refine retold_of_loose (by decide) fun hnone => ?_
      rw [listed_node fun _ _ => rfl]
      simp only [children, List.flatMap_cons, List.flatMap_nil, List.append_nil]
      rw [← List.append_assoc]
      exact ((ihc.child (by simp [children]) hnone).between
        (Terminal.isApart_mark (d := .question) (by decide) (by decide))
        (iht.child (by simp [children]) hnone)).between
        (Terminal.isApart_mark (d := .colon) (by decide) (by decide)) (ihf.child (by simp [children]) hnone)
  | @join _ level _ _ _ _ _ _ hop _ _ iha ihb =>
      refine retold_binary ?_ (mem_operators hop) iha ihb
      rintro rfl
      cases hop
  | comparison hop _ _ iha ihb => exact retold_binary (by decide) (mem_operators hop) iha ihb
  | power hop _ _ iha ihb =>
      have hall : ∀ entry ∈ Level.powerTable, entry.1 ∈ operators := by decide
      exact retold_binary (by decide) (hall _ hop) iha ihb
  | comparisons _ _ hops _ ihfirst ihlinks =>
      refine retold_of_loose (by decide) fun hnone => ?_
      rw [listed_node fun _ _ => rfl]
      exact tells_chained hops (fun k hk => (ihlinks k hk).child (by
        simp only [children, List.mem_cons, List.mem_map]
        exact .inr ⟨k, hk, rfl⟩) hnone) (ihfirst.child (by simp [children]) hnone)
  | @range _ first last _ _ iha ihb =>
      refine retold_of_loose (by decide) fun hnone => ?_
      have hparts : ∀ c ∈ [first, last], Tells false c.terminals (c.listed false) :=
        List.forall_mem_cons.mpr ⟨iha.child (by simp [children]) hnone,
          List.forall_mem_singleton.mpr (ihb.child (by simp [children]) hnone)⟩
      rw [listed_node fun _ _ => rfl]
      exact tells_markedBy (d := .colon) (by decide) (by decide) hparts
  | @stepped _ first step last _ _ _ iha ihs ihb =>
      refine retold_of_loose (by decide) fun hnone => ?_
      have hparts : ∀ c ∈ [first, step, last], Tells false c.terminals (c.listed false) :=
        List.forall_mem_cons.mpr ⟨iha.child (by simp [children]) hnone,
          List.forall_mem_cons.mpr ⟨ihs.child (by simp [children]) hnone,
            List.forall_mem_singleton.mpr (ihb.child (by simp [children]) hnone)⟩⟩
      rw [listed_node fun _ _ => rfl]
      exact tells_markedBy (d := .colon) (by decide) (by decide) hparts
  | @sign _ _ op fn arg hop _ ih =>
      have hall : ∀ entry ∈ Level.unaryTable, entry.2 ≠ .factorial ∧ entry.1 ∈ operators := by
        decide
      obtain ⟨hfn, hmem⟩ := hall _ hop
      refine retold_of_loose (by decide) fun hnone => ?_
      rw [listed_node fun _ _ => rfl, terminals, if_neg hfn]
      simp only [children, List.flatMap_cons, List.flatMap_nil, List.append_nil]
      exact (ih.child (by simp [children]) hnone).behind (Terminal.isApart_operator hmem).toIsQuiet
  | @factorial _ _ op fn arg hop _ ih =>
      have hall : ∀ entry ∈ Level.factorialTable, entry.2 = .factorial ∧ entry.1 ∈ operators := by
        decide
      obtain ⟨hfn, hmem⟩ := hall _ hop
      refine retold_of_loose (by decide) fun hnone => ?_
      rw [listed_node fun _ _ => rfl, terminals, if_pos hfn]
      simp only [children, List.flatMap_cons, List.flatMap_nil, List.append_nil]
      exact (ih.child (by simp [children]) hnone).before (Terminal.isApart_operator hmem)
  | call _ _ _ ihc iha =>
      intro hnone based _
      rw [listed_node fun _ _ => rfl]
      have hargs := tells_markedBy (d := .comma) (by decide) (by decide) fun a ha =>
        (iha a ha).child (by simp [children, ha]) hnone
      exact (ihc.child (by simp [children]) hnone).between
        (Terminal.isApart_mark (by decide) (by decide)) (hargs.before (Terminal.isApart_mark (by decide) (by decide)))
  | @brackets _ _ base dimensions _ _ _ ihb ihd =>
      intro hnone based _
      have hdimensions := tells_markedBy (d := .comma) (by decide) (by decide) fun a ha =>
        (ihd a ha).child (e := .index dimensions false) ha fun d hd =>
          hnone d (mem_walk_of_child (c := .index dimensions false) (by simp [children]) hd)
      rw [listed_accessor, terminals, terminals_brackets]
      rw [listed_node (e := .index dimensions false) fun _ _ => rfl]
      refine Tells.around (ihb (fun d hd => hnone d (mem_walk_of_child (by simp [children]) hd)) true
        fun _ => rfl) (Terminal.isQuiet_mark (by decide)) (fun hl => by rw [hl.of_mark]; rfl)
        (hdimensions.before (Terminal.isApart_mark (by decide) (by decide)))
  | @dot _ _ base name _ ih =>
      intro hnone based _
      have hbase := ih (fun d hd => hnone d (mem_walk_of_child (by simp [children]) hd)) true
        fun _ => rfl
      have hlisted : (accessor base (.index [.constant (.string name)] true)).listed based =
          base.listed true := by
        rw [listed_accessor]
        exact List.append_nil _
      rw [hlisted]
      exact hbase.dotted name
  | @constant _ _ v hv =>
      intro _ based _
      exact Tells.nil.behind (Literal.isQuiet_terminal v)
  | @symbol _ _ name =>
      intro _ based _
      cases based with
      | false => 
          have hlisted : (Expr.symbol name).listed false = (metricName? name).toList := by
            show [name].filterMap metricName? = _
            rw [List.filterMap_cons]
            cases metricName? name <;> rfl
          rw [hlisted]
          exact .name name
      | true => exact .object _
  | parenthesis _ ih =>
      intro hnone based _
      rw [listed_node fun _ _ => rfl]
      simp only [children, List.flatMap_cons, List.flatMap_nil, List.append_nil]
      exact (ih.child (by simp [children]) hnone).bracketed (by decide) (by decide) (by decide)
  | array _ ih =>
      intro hnone based _
      rw [listed_node fun _ _ => rfl]
      have hitems := tells_markedBy (d := .comma) (by decide) (by decide) fun a ha =>
        (ih a ha).child (by simp [children, ha]) hnone
      exact hitems.bracketed (by decide) (by decide) (by decide)

/-- What is accepted has no names besides those of symbols and accessors: columns of goals have none,
and objects and functions are refused. -/
theorem declares_eq_false (h : ∀ d ∈ e.outside, ¬ d.IsOffender) :
    ∀ d ∈ e.walk, d.declares = false := by
  induction e using children_induction with
  | node e ih =>
    rw [outside_eq] at h
    obtain ⟨hself, hbelow⟩ := List.forall_mem_cons.mp h
    by_cases ha : e.isAccessor = true
    · cases e with
      | accessor base subscript =>
          have hcolumn : (accessor base subscript).IsGoalColumn := by
            by_contra hnot
            exact hself (.accessor hnot)
          obtain ⟨-, hcolumn⟩ := hcolumn
          cases hcolumn <;> simp [walk_eq, children, declares]
      | _ => cases ha
    · rw [walk_eq]
      refine List.forall_mem_cons.mpr ⟨?_, fun d hd => ?_⟩
      · cases e with
        | object => exact absurd (.object _) hself
        | definition => exact absurd (.definition _ _ _) hself
        | _ => rfl
      · obtain ⟨c, hc, hd⟩ := List.mem_flatMap.mp hd
        refine ih c hc (fun o ho => hbelow o ?_) d hd
        rw [outsideBelow, if_neg ha]
        exact List.mem_flatMap.mpr ⟨c, hc, ho⟩

end Expr

variable {n : Nat} {ts : List Token} {t formula : Text} {field : CalculatedField}
  {depths : Depths}

theorem Spells.denotes (h : Spells n ts ms) : List.Forall₂ Lexeme.Denotes
    ((ts.map Token.lexeme).filter (· ≠ .newline)) ms := by
  induction h with
  | nil => exact .nil
  | feed _ ht _ ih => simpa [ht] using ih
  | cons ht _ ih =>
      rw [List.map_cons, List.filter_cons_of_pos (by simpa using ht.ne_newline)]
      exact .cons ht ih

theorem scans_of_blank (h : ∀ c ∈ t, c.isBlank = true) :
    ∃ ls, Scans t ls [] ∧ ∀ l ∈ ls, l = .newline := by
  induction t with
  | nil => exact ⟨[], .stop [], nofun⟩
  | cons c t ih =>
      obtain ⟨hc, ht⟩ := List.forall_mem_cons.mp h
      obtain ⟨ls, hls, hall⟩ := ih ht
      by_cases hfeed : c = .scalar '\n'
      · exact ⟨.newline :: ls, hfeed ▸ .feed hls, List.forall_mem_cons.mpr ⟨rfl, hall⟩⟩
      · exact ⟨ls, .blank hc hfeed hls, hall⟩

/-- The metrics of a calculated field are the names with a dollar sign in the formula that stand
neither behind a dot nor in front of a dot or a bracket, in their order and each one once. -/
theorem translate_lexical (h : translate depths formula = .ok field) :
    ∃ ts, tokenize formula = .ok ts ∧ field.metrics =
      (freeMetrics false ((ts.map Token.lexeme).filter (· ≠ .newline))).eraseDups := by
  by_cases hblank : formula.trim.isEmpty = true
  · obtain ⟨ls, hls, hfeeds⟩ := scans_of_blank (blank_of_trim hblank)
    obtain ⟨body, p, hts, rfl⟩ := tokenize_iff.mpr hls
    have hnone : (body.map Token.lexeme).filter (· ≠ .newline) = [] := by
      simpa [List.filter_eq_nil_iff] using hfeeds
    unfold translate at h
    rw [if_pos hblank] at h
    cases h
    refine ⟨_, hts, ?_⟩
    rw [List.map_append, List.filter_append, hnone]
    rfl
  · unfold translate at h
    rw [if_neg hblank] at h
    split at h
    · cases h
    · rename_i tree htree
      split at h
      · cases h
      · rename_i text hemit
        cases h
        obtain ⟨body, p, hts, hwrites⟩ := parse_reads htree
        have hends := hwrites.isFormula.regular.ends depths.nodes
        rw [hemit] at hends
        cases hends with
        | emitted hnone =>
            cases hwrites with
            | block => cases Expr.isEmitted_of_emit hemit
            | statement hfits hspells =>
                refine ⟨_, hts, congrArg List.eraseDups ?_⟩
                have htells := hfits.retold (Expr.declares_eq_false hnone) false nofun
                rw [List.map_append, List.filter_append, htells _ _ hspells.denotes rfl]
                exact (List.append_nil _).symm

/-- Symbols in a call and twice, a column given by a symbol, a line feed between names, and names in
accessors. -/
theorem translate_lexical_goals : ∃ ts,
    translate .least "min($a,\n$goals[\"idgoal=1\"][$b]) + $a * $goals[\"idgoal=2\"].$c" =
      .ok ⟨some "NARY_MIN($a, $goals_1_$b) + $a * $goals_2_$c", ["a", "b"]⟩ ∧
    tokenize "min($a,\n$goals[\"idgoal=1\"][$b]) + $a * $goals[\"idgoal=2\"].$c" = .ok ts ∧
    [lit "a", lit "b"] =
      (freeMetrics false ((ts.map Token.lexeme).filter (· ≠ .newline))).eraseDups := by
  have htranslate :
      translate .least "min($a,\n$goals[\"idgoal=1\"][$b]) + $a * $goals[\"idgoal=2\"].$c" =
        .ok ⟨some "NARY_MIN($a, $goals_1_$b) + $a * $goals_2_$c", ["a", "b"]⟩ := by
    decide +kernel
  obtain ⟨ts, hts, hmetrics⟩ := translate_lexical htranslate
  exact ⟨ts, htranslate, hts, hmetrics⟩

end MetricBridge.Formula
