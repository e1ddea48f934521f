import MetricBridge.Proofs.Formula.Denotable
import MetricBridge.Proofs.Formula.RuleCompleteness
import MetricBridge.Proofs.Formula.Statements

namespace MetricBridge.Formula

variable {depth n : Nat} {level : Level} {awaits : Bool} {e : Expr} {es : List Expr}

/-- The loosest level that may take in what stands behind the tree. Behind the colon of a
conditional stands an assignment. -/
def Level.reach : Level → Expr → Level
  | .conditional, .conditional .. => .assignment
  | level, _ => level

theorem Level.reach_rank_le (level : Level) (e : Expr) : (level.reach e).rank ≤ level.rank := by
  unfold reach
  split
  · decide
  · exact Nat.le_refl _

def Level.joins : Level → Bool
  | or | xor | and | bitOr | bitXor | bitAnd | shift | conversion | additive | multiplicative => true
  | _ => false

namespace Level

variable (h : level.joins = true)

include h

theorem reach_of_joins (e : Expr) : level.reach e = level := by
  cases level <;> first | rfl | cases h

theorem next_reach_of_joins (e : Expr) : level.next.reach e = level.next := by
  cases level <;> first | rfl | cases h

theorem next_ne_primary_of_joins : level.next ≠ .primary := by
  cases level <;> first | decide | cases h

theorem rank_lt_next_of_joins : level.rank < level.next.rank := by
  cases level <;> first | decide | cases h

theorem ne_range_of_joins : level ≠ .range := by
  rintro rfl
  cases h

end Level

namespace Rule

theorem ofLevel_joined (h : level.joins = true) (depth : Nat) :
    ofLevel (depth + 1) level = joined (ofLevel depth level.next) level.joining := by
  cases level <;> first | rfl | cases h

/-- What the rules make of a tree of the level. Where a level repeats behind an operand, they go on
with the tree as the operand so far. -/
def ReadsBack (depth : Nat) (level : Level) (awaits : Bool) (e : Expr) : Prop :=
  match level with
  | .primary => (accessed (ofLevel depth .primary) (ofLevel depth .assignment)).Resumes
      (accessorsOnto (ofLevel depth .assignment)) Anything awaits e
  | .factorial => (ofLevel depth .factorial).Resumes factorialLoop (Stops .primary) awaits e
  | level =>
    if level.joins then (ofLevel depth level).Resumes
      (joinOnto (ofLevel (depth - 1) level.next) level.joining) (Stops level.next) awaits e
    else (ofLevel depth level).Returns (Stops (level.reach e)) awaits e

theorem readsBack_joined (h : level.joins = true) : ReadsBack depth level awaits e ↔
    (ofLevel depth level).Resumes
      (joinOnto (ofLevel (depth - 1) level.next) level.joining) (Stops level.next) awaits e := by
  cases level <;> first | exact Iff.rfl | cases h

theorem ReadsBack.returns (h : ReadsBack depth level awaits e) (hl : level ≠ .primary) :
    (ofLevel depth level).Returns (Stops (level.reach e)) awaits e := by
  by_cases hj : level.joins = true
  · rw [Level.reach_of_joins hj]
    refine ((readsBack_joined hj).mp h).returns (fun s fuel => ?_) fun s ts hstop =>
      hstop.mono level.rank_le_next
    exact joinOnto_stopped _ (Level.ne_range_of_joins hj) s fuel e
  · cases level with
    | primary => exact absurd rfl hl
    | factorial =>
        have hloop : ∀ s fuel ts, Stops .factorial s ts → factorialLoop s fuel e ts = .ok (e, ts) :=
          fun s fuel ts hstop => congrArg Except.ok (factorialsOnto_stopped s fuel e ts hstop)
        exact Resumes.returns h hloop fun s ts (hstop : Stops .factorial s ts) =>
          hstop.mono (by decide)
    | assignment | conditional | relational | range | unary | power => exact h
    | _ => exact absurd rfl hj

theorem readsBack_tighter (hl : level ≠ .primary) (he : e.Fits depth level.next awaits)
    (ih : ReadsBack depth level.next awaits e) : ReadsBack (depth + 1) level awaits e := by
  by_cases hj : level.joins = true
  · have hoperand := ih.returns (Level.next_ne_primary_of_joins hj)
    rw [Level.next_reach_of_joins hj] at hoperand
    rw [readsBack_joined hj, ofLevel_joined hj]
    exact joined_resumes_operand hoperand
  · cases level with
    | assignment =>
        exact assignment_passes ((ih.returns nofun).mono fun s ts h => h.mono (Nat.zero_le _))
    | conditional =>
        refine Returns.mono (conditional_passes (ih.returns nofun)) fun s ts h => ?_
        exact h.mono (Level.reach_rank_le _ e)
    | relational => exact relational_returns [] (ih.returns nofun) nofun nofun
    | range => exact range_passes (ih.returns nofun)
    | unary => exact unary_passes (ih.returns nofun) he.begun
    | power => exact power_passes (ih.returns nofun)
    | factorial => exact factorial_resumes_operand ih
    | primary => exact absurd rfl hl
    | _ => exact absurd rfl hj

theorem readsBack_join {op : Text} {fn : Operation} {left right : Expr} (hl : level ≠ .relational)
    (hop : (op, fn) ∈ level.joining) (ihl : ReadsBack (depth + 1) level awaits left)
    (ihr : ReadsBack depth level.next awaits right) :
    ReadsBack (depth + 1) level awaits (.operator op fn [left, right]) := by
  have hj : level.joins = true := by
    cases level <;> first | rfl | exact absurd rfl hl | cases hop
  have hoperand := ihr.returns (Level.next_ne_primary_of_joins hj)
  rw [Level.next_reach_of_joins hj] at hoperand
  rw [readsBack_joined hj, ofLevel_joined hj] at ihl ⊢
  exact joined_resumes (OperatorTable.find?_of_mem level.joining_nodup hop)
    (level.mem_behind _ hop) (Level.rank_lt_next_of_joins hj) ihl hoperand

theorem mapM_symbol {f : Expr → Option Text} (hf : ∀ name, f (.symbol name) = some name)
    (params : List Text) : (params.map Expr.symbol).mapM f = some params := by
  induction params with
  | nil => rfl
  | cons param params ih => simp [List.mapM_cons, hf, ih]

theorem assign?_params (name : Text) (params : List Text) (value : Expr) :
    assign? (.call (.symbol name) (params.map .symbol)) value =
      some (.definition name params value) :=
  congrArg (Option.map _) (mapM_symbol (fun _ => rfl) params)

theorem readsBack (h : e.Fits depth level awaits) : ReadsBack depth level awaits e := by
  induction h with
  | tighter hl he ih => exact readsBack_tighter hl he ih
  | @assignment _ _ target value hs _ _ iht ihv =>
      have hreach : Level.conditional.reach target = .conditional := by
        cases target <;> first | rfl | cases hs
      have hassign : assign? target value = some (.assignment target value) := by
        cases target <;> first | rfl | cases hs
      have htarget := iht.returns nofun
      rw [hreach] at htarget
      exact assignment_returns htarget (ihv.returns nofun) hassign rfl
  | definition _ _ iht ihb =>
      refine assignment_returns (iht.returns nofun) (ihb.returns nofun) (assign?_params _ _ _) ?_
      simp [Expr.terminals, Expr.pieces_eq_map, Function.comp_def]
  | conditional _ _ _ ihc iht ihf =>
      exact conditional_returns (ihc.returns nofun) (iht.returns nofun) (ihf.returns nofun)
  | join hl hop _ _ iha ihb => exact readsBack_join hl hop iha ihb
  | @comparison _ _ op fn left right hop _ _ iha ihb =>
      exact relational_returns [(op, fn, right)] (iha.returns nofun)
        (List.forall_mem_singleton.mpr hop) (List.forall_mem_singleton.mpr (ihb.returns nofun))
  | @comparisons _ _ first links hlen _ hops _ ihfirst ihlinks =>
      have hcompared := relational_returns links (ihfirst.returns nofun) hops
        fun k hk => (ihlinks k hk).returns nofun
      match links, hlen with
      | _ :: _ :: _, _ => exact hcompared
  | range _ _ iha ihb => exact range_returns (iha.returns nofun) (ihb.returns nofun)
  | stepped _ _ _ iha ihs ihb =>
      exact range_returns_step (iha.returns nofun) (ihs.returns nofun) (ihb.returns nofun)
  | sign hop _ ih => exact unary_returns hop (ih.returns nofun)
  | power hop _ _ iha ihb => exact power_returns hop (iha.returns nofun) (ihb.returns nofun)
  | factorial hop _ ih => exact factorial_resumes hop ih
  | call hs _ ha ihc iha =>
      exact accessed_resumes_call hs ihc (fun a h => (iha a h).returns nofun)
        fun a h => (ha a h).begun
  | brackets hne _ hd ihb ihd =>
      exact accessed_resumes_brackets hne ihb (fun a h => (ihd a h).returns nofun)
        fun a h => (hd a h).begun
  | dot _ ih => exact accessed_resumes_dot ih
  | constant _ => exact accessed_resumes_operand (primary_returns_constant _)
  | symbol hw hc => exact accessed_resumes_operand (primary_returns_symbol hw hc)
  | parenthesis _ ih =>
      exact accessed_resumes_operand (primary_returns_parenthesis (ih.returns nofun))
  | array hi ih =>
      exact accessed_resumes_operand (primary_returns_array (fun a h => (ih a h).returns nofun)
        fun a h => (hi a h).begun)
  | object _ ih =>
      exact accessed_resumes_operand (primary_returns_object fun p h => (ih p h).returns nofun)

variable {item : Rule} {free seen : Bool} {ts : List Token} {p : Nat}

theorem stops_sequence (h : Sequence false ts es seen) :
    Stops level .outermost (ts ++ [⟨.finish, p⟩]) := by
  cases h with
  | done => exact .of_none rfl
  | @separator _ t ts _ _ ht _ =>
      obtain ⟨l, q⟩ := t
      cases l with
      | newline => exact .of_none rfl
      | delimiter d => cases d with
          | semicolon =>
              refine .of_operator rfl fun k hk => ?_
              cases hk
          | _ => cases ht
      | _ => cases ht

theorem statements_eq (hi : ∀ e ∈ es, item.Returns (Stops .assignment) false e)
    (hb : ∀ e ∈ es, Begun .assignment e.terminals) (h : Sequence free ts es seen) {fuel : Nat}
    (hfuel : ts.length < fuel) :
    statements item free fuel (ts ++ [⟨.finish, p⟩]) = .ok (es, seen, [⟨.finish, p⟩]) := by
  induction h generalizing fuel with
  | done free =>
      cases fuel with
      | zero => cases hfuel
      | succ fuel => rfl
  | @separator free t ts es seen ht h ih =>
      cases fuel with
      | zero => cases hfuel
      | succ fuel =>
          have hrest := ih hi hb (Nat.lt_of_succ_lt_succ hfuel)
          obtain ⟨l, q⟩ := t
          unfold statements
          cases l with
          | newline => simp [front, passed, hrest, Except.map]
          | delimiter d => cases d with
              | semicolon => simp [front, passed, hrest, Except.map]
              | _ => cases ht
          | _ => cases ht
  | @statement us ts e es seen hu h ih =>
      obtain ⟨he, hi⟩ := List.forall_mem_cons.mp hi
      obtain ⟨hbegun, hb⟩ := List.forall_mem_cons.mp hb
      cases fuel with
      | zero => cases hfuel
      | succ fuel =>
          have hlen : 0 < us.length := by
            obtain ⟨m, ms, hms, -⟩ := hbegun
            have hspelled := hu.length_le
            rw [hms, List.length_cons] at hspelled
            omega
          have hrest := ih hi hb (show ts.length < fuel by rw [List.length_append] at hfuel; omega)
          have hread := he (s := .outermost) rfl rfl hu (stops_sequence (p := p) h)
          have hsemicolon : (front (us ++ (ts ++ [⟨.finish, p⟩]))).lexeme ≠ .delimiter .semicolon :=
            hbegun.front_ne (s := .outermost) hu rfl rfl
          obtain ⟨m, ms, hms, -⟩ := hbegun
          rw [hms] at hu
          obtain ⟨t, us', ht, -, -, hsettle⟩ := hu.settled (s := .outermost) rfl
          have hfront : (front (us ++ (ts ++ [⟨.finish, p⟩]))).lexeme = t.lexeme :=
            congrArg (fun us => (front us).lexeme) (hsettle _)
          rw [List.append_assoc]
          unfold statements
          split
          · rename_i hfinish
            exact absurd (hfront.symm.trans hfinish) ht.ne_finish
          · rename_i hnewline
            exact absurd (hfront.symm.trans hnewline) ht.ne_newline
          · rename_i heq
            exact absurd heq hsemicolon
          · simp [hread, hrest, Except.map]

theorem block_eq (hi : ∀ e ∈ es, item.Returns (Stops .assignment) false e)
    (hb : ∀ e ∈ es, Begun .assignment e.terminals) (h : Sequence true ts es seen) :
    block item (ts ++ [⟨.finish, p⟩]) = match es, seen with
      | [], _ => fail .unexpectedEnd ⟨.finish, p⟩
      | [e], false => .ok (e, [⟨.finish, p⟩])
      | es, _ => .ok (.block es, [⟨.finish, p⟩]) := by
  unfold block
  rw [statements_eq hi hb h (by rw [List.length_append]; omega)]
  match es, seen with
  | [], _ => rfl
  | [_], false => rfl
  | [_], true => rfl
  | _ :: _ :: _, _ => rfl

end Rule

/-- The parser gives a tree for some tokens exactly if they are those of the tree as a formula. -/
theorem parseTokens_eq_ok_iff {body : List Token} {p : Nat}
    (hbody : ∀ t ∈ body, t.lexeme ≠ .finish) :
    parseTokens depth (body ++ [⟨.finish, p⟩]) = .ok e ↔ Writes depth body e := by
  refine ⟨parseTokens_reads hbody, fun h => ?_⟩
  unfold parseTokens
  cases h with
  | statement hf h =>
      have hsequence : Sequence true body [e] false := by
        simpa using Sequence.statement h (.done false)
      have hread := (Rule.readsBack hf).returns nofun
      rw [Rule.block_eq (List.forall_mem_singleton.mpr hread)
        (List.forall_mem_singleton.mpr hf.begun) hsequence]
      rfl
  | @block es hne hf h =>
      have hread : ∀ e ∈ es, (Rule.ofLevel depth .assignment).Returns (Stops .assignment) false e :=
        fun e he => (Rule.readsBack (hf e he)).returns nofun
      rw [Rule.block_eq hread (fun e he => (hf e he).begun) h]
      match es, hne with
      | [_], _ => rfl
      | _ :: _ :: _, _ => rfl

/-- The tree is one statement, or a block of two statements at least. -/
inductive Expr.IsProper (depth : Nat) : Expr → Prop
  | statement {e : Expr} (h : e.Fits depth .assignment false) : IsProper depth e
  | block {es : List Expr} (hlen : 2 ≤ es.length) (h : ∀ e ∈ es, e.Fits depth .assignment false) :
      IsProper depth (.block es)

theorem Expr.IsProper.mono {depth' : Nat} (h : e.IsProper depth) (hd : depth ≤ depth') :
    e.IsProper depth' := by
  cases h with
  | statement h => exact .statement (h.mono hd)
  | block hlen h => exact .block hlen fun e he => (h e he).mono hd

theorem Spells.sequence {ts : List Token} (hne : es ≠ [])
    (h : Spells 0 ts (Expr.markedBy .semicolon (Expr.pieces es))) :
    Sequence true ts es (decide (2 ≤ es.length)) := by
  induction es generalizing ts with
  | nil => exact absurd rfl hne
  | cons e es ih =>
      cases es with
      | nil =>
          have hts : Spells 0 ts e.terminals := by simpa [Expr.pieces] using h
          simpa using Sequence.statement hts (.done false)
      | cons e' es =>
          rw [Expr.pieces, Expr.pieces, Expr.markedBy, List.intercalate_cons_cons,
            List.append_assoc] at h
          obtain ⟨us, us', rfl, hus, hus'⟩ := h.part
          obtain ⟨feeds, t, vs, rfl, -, hnone, ht, hvs⟩ := Spells.uncons hus'
          have hrest := ih (List.cons_ne_nil e' es) hvs
          have hseparates : t.lexeme.separates = true := by rw [ht.of_mark]; rfl
          rw [hnone rfl]
          exact .statement hus (.separator hseparates hrest)

theorem Expr.IsProper.writes {ts : List Token} (he : e.IsProper depth)
    (h : Spells 0 ts e.terminals) : Writes depth ts e := by
  cases he with
  | statement hf => exact .statement hf h
  | @block es hlen hf =>
      have hne : es ≠ [] := by
        rintro rfl
        cases hlen
      have hsequence := Spells.sequence hne h
      rw [decide_eq_true hlen] at hsequence
      exact .block hne hf hsequence

theorem Expr.IsProper.denotable (h : e.IsProper depth) : Denotable e.terminals := by
  cases h with
  | statement h => exact h.denotable
  | block _ h =>
      exact Expr.forall_markedBy ⟨_, .mark _⟩ (Expr.forall_pieces fun e he => (h e he).denotable)

theorem Denotable.exists_lexemes {ms : List Terminal} (h : Denotable ms) :
    ∃ ls, List.Forall₂ Lexeme.Denotes ls ms := by
  induction ms with
  | nil => exact ⟨[], .nil⟩
  | cons m ms ih =>
      obtain ⟨⟨l, hl⟩, hms⟩ := List.forall_mem_cons.mp h
      obtain ⟨ls, hls⟩ := ih hms
      exact ⟨l :: ls, .cons hl hls⟩

theorem Expr.IsProper.parse_eq {ts : List Token} (he : e.IsProper depth)
    (h : List.Forall₂ Lexeme.Denotes (ts.map Token.lexeme) e.terminals) (p : Nat) :
    parseTokens depth (ts ++ [⟨.finish, p⟩]) = .ok e := by
  have hwrites := he.writes (.of_forall₂ h)
  exact (parseTokens_eq_ok_iff hwrites.ne_finish).mpr hwrites

/-- A tree that respects the levels of the grammar can be written down, and the parser gives it back
from its symbols in their order, with one semicolon between statements. No other tree is written by
the same tokens. -/
theorem parseTokens_complete (he : e.IsProper depth) :
    (∃ ls, List.Forall₂ Lexeme.Denotes ls e.terminals) ∧
      ∀ ts p, List.Forall₂ Lexeme.Denotes (ts.map Token.lexeme) e.terminals →
        parseTokens depth (ts ++ [⟨.finish, p⟩]) = .ok e ∧
          ∀ depth' e', e'.IsProper depth' →
            List.Forall₂ Lexeme.Denotes (ts.map Token.lexeme) e'.terminals → e' = e := by
  refine ⟨he.denotable.exists_lexemes, fun ts p h => ⟨he.parse_eq h p, fun depth' e' he' h' => ?_⟩⟩
  -- both trees are parsed at the larger one of the depths
  have hread := (he.mono (Nat.le_max_left depth depth')).parse_eq h p
  have hread' := (he'.mono (Nat.le_max_right depth depth')).parse_eq h' p
  rw [hread] at hread'
  exact (Except.ok.inj hread').symm

/-- In `a ? (1:2) : b ? {k: 3:4:5} : c` each colon goes to its range, property or conditional. -/
theorem parseTokens_complete_colons :
    parseTokens 60 (([.name "a", .delimiter .question, .delimiter .openParen, .number "1",
        .delimiter .colon, .number "2", .delimiter .closeParen, .delimiter .colon, .name "b",
        .delimiter .question, .delimiter .openBrace, .name "k", .delimiter .colon, .number "3",
        .delimiter .colon, .number "4", .delimiter .colon, .number "5", .delimiter .closeBrace,
        .delimiter .colon, .name "c"] : List Lexeme).map (⟨·, 0⟩) ++ [⟨.finish, 0⟩]) =
      .ok (.conditional (.symbol "a")
        (.parenthesis (.range (.constant (.int 1)) none (.constant (.int 2))))
        (.conditional (.symbol "b")
          (.object [("k", .range (.constant (.int 3)) (some (.constant (.int 4)))
            (.constant (.int 5)))])
          (.symbol "c"))) := by
  have hnumber : ∀ (literal : Text) {i : Int}, Rule.number literal = .ok (.int i) →
      Expr.Fits 6 .additive false (.constant (.int i)) := by
    intro literal i h
    have hconstant : Expr.Fits 1 .primary false (.constant (.int i)) := .constant ⟨_, .number h⟩
    exact hconstant.loosen (k := 5) rfl
  have hsymbol : ∀ (name : Text) (level : Level), isWordOperator name = false →
      Rule.namedConstant? name = none → Expr.Fits 20 level false (.symbol name) := by
    intro name level hw hc
    have hprimary : Expr.Fits 1 .primary false (.symbol name) := .symbol hw hc
    have hl := level.rank_le
    exact (hprimary.loosen (Nat.add_sub_cancel' hl)).mono (by change 1 + (17 - _) ≤ 20; omega)
  have hrange : Expr.Fits 18 .assignment false
      (.range (.constant (.int 1)) none (.constant (.int 2))) :=
    (Expr.Fits.range (hnumber "1" rfl) (hnumber "2" rfl)).loosen (k := 11) rfl
  have hsteps : Expr.Fits 18 .assignment false
      (.range (.constant (.int 3)) (some (.constant (.int 4))) (.constant (.int 5))) :=
    (Expr.Fits.stepped (hnumber "3" rfl) (hnumber "4" rfl) (hnumber "5" rfl)).loosen (k := 11) rfl
  have hobject : Expr.Fits 36 .assignment true (.object [("k", .range (.constant (.int 3))
      (some (.constant (.int 4))) (.constant (.int 5)))]) :=
    .loosen (k := 17) (.object (List.forall_mem_singleton.mpr hsteps)) rfl
  have hgroup : Expr.Fits 36 .assignment true
      (.parenthesis (.range (.constant (.int 1)) none (.constant (.int 2)))) :=
    .loosen (k := 17) (.parenthesis hrange) rfl
  have hbranch := Expr.Fits.conditional ((hsymbol "b" .or rfl rfl).mono (by decide)) hobject
    ((hsymbol "c" .assignment rfl rfl).mono (by decide))
  have htree := Expr.Fits.conditional ((hsymbol "a" .or rfl rfl).mono (by decide))
    (hgroup.mono (by decide)) (.tighter nofun hbranch)
  have hproper := (Expr.IsProper.statement (htree.tighter nofun)).mono (show 40 ≤ 60 by decide)
  refine ((parseTokens_complete hproper).2 _ 0 ?_).1
  exact .cons (.name _) (.cons (.mark _) (.cons (.mark _) (.cons (.number rfl) (.cons (.mark _)
    (.cons (.number rfl) (.cons (.mark _) (.cons (.mark _) (.cons (.name _) (.cons (.mark _)
    (.cons (.mark _) (.cons (.bareKey _) (.cons (.mark _) (.cons (.number rfl) (.cons (.mark _)
    (.cons (.number rfl) (.cons (.mark _) (.cons (.number rfl) (.cons (.mark _) (.cons (.mark _)
    (.cons (.name _) .nil))))))))))))))))))))

end MetricBridge.Formula
