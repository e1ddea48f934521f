import MetricBridge.Proofs.Formula.Grammatical

namespace MetricBridge.Formula

def operators : List Text :=
  ((Level.all.flatMap Level.joining) ++ Level.unaryTable ++ Level.powerTable ++
    Level.factorialTable).map (·.1)

theorem mem_operators {op : Text} {fn : Operation} {level : Level}
    (hop : (op, fn) ∈ level.joining) : op ∈ operators := by
  have hall : ∀ level ∈ Level.all, ∀ entry ∈ level.joining, entry.1 ∈ operators := by decide
  exact hall level (by cases level <;> decide) _ hop

inductive Terminal.IsGrammatical : Terminal → Prop
  | number {literal v} (hv : Rule.number literal = .ok v) : IsGrammatical (.number v)
  | string (value) : IsGrammatical (.string value)
  | name (value) : IsGrammatical (.name value)
  | key (value) : IsGrammatical (.key value)
  | mark (d) : IsGrammatical (.mark d)
  | operator {op} (hop : op ∈ operators) : IsGrammatical (.operator op)

theorem Terminal.IsGrammatical.exists_lexeme {m : Terminal} (h : m.IsGrammatical) :
    ∃ l : Lexeme, l.Denotes m := by
  cases h with
  | number hv => exact ⟨_, .number hv⟩
  | string => exact ⟨_, .string _⟩
  | name => exact ⟨_, .name _⟩
  | key => exact ⟨_, .bareKey _⟩
  | mark => exact ⟨_, .mark _⟩
  | @operator op hop =>
      have hall : ∀ op ∈ operators, op ≠ lit ";" ∧
          (isWordOperator op = true ∨ ∃ d ∈ Delimiter.all, d.spelling = op) := by
        decide
      obtain ⟨hne, hword | ⟨d, -, hd⟩⟩ := hall op hop
      · exact ⟨.name op, .operator (if_pos hword) hne⟩
      · exact ⟨.delimiter d, .operator (congrArg some hd) hne⟩

theorem Literal.IsWritten.grammatical {v : Literal} (h : v.IsWritten) :
    v.terminal.IsGrammatical := by
  obtain ⟨l, hl⟩ := h
  cases v with
  | int =>
      obtain ⟨literal, -, hv⟩ := hl.of_number
      exact .number hv
  | float =>
      obtain ⟨literal, -, hv⟩ := hl.of_number
      exact .number hv
  | string => exact .string _
  | bool b => cases b <;> exact .name _
  | null => exact .name _

theorem Lexeme.Denotes.eq_mark {d : Delimiter} {m : Terminal}
    (h : (Lexeme.delimiter d).Denotes m) (hm : m.IsGrammatical) (hd : d.spelling ∉ operators) :
    m = .mark d := by
  cases h with
  | mark => rfl
  | operator hop =>
      cases hm with
      | operator hmem =>
          cases hop
          exact absurd hmem hd

namespace Expr

variable {P : Terminal → Prop} {d : Delimiter}

theorem forall_markedBy {pieces : List (List Terminal)} (hd : P (.mark d))
    (h : ∀ ms ∈ pieces, ∀ m ∈ ms, P m) : ∀ m ∈ markedBy d pieces, P m := by
  cases pieces with
  | nil => nofun
  | cons ms pieces =>
      obtain ⟨hms, hpieces⟩ := List.forall_mem_cons.mp h
      rw [markedBy_cons]
      refine List.forall_mem_append.mpr ⟨hms, fun m hm => ?_⟩
      obtain ⟨ms', hms', hm⟩ := List.mem_flatMap.mp hm
      exact List.forall_mem_cons.mpr ⟨hd, hpieces ms' hms'⟩ m hm

theorem forall_pieces {es : List Expr} (h : ∀ e ∈ es, ∀ m ∈ e.terminals, P m) :
    ∀ ms ∈ pieces es, ∀ m ∈ ms, P m := by
  rw [pieces_eq_map]
  exact List.forall_mem_map.mpr h

theorem forall_bracketed {opening closing : Delimiter} {ms : List Terminal}
    (hopening : P (.mark opening)) (hclosing : P (.mark closing)) (h : ∀ m ∈ ms, P m) :
    ∀ m ∈ bracketed opening closing ms, P m :=
  List.forall_mem_append.mpr ⟨List.forall_mem_cons.mpr ⟨hopening, h⟩,
    List.forall_mem_singleton.mpr hclosing⟩

theorem forall_chained {links : List (Text × Operation × Expr)}
    (hops : ∀ k ∈ links, P (.operator k.1)) (h : ∀ k ∈ links, ∀ m ∈ k.2.2.terminals, P m) :
    ∀ m ∈ chained (links.map (·.1)) (pieces (links.map (·.2.2))), P m := by
  induction links with
  | nil => nofun
  | cons k links ih =>
      obtain ⟨hop, hops⟩ := List.forall_mem_cons.mp hops
      obtain ⟨hk, hlinks⟩ := List.forall_mem_cons.mp h
      exact List.forall_mem_append.mpr ⟨List.forall_mem_cons.mpr ⟨hop, hk⟩, ih hops hlinks⟩

variable {depth : Nat} {level : Level} {awaits : Bool} {e : Expr}

theorem Fits.grammatical (h : e.Fits depth level awaits) :
    ∀ m ∈ e.terminals, m.IsGrammatical := by
  have hbetween : ∀ {ms ms' : List Terminal} {k : Terminal}, (∀ m ∈ ms, m.IsGrammatical) →
      k.IsGrammatical → (∀ m ∈ ms', m.IsGrammatical) → ∀ m ∈ ms ++ k :: ms', m.IsGrammatical :=
    fun h hk h' => List.forall_mem_append.mpr ⟨h, List.forall_mem_cons.mpr ⟨hk, h'⟩⟩
  have hlist : ∀ {es : List Expr}, (∀ e ∈ es, ∀ m ∈ e.terminals, m.IsGrammatical) →
      ∀ m ∈ markedBy .comma (pieces es), m.IsGrammatical :=
    fun h => forall_markedBy (.mark _) (forall_pieces h)
  induction h with
  | tighter _ _ ih => exact ih
  | assignment _ _ _ iht ihv => exact hbetween iht (.mark _) ihv
  | @definition _ _ name params body _ _ iht ihb =>
      have hcall : (Expr.definition name params body).terminals =
          (Expr.call (.symbol name) (params.map .symbol)).terminals ++
            .mark .assign :: body.terminals := by
        simp [terminals, pieces_eq_map, Function.comp_def]
      rw [hcall]
      exact hbetween iht (.mark _) ihb
  | conditional _ _ _ ihc iht ihf => exact hbetween (hbetween ihc (.mark _) iht) (.mark _) ihf
  | join _ hop _ _ iha ihb => exact hbetween iha (.operator (mem_operators hop)) ihb
  | comparison hop _ _ iha ihb => exact hbetween iha (.operator (mem_operators hop)) ihb
  | comparisons _ _ hops _ ihfirst ihlinks =>
      exact List.forall_mem_append.mpr ⟨ihfirst,
        forall_chained (fun k hk => .operator (mem_operators (hops k hk))) ihlinks⟩
  | range _ _ iha ihb => exact forall_markedBy (.mark _) (by simpa [stepPieces] using ⟨iha, ihb⟩)
  | stepped _ _ _ iha ihs ihb =>
      exact forall_markedBy (.mark _) (by simpa [stepPieces] using ⟨iha, ihs, ihb⟩)
  | @sign _ _ op fn arg hop _ ih =>
      have hall : ∀ entry ∈ Level.unaryTable, entry.2 ≠ .factorial ∧ entry.1 ∈ operators := by
        decide
      obtain ⟨hfn, hmem⟩ := hall _ hop
      rw [terminals, if_neg hfn]
      exact List.forall_mem_cons.mpr ⟨.operator hmem, ih⟩
  | power hop _ _ iha ihb =>
      have hall : ∀ entry ∈ Level.powerTable, entry.1 ∈ operators := by decide
      exact hbetween iha (.operator (hall _ hop)) ihb
  | @factorial _ _ op fn arg hop _ ih =>
      have hall : ∀ entry ∈ Level.factorialTable, entry.2 = .factorial ∧ entry.1 ∈ operators := by
        decide
      obtain ⟨hfn, hmem⟩ := hall _ hop
      rw [terminals, if_pos hfn]
      exact hbetween ih (.operator hmem) (List.forall_mem_nil _)
  | call _ _ _ ihc iha =>
      exact List.forall_mem_append.mpr ⟨ihc, forall_bracketed (.mark _) (.mark _) (hlist iha)⟩
  | brackets _ _ _ ihb ihd =>
      rw [terminals, terminals_brackets]
      exact List.forall_mem_append.mpr ⟨ihb, forall_bracketed (.mark _) (.mark _) (hlist ihd)⟩
  | dot _ ih => exact hbetween ih (.mark _) (List.forall_mem_singleton.mpr (.name _))
  | constant hv => exact List.forall_mem_singleton.mpr hv.grammatical
  | symbol => exact List.forall_mem_singleton.mpr (.name _)
  | parenthesis _ ih => exact forall_bracketed (.mark _) (.mark _) ih
  | array _ ih => exact forall_bracketed (.mark _) (.mark _) (hlist ih)
  | @object _ _ properties _ ih =>
      refine forall_bracketed (.mark _) (.mark _) (forall_markedBy (.mark _) ?_)
      rw [propertyPieces_eq_map]
      exact List.forall_mem_map.mpr fun p hp =>
        List.forall_mem_cons.mpr ⟨.key _, List.forall_mem_cons.mpr ⟨.mark _, ih p hp⟩⟩

end Expr

def Denotable (ms : List Terminal) : Prop := ∀ m ∈ ms, ∃ l : Lexeme, l.Denotes m

theorem Expr.Fits.denotable {depth : Nat} {level : Level} {awaits : Bool} {e : Expr}
    (h : e.Fits depth level awaits) : Denotable e.terminals :=
  fun m hm => (h.grammatical m hm).exists_lexeme

end MetricBridge.Formula
