import MetricBridge.Proofs.Formula.Statements
import MetricBridge.Proofs.Formula.Walk

namespace MetricBridge.Formula.Expr

inductive IsWrittenAs : Expr → List Terminal → Prop
  | plain (e : Expr) : IsWrittenAs e e.terminals
  | dotted (name : Text) : IsWrittenAs (.constant (.string name)) [.name name]

/-- The symbols are those of the trees in their order, with others around them. -/
inductive Interleaved : List Terminal → List Expr → Prop
  | nil : Interleaved [] []
  | own {m ms es} (h : Interleaved ms es) : Interleaved (m :: ms) es
  | tree {part ms e es} (he : e.IsWrittenAs part) (h : Interleaved ms es) :
      Interleaved (part ++ ms) (e :: es)

/-- The node has the parts that nodes of formulas have: an operator has operands, a chain has a
comparison between neighbouring operands, and a block has statements. -/
def IsComplete : Expr → Prop
  | operator _ _ args => args ≠ []
  | relational _ params ops => params.length = ops.length + 1
  | block statements => statements ≠ []
  | foreign _ => False
  | _ => True

variable {e : Expr} {es : List Expr} {ms ms' : List Terminal} {depth : Nat} {level : Level}
  {awaits : Bool}

namespace Interleaved

theorem append {es' : List Expr} (h : Interleaved ms es) (h' : Interleaved ms' es') :
    Interleaved (ms ++ ms') (es ++ es') := by
  induction h with
  | nil => exact h'
  | own _ ih => exact .own ih
  | tree he _ ih =>
      rw [List.append_assoc]
      exact .tree he ih

theorem owns (ms : List Terminal) : Interleaved ms [] := by
  induction ms with
  | nil => exact .nil
  | cons m ms ih => exact .own ih

theorem before (h : Interleaved ms es) (ms' : List Terminal) : Interleaved (ms ++ ms') es := by
  have hall := h.append (owns ms')
  rwa [List.append_nil] at hall

theorem single (e : Expr) : Interleaved e.terminals [e] := by
  have h := Interleaved.tree (.plain e) .nil
  rwa [List.append_nil] at h

theorem bracketed {opening closing : Delimiter} (h : Interleaved ms es) :
    Interleaved (Expr.bracketed opening closing ms) es := h.own.before _

theorem intercalate (separator : List Terminal) {parts : List (List Terminal)}
    {lists : List (List Expr)} (h : List.Forall₂ Interleaved parts lists) :
    Interleaved (List.intercalate separator parts) lists.flatten := by
  induction h with
  | nil => exact .nil
  | @cons part list parts lists hpart hparts ih =>
      cases hparts with
      | nil => simpa using hpart
      | cons =>
          rw [List.intercalate_cons_cons, List.append_assoc]
          exact hpart.append ((owns separator).append ih)

theorem pieces (separator : List Terminal) (es : List Expr) :
    Interleaved (List.intercalate separator (Expr.pieces es)) es := by
  have hall : List.Forall₂ Interleaved (Expr.pieces es) (es.map fun e => [e]) := by
    rw [pieces_eq_map, List.forall₂_map_left_iff, List.forall₂_map_right_iff]
    exact List.forall₂_same.mpr fun e _ => single e
  have h := intercalate separator hall
  rwa [← List.flatMap_def, List.flatMap_singleton'] at h

theorem properties (separator : List Terminal) (ps : List (Text × Expr)) :
    Interleaved (List.intercalate separator (propertyPieces ps)) (ps.map Prod.snd) := by
  have hall : List.Forall₂ Interleaved (propertyPieces ps) (ps.map fun p => [p.2]) := by
    rw [propertyPieces_eq_map, List.forall₂_map_left_iff, List.forall₂_map_right_iff]
    exact List.forall₂_same.mpr fun p _ => (single p.2).own.own
  have h := intercalate separator hall
  rwa [← List.flatMap_def, ← List.map_eq_flatMap] at h

theorem chained {ops : List Text} (h : ops.length = es.length) :
    Interleaved (Expr.chained ops (Expr.pieces es)) es := by
  induction es generalizing ops with
  | nil => exact owns _
  | cons e es ih =>
      cases ops with
      | nil => cases h
      | cons op ops =>
          have hrest := ih (Nat.succ.inj h)
          exact (Interleaved.tree (.plain e) hrest).own

end Interleaved

theorem IsWrittenAs.children (h : e.IsWrittenAs ms) (he : e.IsComplete) :
    Interleaved ms e.children := by
  cases h with
  | dotted => exact .owns _
  | plain =>
      cases e with
      | constant | symbol | foreign => exact .owns _
      | index dimensions dot =>
          by_cases hdot : ∃ name, dimensions = [.constant (.string name)] ∧ dot = true
          · obtain ⟨name, rfl, rfl⟩ := hdot
            exact (Interleaved.tree (.dotted name) .nil).own
          · rw [Expr.terminals]
            · exact .bracketed (.pieces _ dimensions)
            · exact fun name hname hd => hdot ⟨name, hname, hd⟩
      | accessor base subscript => exact (Interleaved.single base).append (.single subscript)
      | conditional condition whenTrue whenFalse =>
          exact ((Interleaved.single condition).append (Interleaved.single whenTrue).own).append
            (Interleaved.single whenFalse).own
      | operator op fn args =>
          match args with
          | [] => exact absurd rfl he
          | [arg] =>
              rw [Expr.terminals]
              split
              · exact (Interleaved.single arg).before _
              · exact (Interleaved.single arg).own
          | [left, right] => exact (Interleaved.single left).append (Interleaved.single right).own
          | _ :: _ :: _ :: _ => exact .pieces _ _
      | parenthesis content => exact (Interleaved.single content).bracketed
      | relational fns params ops =>
          cases params with
          | nil => exact .owns _
          | cons first params =>
              exact (Interleaved.single first).append (.chained (Nat.succ.inj he).symm)
      | call callee args => exact (Interleaved.single callee).append (.bracketed (.pieces _ args))
      | array items => exact .bracketed (.pieces _ items)
      | object properties => exact .bracketed (.properties _ properties)
      | assignment target value =>
          exact (Interleaved.single target).append (Interleaved.single value).own
      | definition name params body =>
          rw [Expr.terminals]
          exact (Interleaved.owns _).append (Interleaved.single body).own
      | block statements => exact .pieces _ statements
      | range first step last =>
          cases step with
          | none => exact .pieces _ [first, last]
          | some step => exact .pieces _ [first, step, last]

theorem IsWrittenAs.ne_nil (h : e.IsWrittenAs ms) (he : e.IsComplete) (hleaf : e.children = []) :
    ms ≠ [] := by
  cases h with
  | dotted => exact List.cons_ne_nil _ _
  | plain =>
      cases e with
      | index dimensions dot =>
          cases hleaf
          rw [Expr.terminals]
          · exact List.cons_ne_nil _ _
          · nofun
      | operator op fn args => exact absurd hleaf he
      | block statements => exact absurd hleaf he
      | foreign => exact he.elim
      | relational fns params ops =>
          cases hleaf
          cases he
      | constant | symbol | array | object => exact List.cons_ne_nil _ _
      | accessor | conditional | parenthesis | call | assignment | definition | range =>
          exact absurd hleaf (List.cons_ne_nil _ _)

theorem forall_walk {P : Expr → Prop} (he : P e) (h : ∀ c ∈ e.children, ∀ d ∈ c.walk, P d) :
    ∀ d ∈ e.walk, P d := by
  rw [walk_eq]
  refine List.forall_mem_cons.mpr ⟨he, fun d hd => ?_⟩
  obtain ⟨c, hc, hd⟩ := List.mem_flatMap.mp hd
  exact h c hc d hd

theorem Fits.complete (h : e.Fits depth level awaits) : ∀ d ∈ e.walk, d.IsComplete := by
  induction h with
  | tighter _ _ ih => exact ih
  | constant | symbol => exact forall_walk trivial nofun
  | definition _ _ _ ih | parenthesis _ ih =>
      exact forall_walk trivial (List.forall_mem_singleton.mpr ih)
  | sign _ _ ih | factorial _ _ ih =>
      exact forall_walk (List.cons_ne_nil _ _) (List.forall_mem_singleton.mpr ih)
  | join _ _ _ _ iha ihb | comparison _ _ _ iha ihb | power _ _ _ iha ihb =>
      exact forall_walk (List.cons_ne_nil _ _)
        (List.forall_mem_cons.mpr ⟨iha, List.forall_mem_singleton.mpr ihb⟩)
  | assignment _ _ _ iha ihb | range _ _ iha ihb =>
      exact forall_walk trivial (List.forall_mem_cons.mpr ⟨iha, List.forall_mem_singleton.mpr ihb⟩)
  | conditional _ _ _ iha ihb ihc | stepped _ _ _ iha ihb ihc =>
      exact forall_walk trivial (List.forall_mem_cons.mpr
        ⟨iha, List.forall_mem_cons.mpr ⟨ihb, List.forall_mem_singleton.mpr ihc⟩⟩)
  | comparisons _ _ _ _ ihfirst ihlinks =>
      refine forall_walk (by simp [IsComplete]) (List.forall_mem_cons.mpr ⟨ihfirst, ?_⟩)
      exact List.forall_mem_map.mpr ihlinks
  | call _ _ _ ihc iha => exact forall_walk trivial (List.forall_mem_cons.mpr ⟨ihc, iha⟩)
  | brackets _ _ _ ihb ihd =>
      exact forall_walk trivial (List.forall_mem_cons.mpr
        ⟨ihb, List.forall_mem_singleton.mpr (forall_walk trivial ihd)⟩)
  | @dot _ _ _ name _ ih =>
      have hname : ∀ d ∈ (Expr.constant (.string name)).walk, d.IsComplete :=
        forall_walk trivial nofun
      exact forall_walk trivial (List.forall_mem_cons.mpr ⟨ih, List.forall_mem_singleton.mpr
        (forall_walk trivial (List.forall_mem_singleton.mpr hname))⟩)
  | array _ ih => exact forall_walk trivial ih
  | object _ ih => exact forall_walk trivial (List.forall_mem_map.mpr ih)

theorem IsFormula.complete (h : e.IsFormula depth) : ∀ d ∈ e.walk, d.IsComplete := by
  cases h with
  | statement h => exact h.complete
  | block hne h => exact forall_walk hne fun e he => (h e he).complete

end MetricBridge.Formula.Expr
