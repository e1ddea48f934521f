import MetricBridge.Proofs.Formula.Constants
import MetricBridge.Proofs.Formula.Rendering

namespace MetricBridge.Formula

def Terminal.reparsed : Terminal → Terminal
  | number v => v.reread.terminals.headD (.number v)
  | string t => .string t.units
  | key t => .key t.units
  | m => m

theorem Literal.terminals_reread (v : Literal) : v.reread.terminals = [v.terminal.reparsed] := by
  cases v with
  | float x =>
      have hsingle : ∃ m, (float x).reread.terminals = [m] := by
        rcases Expr.reread_cases (.float x) with ⟨v, hv⟩ | ⟨name, hv⟩ <;>
          exact ⟨_, congrArg Expr.terminals hv⟩
      obtain ⟨m, hm⟩ := hsingle
      rw [terminal, Terminal.reparsed, hm]
      rfl
  | bool b => cases b <;> rfl
  | int | string | null => rfl

namespace Expr

variable {depth : Nat} {level : Level} {awaits : Bool} {e : Expr}

theorem map_markedBy {d : Delimiter} (pieces : List (List Terminal)) :
    (markedBy d pieces).map Terminal.reparsed =
      markedBy d (pieces.map (List.map Terminal.reparsed)) := by
  cases pieces with
  | nil => rfl
  | cons ms pieces =>
      rw [markedBy_cons, List.map_cons, markedBy_cons, List.map_append, List.map_flatMap,
        List.flatMap_map]
      rfl

theorem map_chained (ops : List Text) (pieces : List (List Terminal)) :
    (chained ops pieces).map Terminal.reparsed =
      chained ops (pieces.map (List.map Terminal.reparsed)) := by
  induction ops generalizing pieces with
  | nil => rfl
  | cons op ops ih =>
      cases pieces with
      | nil => rfl
      | cons ms pieces => simp [chained, ih, Terminal.reparsed]

theorem pieces_reparsed {es : List Expr}
    (h : ∀ e ∈ es, e.reparsed.terminals = e.terminals.map Terminal.reparsed) :
    pieces (reparsedAll es) = (pieces es).map (List.map Terminal.reparsed) := by
  rw [reparsedAll_eq_map, pieces_eq_map, pieces_eq_map, List.map_map, List.map_map]
  exact List.map_congr_left h

theorem propertyPieces_reparsed {ps : List (Text × Expr)}
    (h : ∀ p ∈ ps, p.2.reparsed.terminals = p.2.terminals.map Terminal.reparsed) :
    propertyPieces (reparsedProperties ps) =
      (propertyPieces ps).map (List.map Terminal.reparsed) := by
  rw [reparsedProperties_eq_map, propertyPieces_eq_map, propertyPieces_eq_map, List.map_map,
    List.map_map]
  exact List.map_congr_left fun p hp => by simp [h p hp, Terminal.reparsed]

theorem reparsed_brackets (dimensions : List Expr) :
    (index dimensions false).reparsed = .index (reparsedAll dimensions) false :=
  reparsed_index fun _ _ h => Bool.noConfusion h

theorem reparsed_symbols (names : List Text) :
    reparsedAll (names.map symbol) = names.map symbol := by
  rw [reparsedAll_eq_map, List.map_map]
  rfl

theorem reparsed_relational (first : Expr) (links : List (Text × Operation × Expr)) :
    (relational (links.map (·.2.1)) (first :: links.map (·.2.2)) (links.map (·.1))).reparsed =
      .relational ((links.map fun k => (k.1, k.2.1, k.2.2.reparsed)).map (·.2.1))
        (first.reparsed :: (links.map fun k => (k.1, k.2.1, k.2.2.reparsed)).map (·.2.2))
        ((links.map fun k => (k.1, k.2.1, k.2.2.reparsed)).map (·.1)) := by
  simp [reparsed, reparsedAll, reparsedAll_eq_map, Function.comp_def]

theorem isCallable_reparsed (h : Rule.isCallable e = true) :
    Rule.isCallable e.reparsed = true := by
  cases e <;> first | rfl | cases h

/-- The symbols are those of the tree, each as its text is read. -/
theorem Fits.terminals_reparsed (h : e.Fits depth level awaits) :
    e.reparsed.terminals = e.terminals.map Terminal.reparsed := by
  induction h with
  | tighter _ _ ih => exact ih
  | assignment _ _ _ iht ihv => simp [reparsed, terminals, iht, ihv, Terminal.reparsed]
  | @definition _ _ name params body _ _ _ ihb =>
      simp [reparsed, terminals, ihb, Terminal.reparsed, map_markedBy, Function.comp_def]
  | conditional _ _ _ ihc iht ihf =>
      simp [reparsed, terminals, ihc, iht, ihf, Terminal.reparsed]
  | join _ _ _ _ iha ihb | comparison _ _ _ iha ihb | power _ _ _ iha ihb =>
      simp [reparsed, reparsedAll, terminals, iha, ihb, Terminal.reparsed]
  | comparisons _ _ _ _ ihfirst ihlinks =>
      have hpieces := pieces_reparsed (List.forall_mem_map.mpr ihlinks)
      simp [reparsed, reparsedAll, terminals, ihfirst, hpieces, map_chained]
  | range _ _ iha ihb =>
      simp [reparsed, reparsedStep, terminals, stepPieces, iha, ihb, Terminal.reparsed]
  | stepped _ _ _ iha ihs ihb =>
      simp [reparsed, reparsedStep, terminals, stepPieces, iha, ihs, ihb, Terminal.reparsed]
  | sign _ _ ih | factorial _ _ ih =>
      simp only [reparsed, reparsedAll, terminals, ih]
      split <;> simp [Terminal.reparsed]
  | call _ _ _ ihc iha =>
      simp [reparsed, terminals, ihc, pieces_reparsed iha, map_markedBy, Terminal.reparsed]
  | brackets _ _ _ ihb ihd =>
      simp [reparsed, reparsed_brackets, terminals, ihb, pieces_reparsed ihd, map_markedBy,
        Terminal.reparsed]
  | dot _ ih => simp [reparsed, terminals, ih, Terminal.reparsed]
  | constant _ => exact Literal.terminals_reread _
  | symbol => rfl
  | parenthesis _ ih => simp [reparsed, terminals, ih, Terminal.reparsed]
  | array _ ih =>
      simp [reparsed, terminals, pieces_reparsed ih, map_markedBy, Terminal.reparsed]
  | object _ ih =>
      simp [reparsed, terminals, propertyPieces_reparsed ih, map_markedBy, Terminal.reparsed]

theorem forall_reparsedAll {P : Expr → Prop} {es : List Expr} (h : ∀ e ∈ es, P e.reparsed) :
    ∀ e ∈ reparsedAll es, P e := by
  rw [reparsedAll_eq_map]
  exact List.forall_mem_map.mpr h

theorem Fits.reparsed (h : e.Fits depth level awaits) : e.reparsed.Fits depth level awaits := by
  induction h with
  | tighter hl _ ih => exact .tighter hl ih
  | assignment hs _ _ iht ihv => exact .assignment (isCallable_reparsed hs) iht ihv
  | @definition _ _ name params body _ _ iht ihb =>
      rw [Expr.reparsed, Expr.reparsed, reparsed_symbols] at iht
      exact .definition iht ihb
  | conditional _ _ _ ihc iht ihf => exact .conditional ihc iht ihf
  | join hl hop _ _ iha ihb => exact .join hl hop iha ihb
  | comparison hop _ _ iha ihb => exact .comparison hop iha ihb
  | comparisons hlen _ hops _ ihfirst ihlinks =>
      rw [reparsed_relational]
      refine .comparisons (by rwa [List.length_map]) ihfirst ?_ ?_
      · exact List.forall_mem_map.mpr hops
      · exact List.forall_mem_map.mpr ihlinks
  | range _ _ iha ihb => exact .range iha ihb
  | stepped _ _ _ iha ihs ihb => exact .stepped iha ihs ihb
  | sign hop _ ih => exact .sign hop ih
  | power hop _ _ iha ihb => exact .power hop iha ihb
  | factorial hop _ ih => exact .factorial hop ih
  | call hs _ _ ihc iha => exact .call (isCallable_reparsed hs) ihc (forall_reparsedAll iha)
  | @brackets _ _ base dimensions hne _ _ ihb ihd =>
      rw [Expr.reparsed, reparsed_brackets]
      refine .brackets ?_ ihb (forall_reparsedAll ihd)
      rw [reparsedAll_eq_map]
      exact fun hnil => hne (List.map_eq_nil_iff.mp hnil)
  | dot _ ih => exact .dot ih
  | constant hv => exact hv.form.fits _ _
  | symbol hw hc => exact .symbol hw hc
  | parenthesis _ ih => exact .parenthesis ih
  | array _ ih => exact .array (forall_reparsedAll ih)
  | object _ ih =>
      rw [Expr.reparsed, reparsedProperties_eq_map]
      exact .object (List.forall_mem_map.mpr ih)

end Expr

end MetricBridge.Formula
