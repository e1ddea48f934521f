import MetricBridge.Proofs.Formula.Members
import MetricBridge.Proofs.Formula.Reparsed
import MetricBridge.Proofs.Formula.Walk

namespace MetricBridge.Formula

namespace Expr

/-- A member of a number that is written with digits alone. -/
def isFused : Expr → Bool
  | accessor (constant v) (index _ true) => v.isDigits
  | _ => false

/-- A number takes in a point somewhere in the text of the tree. -/
def fuses (e : Expr) : Bool := e.walk.any isFused

theorem fuses_eq (e : Expr) : e.fuses = (e.isFused || e.children.any fuses) := by
  rw [fuses, walk_eq, List.any_cons, List.any_flatMap]
  rfl

def behind : Expr → Text
  | constant v => v.behind
  | _ => attached

def follow (level : Level) (e : Expr) : Text := if level = .primary then e.behind else closers

variable {depth : Nat} {level : Level} {awaits : Bool} {e : Expr}

theorem closers_subset_follow (level : Level) (e : Expr) : closers ⊆ e.follow level := by
  unfold follow
  split
  · cases e with
    | constant v => exact v.closers_subset
    | _ => exact List.subset_append_right _ _
  · exact List.Subset.refl _

theorem before_behind (e : Expr) {c : CodePoint} {t : Text} (hc : c ∈ apart) :
    Before (e.follow .primary) (c :: t) := by
  refine .cons ?_
  rw [follow, if_pos rfl]
  cases e with
  | constant v =>
      rw [behind, Literal.behind]
      split
      · exact hc
      · exact List.mem_cons_of_mem _ hc
  | _ => exact List.mem_cons_of_mem _ hc

def IsDisplayed (level : Level) (e : Expr) : Prop :=
  NamesWritten e.terminals →
    Displays (Before (e.follow level)) e.written e.reparsed.terminals e.fuses

theorem IsDisplayed.closed (h : e.IsDisplayed level) (hnames : NamesWritten e.terminals) :
    Displays Closed e.written e.reparsed.terminals e.fuses :=
  (h hnames).mono fun _ hrest => hrest.mono (e.closers_subset_follow level)

theorem displays_properties {properties : List (Text × Expr)}
    (h : ∀ p ∈ properties, Displays Closed p.2.written p.2.reparsed.terminals p.2.fuses) :
    Displays Closed (commaSeparated (writtenProperties properties))
      (markedBy .comma (propertyPieces (reparsedProperties properties)))
      ((properties.map Prod.snd).any fuses) := by
  rw [writtenProperties_eq_map, reparsedProperties_eq_map, propertyPieces_eq_map, List.map_map,
    List.any_map]
  refine .joined .comma (fun _ => .cons (by decide)) fun p hp => ?_
  have hcolon : Shows Whatever (lit ": ") [.mark .colon] :=
    (Displays.mark (d := .colon) nofun fun _ => rfl).blankBehind fun _ => trivial
  have hkey : Shows Closed p.1.quote [.key p.1.units] :=
    (shows_quote (.quotedKey _)).mono fun _ hrest => hrest.mono (List.subset_append_right _ _)
  have hproperty := hkey.around hcolon (fun _ => .cons (by decide)) (h p hp)
  rwa [← List.append_assoc, Bool.false_or] at hproperty

theorem displays_comparisons {t : Text} {ms : List Terminal} {b : Bool}
    {links : List (Text × Operation × Expr)} (h : Displays Closed t ms b)
    (hops : ∀ k ∈ links, (k.1, k.2.1) ∈ Level.relational.joining)
    (hlinks : ∀ k ∈ links, Displays Closed k.2.2.written k.2.2.reparsed.terminals k.2.2.fuses) :
    Displays Closed (t ++ interleave (links.map (·.1)) (writtenAll (links.map (·.2.2))))
      (ms ++ chained (links.map (·.1)) (pieces (reparsedAll (links.map (·.2.2)))))
      (b || (links.map (·.2.2)).any fuses) := by
  induction links generalizing t ms b with
  | nil => simpa [interleave, chained] using h
  | cons k links ih =>
      obtain ⟨hop, hops⟩ := List.forall_mem_cons.mp hops
      obtain ⟨hk, hlinks⟩ := List.forall_mem_cons.mp hlinks
      have hall : ∀ entry ∈ Level.relational.joining, IsSpaced entry.1 := by decide
      have hrest := ih (h.binary (hall _ hop) hk) hops hlinks
      simpa [interleave, chained, writtenAll, reparsedAll, pieces, Bool.or_assoc] using hrest

/-- A member stands behind its object, except behind a number that takes in the point. -/
theorem displays_dot {base : Expr} {name : Text} (hb : base.Fits depth .primary awaits)
    (h : base.IsDisplayed .primary) (hnames : NamesWritten base.terminals) (hname : IsName name) :
    Displays (Before attached) (base.written ++ (lit "." ++ name))
      (base.reparsed.terminals ++ [.mark .dot, .name name])
      ((accessor base (.index [.constant (.string name)] true)).isFused || base.fuses) := by
  by_cases hfused : ∃ v, base = .constant v ∧ v.isDigits = true
  · obtain ⟨v, rfl, hv⟩ := hfused
    have hform : v.Form := by
      cases hb with
      | tighter hl => exact absurd rfl hl
      | constant hv => exact hv.form
    obtain ⟨n, ht, hr⟩ := hform.of_isDigits hv
    have hdisplays := displays_fused (n := n) (v := .int n) hname
    rw [← ht] at hdisplays
    rw [isFused, hv, Bool.true_or, reparsed, hr]
    exact hdisplays
  · have hpoint : CodePoint.scalar '.' ∈ base.behind := by
      cases base with
      | constant v =>
          rw [behind, Literal.behind, if_neg fun hv => hfused ⟨v, rfl, hv⟩]
          exact List.mem_cons_self
      | _ => exact List.mem_cons_self
    have hnot : (accessor base (.index [.constant (.string name)] true)).isFused = false := by
      cases base with
      | constant v => exact Bool.eq_false_iff.mpr fun hv => hfused ⟨v, rfl, hv⟩
      | _ => rfl
    rw [hnot, Bool.false_or, ← Bool.or_false base.fuses]
    exact (h hnames).append (shows_member hname) fun _ _ => .cons hpoint

theorem fuses_node (h : e.isFused = false) : e.fuses = e.children.any fuses := by
  rw [fuses_eq, h, Bool.false_or]

theorem isDisplayed_of_closed (hl : level ≠ .primary)
    (h : NamesWritten e.terminals → Displays Closed e.written e.reparsed.terminals e.fuses) :
    e.IsDisplayed level := by
  intro hnames
  rw [follow, if_neg hl]
  exact h hnames

theorem isDisplayed_attached (hbehind : e.behind = attached)
    (h : NamesWritten e.terminals →
      Displays (Before attached) e.written e.reparsed.terminals e.fuses) :
    e.IsDisplayed .primary := by
  intro hnames
  rw [follow, if_pos rfl, hbehind]
  exact h hnames

theorem isDisplayed_binary {op : Text} {fn : Operation} {left right : Expr} {level' : Level}
    {target : Level} (htarget : target ≠ .primary) (hop : IsSpaced op)
    (hl : left.IsDisplayed level) (hr : right.IsDisplayed level') :
    (operator op fn [left, right]).IsDisplayed target := by
  refine isDisplayed_of_closed htarget fun hnames => ?_
  have hleft := hl.closed (hnames.part (by simp +contextual [terminals]))
  have hright := hr.closed (hnames.part (by simp +contextual [terminals]))
  rw [written_binary, fuses_node rfl]
  simpa [reparsed, reparsedAll, terminals, children] using hleft.binary hop hright

theorem isDisplayed_assignment {target value : Expr} (ht : target.IsDisplayed level)
    (hv : value.IsDisplayed .assignment) : (assignment target value).IsDisplayed .assignment := by
  refine isDisplayed_of_closed nofun fun hnames => ?_
  have htarget := ht.closed (hnames.part (by simp +contextual [terminals]))
  have hvalue := hv.closed (hnames.part (by simp +contextual [terminals]))
  have hsign := Displays.spacedDelimiter (d := .assign) nofun (.mark _)
  have hall := htarget.around hsign (fun _ => .cons (by decide)) hvalue
  rw [fuses_node rfl]
  simpa [written, reparsed, terminals, children, Delimiter.spelling, lit] using hall

theorem isDisplayed_definition {name : Text} {params : List Text} {body : Expr}
    (ht : (call (.symbol name) (params.map symbol)).IsDisplayed level)
    (hb : body.IsDisplayed .assignment) :
    (definition name params body).IsDisplayed .assignment := by
  refine isDisplayed_of_closed nofun fun hnames => ?_
  have htarget := ht.closed (hnames.part (by
    simp only [terminals, pieces_eq_map, List.map_map, Function.comp_def]
    exact fun m hm => List.mem_append_left _ hm))
  have hbody := hb.closed (hnames.part (by simp +contextual [terminals]))
  have hsign := Displays.spacedDelimiter (d := .assign) nofun (.mark _)
  have hall := htarget.around hsign (fun _ => .cons (by decide)) hbody
  have hplain : (call (.symbol name) (params.map symbol)).fuses = false := by
    rw [fuses_node rfl]
    simp [children, fuses_eq, isFused]
  have hwritten : writtenAll (params.map symbol) = params := by
    rw [writtenAll_eq_map, List.map_map]
    exact List.map_id _
  rw [hplain, Bool.false_or] at hall
  rw [fuses_node rfl]
  simpa [written, hwritten, reparsed, reparsed_symbols, terminals, pieces_eq_map, children,
    Function.comp_def, Delimiter.spelling, lit] using hall

theorem isDisplayed_conditional {condition whenTrue whenFalse : Expr}
    (hc : condition.IsDisplayed .or) (ht : whenTrue.IsDisplayed .assignment)
    (hf : whenFalse.IsDisplayed .assignment) :
    (conditional condition whenTrue whenFalse).IsDisplayed .conditional := by
  refine isDisplayed_of_closed nofun fun hnames => ?_
  have hcondition := hc.closed (hnames.part (by simp +contextual [terminals]))
  have htrue := ht.closed (hnames.part (by simp +contextual [terminals]))
  have hfalse := hf.closed (hnames.part (by simp +contextual [terminals]))
  have hquestion := Displays.spacedDelimiter (d := .question) nofun (.mark _)
  have hcolon := Displays.spacedDelimiter (d := .colon) nofun (.mark _)
  have hall := hcondition.around hquestion (fun _ => .cons (by decide))
    (htrue.around hcolon (fun _ => .cons (by decide)) hfalse)
  rw [fuses_node rfl]
  simpa [written, reparsed, terminals, children, Delimiter.spelling, lit] using hall

theorem isDisplayed_comparisons {first : Expr} {links : List (Text × Operation × Expr)}
    (hlen : 2 ≤ links.length) (hfirst : first.IsDisplayed .shift)
    (hops : ∀ k ∈ links, (k.1, k.2.1) ∈ Level.relational.joining)
    (hlinks : ∀ k ∈ links, k.2.2.IsDisplayed .shift) :
    (relational (links.map (·.2.1)) (first :: links.map (·.2.2)) (links.map (·.1))).IsDisplayed
      .relational := by
  refine isDisplayed_of_closed nofun fun hnames => ?_
  have hhead := hfirst.closed (hnames.part (by simp +contextual [terminals]))
  have hall := displays_comparisons hhead hops fun k hk =>
    (hlinks k hk).closed (hnames.part fun m hm => by simp [terminals, mem_chained hk hm])
  have hops' : (links.map (·.1)).isEmpty = false := by
    cases links with
    | nil => cases hlen
    | cons => rfl
  rw [fuses_node rfl]
  simpa [written, hops', reparsed, reparsedAll, terminals, children] using hall

theorem isDisplayed_range {first last : Expr} {step : Option Expr}
    (hfirst : first.IsDisplayed .additive) (hstep : ∀ e ∈ step, e.IsDisplayed .additive)
    (hlast : last.IsDisplayed .additive) : (range first step last).IsDisplayed .range := by
  refine isDisplayed_of_closed nofun fun hnames => ?_
  have hcolon : Shows Whatever (lit ":") [.mark .colon] :=
    Displays.mark (d := .colon) nofun fun _ => rfl
  rw [fuses_node rfl]
  cases step with
  | none =>
      have hbefore := hfirst.closed (hnames.part (by simp +contextual [terminals, stepPieces]))
      have hbehind := hlast.closed (hnames.part (by simp +contextual [terminals, stepPieces]))
      have hall := hbefore.around hcolon (fun _ => .cons (by decide)) hbehind
      simpa [written, writtenStep, Text.joinWith, reparsed, reparsedStep, terminals, stepPieces,
        children] using hall
  | some step =>
      have hbefore := hfirst.closed (hnames.part (by simp +contextual [terminals, stepPieces]))
      have hbetween := (hstep step rfl).closed (hnames.part (by
        simp +contextual [terminals, stepPieces]))
      have hbehind := hlast.closed (hnames.part (by simp +contextual [terminals, stepPieces]))
      have hall := hbefore.around hcolon (fun _ => .cons (by decide))
        (hbetween.around hcolon (fun _ => .cons (by decide)) hbehind)
      simpa [written, writtenStep, Text.joinWith, reparsed, reparsedStep, terminals, stepPieces,
        children] using hall

theorem isDisplayed_sign {op : Text} {fn : Operation} {arg : Expr}
    (hop : (op, fn) ∈ Level.unaryTable) (h : arg.IsDisplayed .unary) :
    (operator op fn [arg]).IsDisplayed .unary := by
  refine isDisplayed_of_closed nofun fun hnames => ?_
  have hnot : ∀ entry ∈ Level.unaryTable, entry.2 ≠ .factorial := by decide
  have hfn : fn ≠ .factorial := hnot _ hop
  have hall := (h.closed (hnames.part (by simp +contextual [terminals, hfn]))).sign hop
  rw [fuses_node rfl]
  simpa [written, reparsed, reparsedAll, terminals, children, hfn] using hall

theorem isDisplayed_factorial {op : Text} {fn : Operation} {arg : Expr}
    (hop : (op, fn) ∈ Level.factorialTable) (h : arg.IsDisplayed .factorial) :
    (operator op fn [arg]).IsDisplayed .factorial := by
  refine isDisplayed_of_closed nofun fun hnames => ?_
  have hall : ∀ entry ∈ Level.factorialTable, entry.2 = .factorial := by decide
  have hfn : fn = .factorial := hall _ hop
  have hoperand := (h.closed (hnames.part (by simp +contextual [terminals, hfn]))).factorial hop
  rw [fuses_node rfl]
  simpa [written, reparsed, reparsedAll, terminals, children, hfn] using hoperand

theorem displays_arguments {es : List Expr} {ms : List Terminal}
    (h : ∀ e ∈ es, e.IsDisplayed .assignment) (hnames : NamesWritten ms)
    (hms : ∀ m ∈ markedBy .comma (pieces es), m ∈ ms) :
    Displays Closed (commaSeparated (writtenAll es)) (markedBy .comma (pieces (reparsedAll es)))
      (es.any fuses) := by
  rw [writtenAll_eq_map, reparsedAll_eq_map, pieces_eq_map, List.map_map]
  exact .joined .comma (fun _ => .cons (by decide)) fun e he =>
    (h e he).closed (hnames.part fun m hm => hms m (mem_markedBy (mem_pieces he) hm))

theorem isDisplayed_call {callee : Expr} {args : List Expr}
    (hc : callee.IsDisplayed .primary) (ha : ∀ a ∈ args, a.IsDisplayed .assignment) :
    (call callee args).IsDisplayed .primary := by
  refine isDisplayed_attached rfl fun hnames => ?_
  have hcallee := hc (hnames.part (by simp +contextual [terminals]))
  have hargs := displays_arguments ha hnames (by simp +contextual [terminals])
  have hall := hcallee.append (hargs.parenthesized (p := Before attached)) fun _ _ =>
    before_behind callee (by decide)
  rw [fuses_node rfl]
  simpa [written, reparsed, terminals, children] using hall

theorem isDisplayed_brackets {base : Expr} {dimensions : List Expr}
    (hb : base.IsDisplayed .primary) (hd : ∀ a ∈ dimensions, a.IsDisplayed .assignment) :
    (accessor base (.index dimensions false)).IsDisplayed .primary := by
  refine isDisplayed_attached rfl fun hnames => ?_
  have hbase := hb (hnames.part (by simp +contextual [terminals]))
  have hdimensions := displays_arguments hd hnames (by simp +contextual [terminals])
  have hwritten : (index dimensions false).written =
      lit "[" ++ commaSeparated (writtenAll dimensions) ++ lit "]" := by
    rw [written]
    exact fun _ _ h => Bool.noConfusion h
  have hindex : Displays (Before attached) (index dimensions false).written
      (index dimensions false).reparsed.terminals (index dimensions false).fuses := by
    rw [fuses_node rfl, reparsed_brackets, terminals_brackets, hwritten]
    exact .grouped (.mark (by decide) fun _ => rfl) (.mark (by decide) fun _ => rfl)
      (fun _ => .cons (by decide)) hdimensions
  have hall := hbase.append hindex fun rest _ => by
    rw [hwritten]
    exact before_behind base (c := .scalar '[') (by decide)
  have hnot : (accessor base (.index dimensions false)).isFused = false := by
    cases base <;> rfl
  rw [fuses_node hnot, written, reparsed]
  simpa [terminals, children] using hall

theorem isDisplayed_dot {base : Expr} {name : Text} (hb : base.Fits depth .primary awaits)
    (h : base.IsDisplayed .primary) :
    (accessor base (.index [.constant (.string name)] true)).IsDisplayed .primary := by
  refine isDisplayed_attached rfl fun hnames => ?_
  have hall := displays_dot hb h (hnames.part (by simp +contextual [terminals]))
    (hnames name (by simp [terminals]))
  rw [fuses_eq]
  simpa [written, Literal.bareText, reparsed, terminals, children, fuses_eq, isFused] using hall

theorem isDisplayed_constant {v : Literal} (hv : v.IsWritten) :
    (constant v).IsDisplayed .primary := by
  intro hnames
  have hshows := hv.form.shows
  rw [fuses_node rfl]
  exact hshows

theorem isDisplayed_symbol {name : Text} : (symbol name).IsDisplayed .primary := by
  refine isDisplayed_attached rfl fun hnames => ?_
  rw [fuses_node rfl]
  exact shows_name (hnames name List.mem_cons_self)

theorem isDisplayed_parenthesis {content : Expr} (hc : content.IsDisplayed .assignment) :
    (parenthesis content).IsDisplayed .primary := by
  refine isDisplayed_attached rfl fun hnames => ?_
  have hcontent := hc.closed (hnames.part (by simp +contextual [terminals]))
  rw [fuses_node rfl]
  simpa [written, reparsed, terminals, children] using
    hcontent.parenthesized (p := Before attached)

theorem isDisplayed_array {items : List Expr} (hi : ∀ a ∈ items, a.IsDisplayed .assignment) :
    (array items).IsDisplayed .primary := by
  refine isDisplayed_attached rfl fun hnames => ?_
  have hitems := displays_arguments hi hnames (by simp +contextual [terminals])
  rw [fuses_node rfl]
  exact .grouped (.mark nofun fun _ => rfl) (.mark nofun fun _ => rfl) (fun _ => .cons (by decide))
    hitems

theorem isDisplayed_object {properties : List (Text × Expr)}
    (hp : ∀ p ∈ properties, p.2.IsDisplayed .assignment) :
    (object properties).IsDisplayed .primary := by
  refine isDisplayed_attached rfl fun hnames => ?_
  have hproperties := displays_properties fun p hmem => (hp p hmem).closed (hnames.part
    fun m hm => by
      have hpiece : .key p.1 :: .mark .colon :: p.2.terminals ∈ propertyPieces properties := by
        rw [propertyPieces_eq_map]
        exact List.mem_map_of_mem hmem
      refine List.mem_cons_of_mem _ (List.mem_append_left _ (mem_markedBy hpiece ?_))
      exact List.mem_cons_of_mem _ (List.mem_cons_of_mem _ hm))
  rw [fuses_node rfl]
  exact .grouped (.mark nofun fun _ => rfl) (.mark nofun fun _ => rfl) (fun _ => .cons (by decide))
    hproperties

theorem Fits.displays (h : e.Fits depth level awaits) : e.IsDisplayed level := by
  induction h with
  | tighter hl _ ih => exact isDisplayed_of_closed hl fun hnames => ih.closed hnames
  | assignment _ _ _ iht ihv => exact isDisplayed_assignment iht ihv
  | definition _ _ iht ihb => exact isDisplayed_definition iht ihb
  | conditional _ _ _ ihc iht ihf => exact isDisplayed_conditional ihc iht ihf
  | @join _ level _ _ _ _ _ _ hop _ _ iha ihb =>
      have hlevel : level ≠ .primary := by
        rintro rfl
        cases hop
      exact isDisplayed_binary hlevel (isSpaced_joining hop) iha ihb
  | comparison hop _ _ iha ihb => exact isDisplayed_binary nofun (isSpaced_joining hop) iha ihb
  | comparisons hlen _ hops _ ihfirst ihlinks =>
      exact isDisplayed_comparisons hlen ihfirst hops ihlinks
  | range _ _ iha ihb => exact isDisplayed_range iha nofun ihb
  | stepped _ _ _ iha ihs ihb =>
      exact isDisplayed_range iha (fun _ he => Option.some.inj he ▸ ihs) ihb
  | sign hop _ ih => exact isDisplayed_sign hop ih
  | @power _ _ op fn _ _ hop _ _ iha ihb =>
      have hall : ∀ entry ∈ Level.powerTable, IsSpaced entry.1 := by decide
      exact isDisplayed_binary nofun (hall (op, fn) hop) iha ihb
  | factorial hop _ ih => exact isDisplayed_factorial hop ih
  | call _ _ _ ihc iha => exact isDisplayed_call ihc iha
  | brackets _ _ _ ihb ihd => exact isDisplayed_brackets ihb ihd
  | dot hb ih => exact isDisplayed_dot hb ih
  | constant hv => exact isDisplayed_constant hv
  | symbol => exact isDisplayed_symbol
  | parenthesis _ ih => exact isDisplayed_parenthesis ih
  | array _ ih => exact isDisplayed_array ih
  | object _ ih => exact isDisplayed_object ih

end Expr

end MetricBridge.Formula
