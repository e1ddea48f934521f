import MetricBridge.Proofs.Formula.Constants
import MetricBridge.Proofs.Formula.Emission
import MetricBridge.Proofs.Formula.Walk

namespace MetricBridge.Formula

open Text (ofFloat)

namespace Expr

def readBack (e : Expr) : Expr := e.calculated.reread

theorem readBack_args (es : List Expr) :
    rewriteAll rereadNode (rewriteAll calculatedNode es) = es.map readBack := by
  rw [rewriteAll_eq_map, rewriteAll_eq_map, List.map_map]
  rfl

theorem readBack_operator (op : Text) (fn : Operation) (args : List Expr) :
    (operator op fn args).readBack = .operator op fn (args.map readBack) :=
  congrArg (operator op fn) (readBack_args args)

theorem readBack_relational (fns : List Operation) (params : List Expr) (ops : List Text) :
    (relational fns params ops).readBack = .relational fns (params.map readBack) ops :=
  congrArg (relational fns · ops) (readBack_args params)

theorem readBack_call {name target : Text} (h : functionName? name = some target)
    (args : List Expr) :
    (call (.symbol name) args).readBack = .call (.symbol target) (args.map readBack) := by
  have htarget : (functionName? name).getD name = target := by rw [h]; rfl
  rw [← htarget]
  exact congrArg (call _) (readBack_args args)

structure IsPlain (e : Expr) : Prop where
  flat : ∀ base subscript, .accessor base subscript ∉ e.walk
  floats : ∀ x, .constant (.float x) ∈ e.walk → x.isInf = false →
    Text.decimalFloat? (ofFloat x) = some x

theorem IsPlain.child {e c : Expr} (h : e.IsPlain) (hc : c ∈ e.children) : c.IsPlain where
  flat base subscript hmem := h.flat base subscript (mem_walk_of_child hc hmem)
  floats x hmem := h.floats x (mem_walk_of_child hc hmem)

/-- The text shows what the tree is read back as, and this has the level. -/
structure Shown (level : Level) (awaits : Bool) (e : Expr) (t : Text) : Prop where
  shows : Shows Closed t e.readBack.terminals
  fits : ∃ depth, e.readBack.Fits depth level awaits

def Translates (level : Level) (awaits : Bool) (e : Expr) : Prop :=
  e.IsPlain → NamesWritten e.terminals → ∀ {n t}, emit n e = .ok t → Shown level awaits e t

section

variable {level level' target : Level} {awaits awaits' : Bool} {op : Text} {fn : Operation}
  {e left right : Expr} {es : List Expr}

theorem exists_common (h : ∀ e ∈ es, ∃ depth, Fits depth level awaits e) :
    ∃ depth, ∀ e ∈ es, Fits depth level awaits e := by
  induction es with
  | nil => exact ⟨0, nofun⟩
  | cons e es ih =>
      obtain ⟨⟨d, hd⟩, hes⟩ := List.forall_mem_cons.mp h
      obtain ⟨d', hd'⟩ := ih hes
      exact ⟨d + d', List.forall_mem_cons.mpr ⟨hd.mono (Nat.le_add_right d d'),
        fun e he => (hd' e he).mono (Nat.le_add_left d' d)⟩⟩

theorem shown_all {m : Nat} {parts : List Text} (ih : ∀ e ∈ es, Translates level awaits e)
    (hplain : ∀ e ∈ es, e.IsPlain) (hnames : ∀ e ∈ es, NamesWritten e.terminals)
    (h : List.Forall₂ (fun e t => emit m e = .ok t) es parts) :
    List.Forall₂ (Shows Closed) parts (pieces (es.map readBack)) ∧
      ∃ depth, ∀ e ∈ es.map readBack, Fits depth level awaits e := by
  have hshown : List.Forall₂ (Shown level awaits) es parts := by
    induction h with
    | nil => exact .nil
    | cons he _ ih' =>
        obtain ⟨ih, ihs⟩ := List.forall_mem_cons.mp ih
        obtain ⟨hplain, hplains⟩ := List.forall_mem_cons.mp hplain
        obtain ⟨hnames, hnamess⟩ := List.forall_mem_cons.mp hnames
        exact .cons (ih hplain hnames he) (ih' ihs hplains hnamess)
  constructor
  · rw [pieces_eq_map, List.map_map, List.forall₂_map_right_iff]
    exact (hshown.imp fun _ _ h => h.shows).flip
  · refine exists_common (List.forall_mem_map.mpr ?_)
    clear h ih hplain hnames
    induction hshown with
    | nil => nofun
    | cons he _ ih => exact List.forall_mem_cons.mpr ⟨he.fits, ih⟩

theorem translates_binary (hop : IsSpaced op) (hl : Translates level awaits left)
    (hr : Translates level' awaits right)
    (hfits : ∀ {l r depth}, Fits depth level awaits l → Fits depth level' awaits r →
      Fits (depth + 1) target awaits (.operator op fn [l, r])) :
    Translates target awaits (.operator op fn [left, right]) := by
  intro hplain hnames n t h
  obtain ⟨m, m', a, b, ha, hb, rfl⟩ := emit_binary h
  have hleft := hl (hplain.child (by simp [children]))
    (hnames.part (by simp +contextual [terminals])) ha
  have hright := hr (hplain.child (by simp [children]))
    (hnames.part (by simp +contextual [terminals])) hb
  obtain ⟨d, hd⟩ := hleft.fits
  obtain ⟨d', hd'⟩ := hright.fits
  have hreadBack := readBack_operator op fn [left, right]
  exact ⟨hreadBack ▸ .binary hop hleft.shows hright.shows, d + d' + 1,
    hreadBack ▸ hfits (hd.mono (Nat.le_add_right d d')) (hd'.mono (Nat.le_add_left d' d))⟩

/-- A call stands at every level, and no colon is awaited inside its parentheses. -/
theorem fits_conditionalCall (depth : Nat) {c t f : Expr} (hc : Fits depth .or awaits c)
    (ht : Fits depth .assignment true t) (hf : Fits depth .assignment awaits f) :
    ∃ depth, Fits depth .conditional awaits (.call (.symbol conditionalFunction) [c, t, f]) := by
  have hargs : ∀ e ∈ [c, t, f], Fits (depth + 2) .assignment false e := by
    simp only [List.forall_mem_cons]
    exact ⟨hc.freed.loosen rfl, ht.freed.mono (Nat.le_add_right depth 2),
      hf.freed.mono (Nat.le_add_right depth 2), nofun⟩
  have hname : Fits (depth + 2) .primary awaits (.symbol conditionalFunction) :=
    .symbol (by decide) (by decide)
  exact ⟨_, (Fits.call rfl hname hargs).loosen (k := 16) rfl⟩

theorem translates_conditional {condition whenTrue whenFalse : Expr}
    (hc : Translates .or awaits condition) (ht : Translates .assignment true whenTrue)
    (hf : Translates .assignment awaits whenFalse) :
    Translates .conditional awaits (.conditional condition whenTrue whenFalse) := by
  intro hplain hnames n t h
  obtain ⟨m, a, b, c, ha, hb, hc', rfl⟩ := emit_conditional h
  have hcondition := hc (hplain.child (by simp [children]))
    (hnames.part (by simp +contextual [terminals])) ha
  have htrue := ht (hplain.child (by simp [children]))
    (hnames.part (by simp +contextual [terminals])) hb
  have hfalse := hf (hplain.child (by simp [children]))
    (hnames.part (by simp +contextual [terminals])) hc'
  obtain ⟨d, hd⟩ := hcondition.fits
  obtain ⟨d', hd'⟩ := htrue.fits
  obtain ⟨d'', hd''⟩ := hfalse.fits
  refine ⟨?_, fits_conditionalCall (d + d' + d'') (hd.mono (by omega))
    (hd'.mono (by omega)) (hd''.mono (by omega))⟩
  have hname : IsName conditionalFunction := ⟨⟨_, _, rfl, by decide⟩, by decide⟩
  have hcall := Displays.call (p := Closed) hname
    (.cons hcondition.shows (.cons htrue.shows (.cons hfalse.shows .nil)))
  have htext : lit "IF(" ++ a ++ lit ", " ++ b ++ lit ", " ++ c ++ lit ")" =
      conditionalFunction ++ lit "(" ++ commaSeparated [a, b, c] ++ lit ")" := by
    simp [commaSeparated, Text.joinWith, conditionalFunction, lit]
  rw [htext]
  exact hcall

theorem translates_unary {arg : Expr} (hop : (op, fn) ∈ Level.unaryTable)
    (ha : Translates .unary awaits arg) : Translates .unary awaits (.operator op fn [arg]) := by
  intro hplain hnames n t h
  obtain ⟨m, a, ha', rfl⟩ := emit_unary h
  have hfn : fn ≠ .factorial := by
    rintro rfl
    simp [Level.unaryTable] at hop
  have harg := ha (hplain.child (by simp [children]))
    (hnames.part (by simp +contextual [terminals, hfn])) ha'
  obtain ⟨d, hd⟩ := harg.fits
  have hreadBack := readBack_operator op fn [arg]
  refine ⟨?_, d + 1, hreadBack ▸ .sign hop hd⟩
  have hword : ∀ entry ∈ Level.unaryTable, isWordText entry.1 = isWordOperator entry.1 := by decide
  rw [hreadBack, List.map_cons, List.map_nil, terminals, if_neg hfn, if_neg hfn, hword _ hop]
  exact .sign hop harg.shows

theorem translates_factorial {arg : Expr} (hop : (op, fn) ∈ Level.factorialTable)
    (ha : Translates .factorial awaits arg) :
    Translates .factorial awaits (.operator op fn [arg]) := by
  intro hplain hnames n t h
  obtain ⟨m, a, ha', rfl⟩ := emit_unary h
  have hfn : fn = .factorial := by simp_all [Level.factorialTable]
  have harg := ha (hplain.child (by simp [children]))
    (hnames.part (by simp +contextual [terminals, hfn])) ha'
  obtain ⟨d, hd⟩ := harg.fits
  have hreadBack := readBack_operator op fn [arg]
  refine ⟨?_, d + 1, hreadBack ▸ .factorial hop hd.succ⟩
  rw [hreadBack, List.map_cons, List.map_nil, terminals, if_pos hfn, if_pos hfn]
  exact .factorial hop harg.shows

theorem translates_parenthesis {content : Expr} (hc : Translates .assignment false content) :
    Translates .primary awaits (.parenthesis content) := by
  intro hplain hnames n t h
  obtain ⟨m, a, ha, rfl⟩ := emit_parenthesis h
  have hcontent := hc (hplain.child (by simp [children]))
    (hnames.part (by simp +contextual [terminals])) ha
  obtain ⟨d, hd⟩ := hcontent.fits
  exact ⟨.parenthesized hcontent.shows, d + 1, .parenthesis hd⟩

theorem isName_of_functionName? {name target : Text} (h : functionName? name = some target) :
    IsName target ∧ isWordOperator target = false ∧ Rule.namedConstant? target = none := by
  unfold functionName? at h
  split at h
  · cases h
    exact ⟨⟨⟨_, _, rfl, by decide⟩, by decide⟩, by decide, by decide⟩
  · split at h
    · cases h
      exact ⟨⟨⟨_, _, rfl, by decide⟩, by decide⟩, by decide, by decide⟩
    · split at h
      · cases h
        exact ⟨⟨⟨_, _, rfl, by decide⟩, by decide⟩, by decide, by decide⟩
      · cases h

theorem translates_call {callee : Expr} (ha : ∀ e ∈ es, Translates .assignment false e) :
    Translates .primary awaits (.call callee es) := by
  intro hplain hnames n t h
  obtain ⟨m, name, target, parts, rfl, htarget, hparts, rfl⟩ := emit_call h
  have hargs := shown_all ha (fun e he => hplain.child (by simp [children, he]))
    (fun e he => hnames.part fun m hm => by simp [terminals, mem_markedBy (mem_pieces he) hm])
    (forall₂_of_mapM hparts)
  obtain ⟨hshows, d, hd⟩ := hargs
  obtain ⟨hname, hword, hconstant⟩ := isName_of_functionName? htarget
  have hreadBack := readBack_call htarget es
  exact ⟨hreadBack ▸ .call hname hshows, d + 1, hreadBack ▸ .call rfl (.symbol hword hconstant)
    fun e he => (hd e he).succ⟩

theorem symbol?_relational (hop : (op, fn) ∈ Level.relational.joining) : fn.symbol? = some op := by
  have hall : ∀ entry ∈ Level.relational.joining, entry.2.symbol? = some entry.1 := by decide
  exact hall _ hop

theorem shows_comparisons {m : Nat} {whole : Expr} {links : List (Text × Operation × Expr)}
    {a b : Text} {ms : List Terminal} (ha : Shows Closed a ms)
    (hops : ∀ k ∈ links, (k.1, k.2.1) ∈ Level.relational.joining)
    (hlinks : ∀ k ∈ links, ∀ {t}, emit m k.2.2 = .ok t → Shown level awaits k.2.2 t)
    (hb : emitComparisons (emit m) m whole (links.map (·.2.1)) (links.map (·.2.2)) = .ok b) :
    Shows Closed (a ++ b)
        (ms ++ chained (links.map (·.1)) (pieces ((links.map (·.2.2)).map readBack))) ∧
      ∀ k ∈ links, ∃ depth, Fits depth level awaits k.2.2.readBack := by
  induction links generalizing a b ms with
  | nil =>
      cases hb
      exact ⟨by simpa [chained] using ha, nofun⟩
  | cons k links ih =>
      obtain ⟨hop, hops⟩ := List.forall_mem_cons.mp hops
      obtain ⟨hk, hlinks⟩ := List.forall_mem_cons.mp hlinks
      obtain ⟨sign, t, more, hsign, ht, hmore, rfl⟩ := emitComparisons_cons hb
      cases hsign.symm.trans (symbol?_relational hop)
      have hall : ∀ entry ∈ Level.relational.joining, IsSpaced entry.1 := by decide
      have hshown := hk ht
      obtain ⟨hshows, hfits⟩ := ih (.binary (hall _ hop) ha hshown.shows) hops hlinks hmore
      refine ⟨?_, List.forall_mem_cons.mpr ⟨hshown.fits, hfits⟩⟩
      simpa [chained, pieces] using hshows

theorem translates_comparisons {first : Expr} {links : List (Text × Operation × Expr)}
    (hlen : 2 ≤ links.length) (hfirst : Translates .shift awaits first)
    (hops : ∀ k ∈ links, (k.1, k.2.1) ∈ Level.relational.joining)
    (hlinks : ∀ k ∈ links, Translates .shift awaits k.2.2) :
    Translates .relational awaits
      (.relational (links.map (·.2.1)) (first :: links.map (·.2.2)) (links.map (·.1))) := by
  intro hplain hnames n t h
  obtain ⟨m, whole, a, b, ha, hb, rfl⟩ := emit_relational h
  have hhead := hfirst (hplain.child (by simp [children]))
    (hnames.part (by simp +contextual [terminals])) ha
  have hnamesLinks : ∀ k ∈ links, NamesWritten k.2.2.terminals := fun k hk =>
    hnames.part fun m hm => by simp [terminals, mem_chained hk hm]
  obtain ⟨hshows, hfits⟩ := shows_comparisons hhead.shows hops
    (fun k hk _ ht => hlinks k hk (hplain.child (by
      simp only [children, List.mem_cons, List.mem_map]
      exact .inr ⟨k, hk, rfl⟩)) (hnamesLinks k hk) ht) hb
  obtain ⟨d, hd⟩ := hhead.fits
  obtain ⟨d', hd'⟩ := exists_common (List.forall_mem_map.mpr hfits)
  have hreadBack := readBack_relational (links.map (·.2.1)) (first :: links.map (·.2.2))
    (links.map (·.1))
  have hmapped : 2 ≤ (links.map fun k => (k.1, k.2.1, k.2.2.readBack)).length := by
    rwa [List.length_map]
  have htree := Fits.comparisons hmapped
    (hd.mono (Nat.le_add_right d d')) (List.forall_mem_map.mpr hops)
    (List.forall_mem_map.mpr fun k hk =>
      (hd' _ (List.mem_map_of_mem hk)).mono (Nat.le_add_left d' d))
  refine ⟨hreadBack ▸ hshows, d + d' + 1, ?_⟩
  rw [hreadBack]
  simpa [Function.comp_def] using htree

theorem translates_constant {v : Literal} (hv : v.IsWritten) :
    Translates .primary awaits (.constant v) := by
  intro hplain hnames n t h
  have ht := emit_constant h
  subst ht
  exact ⟨hv.form.closed, 1, hv.form.fits 0 awaits⟩

theorem translates_symbol {name : Text} (hw : isWordOperator name = false)
    (hc : Rule.namedConstant? name = none) : Translates .primary awaits (.symbol name) := by
  intro hplain hnames n t h
  have ht := emit_symbol h
  subst ht
  have hname := hnames t List.mem_cons_self
  exact ⟨.name hname (.name t) fun rest hrest => hrest.head (by decide), 1, .symbol hw hc⟩

theorem translates_refused (h : e.isEmitted = false) : Translates level awaits e := by
  intro hplain hnames n t ht
  rw [isEmitted_of_emit ht] at h
  cases h

theorem translates_accessor {base subscript : Expr} :
    Translates level awaits (.accessor base subscript) :=
  fun hplain => absurd (mem_walk_self _) (hplain.flat base subscript)

theorem Fits.translates {depth : Nat} (h : e.Fits depth level awaits) :
    Translates level awaits e := by
  induction h with
  | tighter hl _ ih =>
      intro hplain hnames n t ht
      obtain ⟨hshows, d, hd⟩ := ih hplain hnames ht
      exact ⟨hshows, d + 1, .tighter hl hd⟩
  | conditional _ _ _ ihc iht ihf => exact translates_conditional ihc iht ihf
  | join hl hop _ _ iha ihb =>
      exact translates_binary (isSpaced_joining hop) iha ihb fun ha hb => .join hl hop ha.succ hb
  | comparison hop _ _ iha ihb =>
      exact translates_binary (isSpaced_joining hop) iha ihb fun ha hb => .comparison hop ha hb
  | comparisons hlen _ hops _ ihfirst ihlinks =>
      exact translates_comparisons hlen ihfirst hops ihlinks
  | sign hop _ ih => exact translates_unary hop ih
  | @power _ _ op fn _ _ hop _ _ iha ihb =>
      have hall : ∀ entry ∈ Level.powerTable, IsSpaced entry.1 := by decide
      exact translates_binary (hall (op, fn) hop) iha ihb fun ha hb => .power hop ha hb
  | factorial hop _ ih => exact translates_factorial hop ih
  | call _ _ _ _ iha => exact translates_call iha
  | brackets | dot => exact translates_accessor
  | constant hv => exact translates_constant hv
  | symbol hw hc => exact translates_symbol hw hc
  | parenthesis _ ih => exact translates_parenthesis ih
  | assignment | definition | range | stepped | array | object => exact translates_refused rfl

end

end Expr

end MetricBridge.Formula
