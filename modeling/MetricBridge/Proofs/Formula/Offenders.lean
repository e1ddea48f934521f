import MetricBridge.Proofs.Formula.Emission
import MetricBridge.Proofs.Formula.Height
import MetricBridge.Proofs.Formula.Lexemes
import MetricBridge.Proofs.Formula.Outside

namespace MetricBridge.Formula

def IsGoalIndex (t : Text) : Prop :=
  ∃ digits rest : Text, t = lit "idgoal=" ++ digits ++ rest ∧ digits ≠ [] ∧
    (∀ c ∈ digits, c.isDecimal = true) ∧ (rest = [] ∨ rest = [.scalar '\n'])

def Indexes (number t : Text) : Prop :=
  number ≠ [] ∧ (∀ c ∈ number, c.isDecimal = true) ∧
    (t = lit "idgoal=" ++ number ∨ t = lit "idgoal=" ++ number ++ [.scalar '\n'])

theorem goalNumber?_append {number rest : Text} (hne : number ≠ [])
    (hdigits : ∀ c ∈ number, c.isDecimal = true) (hrest : rest = [] ∨ rest = [.scalar '\n']) :
    goalNumber? (lit "idgoal=" ++ number ++ rest) = some number := by
  have hstart : Text.begins "idgoal=" (lit "idgoal=" ++ number ++ rest) = true := by
    rw [List.append_assoc]
    exact List.isPrefixOf_iff_prefix.mpr (List.prefix_append _ _)
  have hspan : spanText CodePoint.isDecimal ((lit "idgoal=" ++ number ++ rest).drop 7) =
      (number, rest) := by
    rw [List.append_assoc]
    refine spanText_append hdigits ?_
    rintro c u rfl
    rcases hrest with hrest | hrest <;> cases hrest
    decide
  unfold goalNumber?
  rw [if_pos hstart, hspan]
  rcases hrest with rfl | rfl <;> simp [hne]

theorem goalNumber?_eq_some {t number : Text} : goalNumber? t = some number ↔ Indexes number t := by
  constructor
  · intro h
    unfold goalNumber? at h
    split at h
    · rename_i hstart
      obtain ⟨rest, rfl⟩ := List.isPrefixOf_iff_prefix.mp hstart
      have hdrop : (lit "idgoal=" ++ rest).drop 7 = rest := rfl
      rw [hdrop] at h
      dsimp only [spanText] at h
      split at h
      · rename_i hends
        simp only [Bool.and_eq_true, Bool.or_eq_true, Bool.not_eq_true', List.isEmpty_eq_false_iff,
          List.isEmpty_iff, beq_iff_eq] at hends
        have hall := List.takeWhile_append_dropWhile (p := CodePoint.isDecimal) (l := rest)
        cases h
        refine ⟨hends.1, fun c hc => List.all_eq_true.mp List.all_takeWhile c hc, ?_⟩
        rcases hends.2 with hrest | hrest <;> rw [hrest] at hall
        · rw [List.append_nil] at hall
          exact .inl (by rw [hall])
        · exact .inr (by rw [List.append_assoc, hall])
      · cases h
    · cases h
  · rintro ⟨hne, hdigits, rfl | rfl⟩
    · have h := goalNumber?_append hne hdigits (.inl rfl)
      rwa [List.append_nil] at h
    · exact goalNumber?_append hne hdigits (.inr rfl)

theorem isGoalIndex_iff {t : Text} : IsGoalIndex t ↔ ∃ number, goalNumber? t = some number := by
  constructor
  · rintro ⟨digits, rest, rfl, hne, hdigits, hrest⟩
    exact ⟨digits, goalNumber?_append hne hdigits hrest⟩
  · rintro ⟨number, h⟩
    obtain ⟨hne, hdigits, rfl | rfl⟩ := goalNumber?_eq_some.mp h
    · exact ⟨number, [], (List.append_nil _).symm, hne, hdigits, .inl rfl⟩
    · exact ⟨number, [.scalar '\n'], rfl, hne, hdigits, .inr rfl⟩

namespace Expr

inductive NamesColumn : Expr → Prop
  | text (t) : NamesColumn (.constant (.string t))
  | symbol (name) : NamesColumn (.symbol name)

/-- A column of a goal, as in `$goals["idgoal=1"]["revenue"]`. -/
inductive IsGoalColumn : Expr → Prop
  | column {goal column dot dot'} (hg : IsGoalIndex goal) (hc : NamesColumn column) :
      IsGoalColumn (.accessor (.accessor (.symbol "$goals") (.index [.constant (.string goal)] dot))
        (.index [column] dot'))

/-- The node has no counterpart among calculated fields. -/
inductive IsOffender : Expr → Prop
  | array (items) : IsOffender (.array items)
  | object (properties) : IsOffender (.object properties)
  | assignment (target value) : IsOffender (.assignment target value)
  | definition (name params body) : IsOffender (.definition name params body)
  | block (statements) : IsOffender (.block statements)
  | range (first step last) : IsOffender (.range first step last)
  | call {callee args}
      (h : ∀ name, callee = .symbol name → name ∉ [lit "min", lit "max", lit "abs"]) :
      IsOffender (.call callee args)
  | accessor {base subscript} (h : ¬ IsGoalColumn (.accessor base subscript)) :
      IsOffender (.accessor base subscript)

def IsFirstOffender (nodes : List Expr) (e : Expr) : Prop :=
  ∃ before after, nodes = before ++ e :: after ∧ (∀ d ∈ before, ¬ d.IsOffender) ∧ e.IsOffender

theorem IsFirstOffender.append {nodes more : List Expr} {e : Expr} (h : IsFirstOffender nodes e) :
    IsFirstOffender (nodes ++ more) e := by
  obtain ⟨before, after, rfl, hbefore, he⟩ := h
  exact ⟨before, after ++ more, by simp, hbefore, he⟩

theorem IsFirstOffender.after {nodes more : List Expr} {e : Expr} (h : IsFirstOffender more e)
    (hnone : ∀ d ∈ nodes, ¬ d.IsOffender) : IsFirstOffender (nodes ++ more) e := by
  obtain ⟨before, after, rfl, hbefore, he⟩ := h
  exact ⟨nodes ++ before, after, by simp, List.forall_mem_append.mpr ⟨hnone, hbefore⟩, he⟩

inductive Ends {α : Type} (b n : Nat) (nodes : List Expr) : Except EmitFault α → Prop
  | tooDeep (h : n < b) : Ends b n nodes (.error (.unrendered .tooDeep))
  | emitted {a} (h : ∀ e ∈ nodes, ¬ e.IsOffender) : Ends b n nodes (.ok a)
  | refused {e refusal text} (he : IsFirstOffender nodes e)
      (ht : ∀ m, n ≤ m → e.render m = .ok text) :
      Ends b n nodes (.error (.refused ⟨refusal, e.kind?, text⟩))

namespace Ends

variable {α β : Type} {b b' n : Nat} {nodes more : List Expr} {e : Expr}

theorem pure (a : α) : Ends b n [] (.ok a) := .emitted nofun

theorem mono {x : Except EmitFault α} (h : Ends b n nodes x) (hb : b ≤ b') : Ends b' n nodes x := by
  cases h with
  | tooDeep hlt => exact .tooDeep (by omega)
  | emitted hnone => exact .emitted hnone
  | refused he ht => exact .refused he ht

theorem succ {x : Except EmitFault α} (h : Ends b n nodes x) : Ends (b + 1) (n + 1) nodes x := by
  cases h with
  | tooDeep hlt => exact .tooDeep (by omega)
  | emitted hnone => exact .emitted hnone
  | refused he ht => exact .refused he fun m hm => ht m (by omega)

theorem after {x : Except EmitFault α} (h : Ends b n more x)
    (hnone : ∀ d ∈ nodes, ¬ d.IsOffender) : Ends b n (nodes ++ more) x := by
  cases h with
  | tooDeep hlt => exact .tooDeep hlt
  | emitted hmore => exact .emitted (List.forall_mem_append.mpr ⟨hnone, hmore⟩)
  | refused he ht => exact .refused (he.after hnone) ht

theorem bind {x : Except EmitFault α} {f : α → Except EmitFault β} (hx : Ends b n nodes x)
    (hf : ∀ a, Ends b n more (f a)) : Ends b n (nodes ++ more) (x >>= f) := by
  cases hx with
  | tooDeep hlt => exact .tooDeep hlt
  | refused he ht => exact .refused he.append ht
  | emitted hnone => exact (hf _).after hnone

theorem map {x : Except EmitFault α} (hx : Ends b n nodes x) (g : α → β) :
    Ends b n nodes (x >>= fun a => Pure.pure (g a)) := by
  rw [← List.append_nil nodes]
  exact hx.bind fun a => .pure (g a)

theorem mapM {f : α → Except EmitFault β} {parts : α → List Expr} {as : List α}
    (h : ∀ a ∈ as, Ends b n (parts a) (f a)) : Ends b n (as.flatMap parts) (as.mapM f) := by
  induction as with
  | nil => exact .pure []
  | cons a as ih =>
      obtain ⟨ha, has⟩ := List.forall_mem_cons.mp h
      rw [List.mapM_cons, List.flatMap_cons]
      exact ha.bind fun c => (ih has).map (c :: ·)

theorem refuse {refusal : Refusal} (hr : e.Regular) (ho : e.IsOffender) :
    Ends (α := α) e.height n (e :: more) (refuse n refusal e) := by
  unfold Formula.refuse quoted
  rcases hr.settles n with ⟨hdeep, hlt⟩ | ⟨t, ht⟩
  · dsimp only at hdeep
    rw [hdeep]
    exact .tooDeep hlt
  · have hn : e.render n = .ok t := ht n (Nat.le_refl n)
    rw [hn]
    exact .refused ⟨[], more, rfl, nofun, ho⟩ ht

end Ends

variable {b n : Nat} {e callee : Expr} {args dimensions : List Expr}

theorem goalOf_eq {number : Text} : goalOf dimensions = .ok number ↔
    ∃ goal, dimensions = [.constant (.string goal)] ∧ Indexes number goal := by
  constructor
  · intro h
    unfold goalOf at h
    split at h
    · split at h
      · rename_i hnumber
        cases h
        exact ⟨_, rfl, goalNumber?_eq_some.mp hnumber⟩
      · cases h
    · cases h
    · cases h
  · rintro ⟨goal, rfl, hgoal⟩
    rw [goalOf, goalNumber?_eq_some.mpr hgoal]

theorem goalOf_eq_ok : (∃ number, goalOf dimensions = .ok number) ↔
    ∃ goal, dimensions = [.constant (.string goal)] ∧ IsGoalIndex goal := by
  simp only [goalOf_eq, isGoalIndex_iff, goalNumber?_eq_some]
  exact ⟨fun ⟨number, goal, heq, h⟩ => ⟨goal, heq, number, h⟩,
    fun ⟨goal, heq, number, h⟩ => ⟨number, goal, heq, h⟩⟩

theorem columnOf_eq_ok : (∃ name, columnOf dimensions = .ok name) ↔
    ∃ column, dimensions = [column] ∧ NamesColumn column := by
  constructor
  · rintro ⟨name, h⟩
    unfold columnOf at h
    split at h
    · exact ⟨_, rfl, .text _⟩
    · exact ⟨_, rfl, .symbol _⟩
    · cases h
    · cases h
  · rintro ⟨column, rfl, hcolumn⟩
    cases hcolumn with
    | text t => exact ⟨t, rfl⟩
    | symbol name => exact ⟨name, rfl⟩

theorem emitAccessor_goals {goal : List Expr} {dot dot' : Bool} :
    let base : Expr := .accessor (.symbol goalsSymbol) (.index goal dot)
    ((accessor base (.index dimensions dot')).IsGoalColumn ∧
      ∃ t, emitAccessor n e base (.index dimensions dot') = .ok t) ∨
    (¬ (accessor base (.index dimensions dot')).IsGoalColumn ∧
      ∃ fault, emitAccessor n e base (.index dimensions dot') = refuse n (.accessor fault) e) := by
  intro base
  unfold emitAccessor
  simp only [base, dimensions?, ne_eq, not_true_eq_false, if_false]
  cases hgoal : goalOf goal with
  | error fault =>
      refine .inr ⟨?_, fault, rfl⟩
      rintro ⟨hindex, -⟩
      obtain ⟨number, hnumber⟩ := goalOf_eq_ok.mpr ⟨_, rfl, hindex⟩
      rw [hnumber] at hgoal
      cases hgoal
  | ok number =>
      obtain ⟨index, rfl, hindex⟩ := goalOf_eq_ok.mp ⟨number, hgoal⟩
      cases hname : columnOf dimensions with
      | error fault =>
          refine .inr ⟨?_, fault, rfl⟩
          rintro ⟨-, hcolumn⟩
          obtain ⟨name, hok⟩ := columnOf_eq_ok.mpr ⟨_, rfl, hcolumn⟩
          rw [hok] at hname
          cases hname
      | ok name =>
          obtain ⟨column, rfl, hcolumn⟩ := columnOf_eq_ok.mp ⟨name, hname⟩
          exact .inl ⟨.column hindex hcolumn, flatName number name, rfl⟩

/-- An accessor is emitted if it is a column of a goal, and refused if it is not. -/
theorem emitAccessor_eq {base : Expr} {dot : Bool} (h : base.Regular) :
    ((accessor base (.index dimensions dot)).IsGoalColumn ∧
      ∃ t, emitAccessor n e base (.index dimensions dot) = .ok t) ∨
    (¬ (accessor base (.index dimensions dot)).IsGoalColumn ∧
      ∃ fault, emitAccessor n e base (.index dimensions dot) = refuse n (.accessor fault) e) := by
  cases h with
  | accessor ho hg =>
      cases ho with
      | @symbol name =>
          by_cases hname : name = goalsSymbol
          · subst hname
            exact emitAccessor_goals
          · exact .inr ⟨fun ⟨_, _⟩ => hname rfl, .notGoals, if_pos hname⟩
      | _ => exact .inr ⟨nofun, _, rfl⟩
  | _ => exact .inr ⟨nofun, _, rfl⟩

theorem functionName?_eq_none {name : Text} :
    functionName? name = none ↔ name ∉ [lit "min", lit "max", lit "abs"] := by
  unfold functionName?
  split_ifs <;> simp_all

theorem outside_spineOnto (e : Expr) (links : List Link) : ∃ operators : List Expr,
    (∀ o ∈ operators, ¬ o.IsOffender) ∧
      e.outside ++ links.flatMap (·.right.outside) = operators ++ ((spineOnto e links).1.outside ++
        (spineOnto e links).2.flatMap (·.right.outside)) := by
  fun_induction spineOnto e links with
  | case1 op fn left right links ih =>
      obtain ⟨operators, hoperators, hnodes⟩ := ih
      refine ⟨.operator op fn [left, right] :: operators,
        List.forall_mem_cons.mpr ⟨by rintro ⟨⟩, hoperators⟩, ?_⟩
      rw [List.cons_append, ← hnodes, outside_eq]
      simp [outsideBelow, isAccessor, children]
  | case2 => exact ⟨[], fun _ ho => absurd ho List.not_mem_nil, rfl⟩

theorem outside_spine (e : Expr) : ∃ operators : List Expr, (∀ o ∈ operators, ¬ o.IsOffender) ∧
    e.outside = operators ++ (e.spine.1.outside ++ e.spine.2.flatMap (·.right.outside)) := by
  have h := outside_spineOnto e []
  rwa [List.flatMap_nil, List.append_nil] at h

theorem emitComparisons_ends {fns : List Operation} {params : List Expr}
    (hlength : fns.length = params.length) (hfns : ∀ fn ∈ fns, fn.symbol?.isSome = true)
    (hparams : ∀ p ∈ params, Ends b n p.outside (p.emit n)) :
    Ends b n (params.flatMap outside) (emitComparisons (emit n) n e fns params) := by
  induction params generalizing fns with
  | nil =>
      cases List.eq_nil_of_length_eq_zero hlength
      exact .pure []
  | cons p params ih =>
      obtain ⟨hp, hparams⟩ := List.forall_mem_cons.mp hparams
      cases fns with
      | nil => cases hlength
      | cons fn fns =>
          obtain ⟨hfn, hfns⟩ := List.forall_mem_cons.mp hfns
          obtain ⟨sign, hsign⟩ := Option.isSome_iff_exists.mp hfn
          rw [emitComparisons, hsign, List.flatMap_cons]
          exact hp.bind fun t => (ih (Nat.succ.inj hlength) hfns hparams).map _

theorem ends_node (h : ¬ e.IsOffender) {x : Emission} (hx : Ends b n e.outsideBelow x) :
    Ends b n e.outside x := by
  have hsingle : ∀ d ∈ [e], ¬ d.IsOffender := List.forall_mem_singleton.mpr h
  rw [outside_eq]
  exact hx.after hsingle

theorem ends_offender {refusal : Refusal} (hr : e.Regular) (ho : e.IsOffender) :
    Ends (α := Text) e.height n e.outside (refuse n refusal e) := by
  rw [outside_eq]
  exact .refuse hr ho

theorem ends_check {op : Text} {fn : Operation} {nodes : List Expr} {f : Unit → Emission}
    (hfn : fn.symbol?.isSome = true) (h : Ends b n nodes (f ())) :
    Ends b n nodes (checkLink n op fn e >>= f) := by
  rw [checkLink, if_pos hfn]
  exact h

theorem ends_checks {links : List Link} {nodes : List Expr} {f : Unit → Emission}
    (hlinks : ∀ k ∈ links, k.fn.symbol?.isSome = true) (h : Ends b n nodes (f ())) :
    Ends b n nodes (links.forM (fun k => checkLink n k.op k.fn k.whole) >>= f) := by
  have hchecks : links.forM (fun k => checkLink n k.op k.fn k.whole) = .ok () := by
    induction links with
    | nil => rfl
    | cons k links ih =>
        obtain ⟨hk, hlinks⟩ := List.forall_mem_cons.mp hlinks
        rw [List.forM, checkLink, if_pos hk]
        exact ih hlinks
  rw [hchecks]
  exact h

/-- The walk lists the operators of a chain first, then its operands in their order. -/
theorem ends_chain {op : Text} {fn : Operation} {left right : Expr}
    (h : Regular (.operator op fn [left, right]))
    (hpart : ∀ {d : Expr} {b}, d.Regular → d.height < b → Ends b n d.outside (d.emit n)) :
    Ends (operator op fn [left, right]).height n (operator op fn [left, right]).outside
      (emit (n + 1) (.operator op fn [left, right])) := by
  obtain ⟨operators, hoperators, hnodes⟩ := outside_spine (operator op fn [left, right])
  obtain ⟨⟨hhead, hlt⟩, hlinks⟩ := h.spine rfl
  rw [hnodes]
  refine Ends.after ?_ hoperators
  simp only [emit]
  refine ends_checks (fun k hk => (hlinks k hk).1) ?_
  refine (hpart hhead hlt).bind fun t => Ends.map (.mapM fun k hk => ?_) _
  obtain ⟨-, hright, hlt⟩ := hlinks k hk
  exact (hpart hright hlt).map _

theorem emit_unknown_call (h : ∀ name, callee = .symbol name → functionName? name = none) :
    emit (n + 1) (.call callee args) =
      quoted n callee >>= fun name => refuse n (.function name) (.call callee args) := by
  unfold emit
  dsimp only
  split
  · rename_i target htarget
    split at htarget
    · rw [h _ rfl] at htarget
      cases htarget
    · cases htarget
  · cases quoted n callee <;> rfl

theorem ends_unknown_call (hc : callee.Regular) (ha : ∀ a ∈ args, a.Regular)
    (h : ∀ name, callee = .symbol name → functionName? name = none) :
    Ends (call callee args).height n (call callee args).outside
      (emit (n + 1) (.call callee args)) := by
  rw [emit_unknown_call h, quoted]
  rcases hc.settles n with ⟨hdeep, hlt⟩ | ⟨t, ht⟩
  · dsimp only at hdeep
    rw [hdeep]
    exact .tooDeep (by simp only [height]; omega)
  · have hn : callee.render n = .ok t := ht n (Nat.le_refl n)
    rw [hn]
    exact ends_offender (.call hc ha)
      (.call fun name hname => functionName?_eq_none.mp (h name hname))

theorem ends_known_call {name : Text} (h : functionName? name ≠ none)
    (hargs : Ends b n (args.flatMap outside) (args.mapM (emit n))) :
    Ends b n (call (.symbol name) args).outside (emit (n + 1) (.call (.symbol name) args)) := by
  obtain ⟨target, htarget⟩ := Option.ne_none_iff_exists'.mp h
  have hcall : ¬ (call (.symbol name) args).IsOffender := by
    intro hoffender
    cases hoffender with
    | call hnone => exact h (functionName?_eq_none.mpr (hnone name rfl))
  have hcallee : ∀ d ∈ (symbol name).outside, ¬ d.IsOffender := by
    rw [outside_eq]
    exact List.forall_mem_singleton.mpr (by rintro ⟨⟩)
  refine ends_node hcall ?_
  simp only [emit, htarget, outsideBelow, isAccessor, children, List.flatMap_cons]
  exact (hargs.map _).after hcallee

/-- The emission of a tree and the walk through it agree on the first offender. -/
theorem Regular.ends (h : e.Regular) (n : Nat) : Ends (e.height + 1) n e.outside (e.emit n) := by
  induction n generalizing e with
  | zero => exact .tooDeep (Nat.succ_pos _)
  | succ n ih =>
      refine Ends.succ ?_
      have hpart : ∀ {e b}, Regular e → e.height < b → Ends b n e.outside (e.emit n) :=
        fun he hb => (ih he).mono hb
      have hparts : ∀ {es : List Expr} {b}, (∀ e ∈ es, Regular e) → heights es < b →
          Ends b n (es.flatMap outside) (es.mapM (emit n)) :=
        fun hes hb => .mapM fun e he =>
          hpart (hes e he) (Nat.lt_of_le_of_lt (height_le_heights he) hb)
      cases h with
      | constant => exact ends_node (by rintro ⟨⟩) (.pure _)
      | symbol => exact ends_node (by rintro ⟨⟩) (.pure _)
      | @accessor base dimensions dot hb hd =>
          simp only [emit]
          rcases emitAccessor_eq hb with ⟨hcolumn, t, ht⟩ | ⟨hcolumn, fault, hfault⟩
          · rw [ht]
            refine ends_node ?_ (.pure t)
            intro hoffender
            cases hoffender with
            | accessor hnot => exact hnot hcolumn
          · rw [hfault]
            exact ends_offender (.accessor hb hd) (.accessor hcolumn)
      | @conditional condition whenTrue whenFalse hc ht hf =>
          refine ends_node (by rintro ⟨⟩) ?_
          simp only [emit, height, outsideBelow, isAccessor, children, List.flatMap_cons]
          exact (hpart hc (by omega)).bind fun t => (hpart ht (by omega)).bind fun t' =>
            (hpart hf (by omega)).bind fun t'' => .pure _
      | @operator op fn args hfn ha =>
          rcases args with _ | ⟨first, _ | ⟨second, _ | ⟨third, more⟩⟩⟩
          · exact ends_node (by rintro ⟨⟩) (ends_check hfn (.pure _))
          · refine ends_node (by rintro ⟨⟩) ?_
            simp only [emit, height, heights, outsideBelow, isAccessor, children,
              List.flatMap_cons]
            refine ends_check hfn ?_
            exact (hpart (ha first List.mem_cons_self) (by omega)).bind fun t => .pure _
          · exact ends_chain (.operator hfn ha) hpart
          · refine ends_node (by rintro ⟨⟩) (ends_check hfn ?_)
            exact (hparts ha (by simp only [height]; omega)).map _
      | @parenthesis content hc =>
          refine ends_node (by rintro ⟨⟩) ?_
          simp only [emit, height, outsideBelow, isAccessor, children, List.flatMap_cons]
          exact (hpart hc (by omega)).bind fun t => .pure _
      | @relational fns first params ops hlength hfns hf hp =>
          refine ends_node (by rintro ⟨⟩) ?_
          simp only [emit, height, heights, outsideBelow, isAccessor, children, List.flatMap_cons]
          refine (hpart hf (by omega)).bind fun t =>
            Ends.map (emitComparisons_ends hlength hfns ?_) _
          intro p hmem
          have := height_le_heights hmem
          exact hpart (hp p hmem) (by omega)
      | @call callee args hc ha =>
          by_cases hunknown : ∀ name, callee = .symbol name → functionName? name = none
          · exact ends_unknown_call hc ha hunknown
          · push Not at hunknown
            obtain ⟨name, rfl, hname⟩ := hunknown
            exact ends_known_call hname (hparts ha (by simp only [height]; omega))
      | array hi => exact ends_offender (.array hi) (.array _)
      | object hp => exact ends_offender (.object hp) (.object _)
      | assignment ht hv => exact ends_offender (.assignment ht hv) (.assignment _ _)
      | definition hb => exact ends_offender (.definition hb) (.definition _ _ _)
      | block hs => exact ends_offender (.block hs) (.block _)
      | range hf hs hl => exact ends_offender (.range hf hs hl) (.range _ _ _)

end Expr
end MetricBridge.Formula
