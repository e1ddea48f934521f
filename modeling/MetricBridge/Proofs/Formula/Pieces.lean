import MetricBridge.Proofs.Formula.Naming

namespace MetricBridge.Formula

theorem infix_joinWith {separator t : Text} {parts : List Text} (h : t ∈ parts) :
    t <:+: Text.joinWith separator parts := by
  induction parts with
  | nil => cases h
  | cons part parts ih =>
      cases parts with
      | nil =>
          cases List.mem_singleton.mp h
          exact List.infix_rfl
      | cons next parts =>
          have hjoin : Text.joinWith separator (part :: next :: parts) =
              part ++ separator ++ Text.joinWith separator (next :: parts) := rfl
          rcases List.mem_cons.mp h with rfl | h
          · rw [hjoin, List.append_assoc]
            exact (List.prefix_append t _).isInfix
          · rw [hjoin]
            exact (ih h).trans (List.suffix_append _ _).isInfix

theorem exists_mem_of_mapM {α β ε : Type} {f : α → Except ε β} {as : List α} {bs : List β} {a : α}
    (h : as.mapM f = .ok bs) (ha : a ∈ as) : ∃ b ∈ bs, f a = .ok b := by
  have hall := forall₂_of_mapM h
  clear h
  induction hall with
  | nil => cases ha
  | cons hb _ ih =>
      rcases List.mem_cons.mp ha with rfl | ha
      · exact ⟨_, List.mem_cons_self, hb⟩
      · obtain ⟨b, hmem, hb⟩ := ih ha
        exact ⟨b, List.mem_cons_of_mem _ hmem, hb⟩

namespace Expr

variable {n m depth : Nat} {level : Level} {awaits : Bool} {e c a : Expr} {t t' : Text}
  {args : List Expr}

def IsPiece (t : Text) (e : Expr) : Prop := ∃ m u, emit m e = .ok u ∧ u <:+: t

theorem isPiece_self (h : emit m e = .ok t) : IsPiece t e := ⟨m, t, h, List.infix_rfl⟩

theorem IsPiece.within (h : IsPiece t e) (ht : t <:+: t') : IsPiece t' e := by
  obtain ⟨m, u, hu, hinfix⟩ := h
  exact ⟨m, u, hu, hinfix.trans ht⟩

theorem isPiece_arguments {parts : List Text} (hparts : args.mapM (emit m) = .ok parts)
    (hc : c ∈ args) : IsPiece (commaSeparated parts) c := by
  obtain ⟨u, hmem, hu⟩ := exists_mem_of_mapM hparts hc
  exact ⟨m, u, hu, infix_joinWith hmem⟩

theorem isPiece_comparisons {whole : Expr} {fns : List Operation}
    (h : emitComparisons (emit m) m whole fns args = .ok t) (hc : c ∈ args) : IsPiece t c := by
  induction args generalizing fns t with
  | nil => cases hc
  | cons arg args ih =>
      cases fns with
      | nil => cases h
      | cons fn fns =>
          obtain ⟨sign, u, more, -, hu, hmore, rfl⟩ := emitComparisons_cons h
          rcases List.mem_cons.mp hc with rfl | hc
          · exact (isPiece_self hu).within (List.infix_append _ u more)
          · exact (ih hmore hc).within (List.suffix_append _ more).isInfix

theorem isPiece_binary {op : Text} {fn : Operation} {left right : Expr}
    (h : emit n (.operator op fn [left, right]) = .ok t) (hc : c ∈ [left, right]) :
    IsPiece t c := by
  obtain ⟨m, m', u, v, hu, hv, rfl⟩ := emit_binary h
  simp only [List.mem_cons, List.not_mem_nil, or_false] at hc
  rcases hc with rfl | rfl
  · exact (isPiece_self hu).within (List.prefix_append u _).isInfix
  · exact (isPiece_self hv).within ((List.suffix_append _ v).trans (List.suffix_append u _)).isInfix

theorem isPiece_unary {op : Text} {fn : Operation} (h : emit n (.operator op fn [c]) = .ok t) :
    IsPiece t c := by
  obtain ⟨m, u, hu, rfl⟩ := emit_unary h
  refine (isPiece_self hu).within ?_
  split_ifs
  · exact (List.prefix_append u op).isInfix
  · exact (List.suffix_append _ u).isInfix
  · exact (List.suffix_append op u).isInfix

theorem isPiece_conditional {condition whenTrue whenFalse : Expr}
    (h : emit n (.conditional condition whenTrue whenFalse) = .ok t)
    (hc : c ∈ [condition, whenTrue, whenFalse]) : IsPiece t c := by
  obtain ⟨m, u, v, w, hu, hv, hw, rfl⟩ := emit_conditional h
  have hparts : [condition, whenTrue, whenFalse].mapM (emit m) = .ok [u, v, w] := by
    simp only [List.mapM_cons, List.mapM_nil, hu, hv, hw]
    rfl
  refine (isPiece_arguments hparts hc).within ⟨lit "IF(", lit ")", ?_⟩
  simp [commaSeparated, Text.joinWith]

structure IsPart (e c : Expr) : Prop where
  fits : ∃ depth level awaits, c.Fits depth level awaits
  terminals : ∀ m ∈ c.terminals, m ∈ e.terminals

theorem isPart_binary {op : Text} {fn : Operation} {left right : Expr} {depth' : Nat}
    {level' : Level} {awaits' : Bool} (hl : left.Fits depth level awaits)
    (hr : right.Fits depth' level' awaits') (hc : c ∈ [left, right]) :
    (operator op fn [left, right]).IsPart c := by
  simp only [List.mem_cons, List.not_mem_nil, or_false] at hc
  rcases hc with rfl | rfl
  · exact ⟨⟨_, _, _, hl⟩, by simp +contextual [Expr.terminals]⟩
  · exact ⟨⟨_, _, _, hr⟩, by simp +contextual [Expr.terminals]⟩

theorem isPart_unary {op : Text} {fn : Operation} (h : c.Fits depth level awaits) :
    (operator op fn [c]).IsPart c := by
  refine ⟨⟨_, _, _, h⟩, fun m hm => ?_⟩
  rw [Expr.terminals]
  split_ifs <;> simp [hm]

/-- What is emitted for the parts of a node stands in what is emitted for the node. The name of a
function is replaced. -/
theorem Fits.part (h : e.Fits depth level awaits) (ha : e.isAccessor = false)
    (ht : emit n e = .ok t) (hc : c ∈ e.children) :
    e.IsPart c ∧ ((∃ name, c = .symbol name) ∨ IsPiece t c) := by
  have hemitted := isEmitted_of_emit ht
  induction h with
  | tighter _ _ ih => exact ih ha ht hc hemitted
  | join _ _ hl hr => exact ⟨isPart_binary hl hr hc, .inr (isPiece_binary ht hc)⟩
  | comparison _ hl hr => exact ⟨isPart_binary hl hr hc, .inr (isPiece_binary ht hc)⟩
  | power _ hl hr => exact ⟨isPart_binary hl hr hc, .inr (isPiece_binary ht hc)⟩
  | sign _ harg =>
      cases List.mem_singleton.mp hc
      exact ⟨isPart_unary harg, .inr (isPiece_unary ht)⟩
  | factorial _ harg =>
      cases List.mem_singleton.mp hc
      exact ⟨isPart_unary harg, .inr (isPiece_unary ht)⟩
  | conditional hcondition htrue hfalse =>
      refine ⟨?_, .inr (isPiece_conditional ht hc)⟩
      simp only [children, List.mem_cons, List.not_mem_nil, or_false] at hc
      rcases hc with rfl | rfl | rfl
      · exact ⟨⟨_, _, _, hcondition⟩, by simp +contextual [Expr.terminals]⟩
      · exact ⟨⟨_, _, _, htrue⟩, by simp +contextual [Expr.terminals]⟩
      · exact ⟨⟨_, _, _, hfalse⟩, by simp +contextual [Expr.terminals]⟩
  | comparisons _ hfirst _ hlinks =>
      obtain ⟨m, whole, u, v, hu, hv, rfl⟩ := emit_relational ht
      rcases List.mem_cons.mp hc with rfl | hc
      · exact ⟨⟨⟨_, _, _, hfirst⟩, by simp +contextual [Expr.terminals]⟩,
          .inr ((isPiece_self hu).within (List.prefix_append u v).isInfix)⟩
      · have hpiece := (isPiece_comparisons hv hc).within (List.suffix_append u v).isInfix
        obtain ⟨k, hk, rfl⟩ := List.mem_map.mp hc
        exact ⟨⟨⟨_, _, _, hlinks k hk⟩, fun m hm => by simp [Expr.terminals, mem_chained hk hm]⟩,
          .inr hpiece⟩
  | call _ hcallee hargs =>
      obtain ⟨m, name, target, parts, rfl, -, hparts, rfl⟩ := emit_call ht
      rcases List.mem_cons.mp hc with rfl | hc
      · exact ⟨⟨⟨_, _, _, hcallee⟩, by simp +contextual [Expr.terminals]⟩, .inl ⟨name, rfl⟩⟩
      · exact ⟨⟨⟨_, _, _, hargs c hc⟩, fun m hm => by simp [Expr.terminals, mem_markedBy (mem_pieces hc) hm]⟩,
          .inr ((isPiece_arguments hparts hc).within (List.infix_append _ _ _))⟩
  | parenthesis hcontent =>
      obtain ⟨m, u, hu, rfl⟩ := emit_parenthesis ht
      cases List.mem_singleton.mp hc
      exact ⟨⟨⟨_, _, _, hcontent⟩, by simp +contextual [Expr.terminals]⟩,
        .inr ((isPiece_self hu).within (List.infix_append _ u _))⟩
  | brackets | dot => cases ha
  | constant | symbol => cases hc
  | _ => cases hemitted

/-- What is emitted for the accessors outside of others stands in what is emitted for the tree, and
their names are names of the tree. -/
theorem Fits.pieces (h : e.Fits depth level awaits) (ht : emit n e = .ok t) (ha : a ∈ e.outside)
    (haccessor : a.isAccessor = true) : IsPiece t a ∧ ∀ m ∈ a.terminals, m ∈ e.terminals := by
  induction e using children_induction generalizing n t depth level awaits with
  | node e ih =>
    rw [outside_eq] at ha
    rcases List.mem_cons.mp ha with rfl | ha
    · exact ⟨isPiece_self ht, fun m hm => hm⟩
    · have hnode : e.isAccessor = false := by
        by_contra hbase
        simp [outsideBelow, hbase] at ha
      simp only [outsideBelow, hnode] at ha
      obtain ⟨c, hc, ha⟩ := List.mem_flatMap.mp ha
      obtain ⟨⟨⟨_, _, _, hfits⟩, hterminals⟩, ⟨name, rfl⟩ | ⟨m, u, hu, hinfix⟩⟩ :=
        h.part hnode ht hc
      · rw [outside_eq] at ha
        cases List.mem_singleton.mp ha
        cases haccessor
      · obtain ⟨hpiece, hnames⟩ := ih c hc hfits hu ha
        exact ⟨hpiece.within hinfix, fun m hm => hterminals m (hnames m hm)⟩

end Expr
end MetricBridge.Formula
