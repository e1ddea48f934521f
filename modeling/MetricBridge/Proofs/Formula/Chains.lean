import MetricBridge.Proofs.Formula.Columns
import MetricBridge.Proofs.Formula.Height

namespace MetricBridge.Formula

/-- A computation that is followed down to the depth `n` gives what is found without a limit; below the
bound it may be too deep instead. -/
def Follows {ε α : Type} (deep : ε) (bound n : Nat) (x : Except ε α) (y : Option α) : Prop :=
  x.toOption = y ∨ x = .error deep ∧ n < bound

namespace Follows

variable {ε α β : Type} {deep : ε} {bound bound' n : Nat} {x : Except ε α} {y : Option α}

theorem pure (a : α) : Follows deep bound n (.ok a) (some a) := .inl rfl

theorem error {fault : ε} : Follows deep bound n (.error fault) (none : Option α) := .inl rfl

theorem mono (h : Follows deep bound n x y) (hle : bound ≤ bound') : Follows deep bound' n x y :=
  h.imp id fun ⟨hdeep, hlt⟩ => ⟨hdeep, by omega⟩

theorem succ (bound : Nat) (h : Follows deep bound n x y) (hlt : bound < bound') :
    Follows deep bound' (n + 1) x y :=
  h.imp id fun ⟨hdeep, hn⟩ => ⟨hdeep, by omega⟩

theorem bind {f : α → Except ε β} {g : α → Option β} (h : Follows deep bound n x y)
    (hf : ∀ a, Follows deep bound n (f a) (g a)) : Follows deep bound n (x >>= f) (y >>= g) := by
  rcases h with rfl | ⟨rfl, hlt⟩
  · cases x with
    | error fault => exact .inl rfl
    | ok a => exact hf a
  · exact .inr ⟨rfl, hlt⟩

theorem mapM {as : List α} {f : α → Except ε β} {g : α → Option β}
    (h : ∀ a ∈ as, Follows deep bound n (f a) (g a)) :
    Follows deep bound n (as.mapM f) (as.mapM g) := by
  induction as with
  | nil => exact .pure []
  | cons a as ih =>
      obtain ⟨ha, has⟩ := List.forall_mem_cons.mp h
      simp only [List.mapM_cons]
      exact ha.bind fun b => (ih has).bind fun bs => .pure (b :: bs)

end Follows

namespace Expr

mutual

/-- The text of the tree by plain recursion; a chain of comparisons without operands has none. -/
def plainText : Expr → Option Text
  | constant value => some value.text
  | symbol name => some name
  | index [constant value] true => some (lit "." ++ value.bareText)
  | index dimensions _ => return lit "[" ++ commaSeparated (← plainTexts dimensions) ++ lit "]"
  | accessor base subscript => return (← plainText base) ++ (← plainText subscript)
  | conditional condition whenTrue whenFalse =>
    return (← plainText condition) ++ lit " ? " ++ (← plainText whenTrue) ++ lit " : " ++
      (← plainText whenFalse)
  | operator op fn [arg] => do
    let operand ← plainText arg
    return if fn = .factorial then operand ++ op
      else if isWordOperator op then op ++ lit " " ++ operand
      else op ++ operand
  | operator op _ [left, right] =>
    return (← plainText left) ++ lit " " ++ op ++ lit " " ++ (← plainText right)
  | operator op _ args => return Text.joinWith (lit " " ++ op ++ lit " ") (← plainTexts args)
  | parenthesis content => return lit "(" ++ (← plainText content) ++ lit ")"
  | relational _ [] _ => none
  | relational comparisons (first :: params) ops =>
    return (← plainText first) ++
      (← plainComparisons (if ops.isEmpty then comparisons.map Operation.name else ops) params)
  | call callee args =>
    return (← plainText callee) ++ lit "(" ++ commaSeparated (← plainTexts args) ++ lit ")"
  | array items => return lit "[" ++ commaSeparated (← plainTexts items) ++ lit "]"
  | object properties =>
    return lit "\x7b" ++ commaSeparated (← plainProperties properties) ++ lit "\x7d"
  | assignment target value => return (← plainText target) ++ lit " = " ++ (← plainText value)
  | definition name params body =>
    return name ++ lit "(" ++ commaSeparated params ++ lit ") = " ++ (← plainText body)
  | block statements => return Text.joinWith (lit "; ") (← plainTexts statements)
  | range first step last =>
    return Text.joinWith (lit ":") ((← plainText first) :: (← plainStep step) ++ [← plainText last])
  | foreign text => some text
termination_by structural e => e

def plainTexts : List Expr → Option (List Text)
  | [] => some []
  | e :: es => return (← plainText e) :: (← plainTexts es)
termination_by structural es => es

def plainComparisons : List Text → List Expr → Option Text
  | sign :: signs, e :: es =>
    return lit " " ++ sign ++ lit " " ++ (← plainText e) ++ (← plainComparisons signs es)
  | _, _ => some []
termination_by structural _ es => es

def plainProperties : List (Text × Expr) → Option (List Text)
  | [] => some []
  | (key, e) :: ps => return (key.quote ++ lit ": " ++ (← plainText e)) :: (← plainProperties ps)
termination_by structural ps => ps

def plainStep : Option Expr → Option (List Text)
  | none => some []
  | some e => return [← plainText e]
termination_by structural step => step

end

mutual

def plainEmission : Expr → Option Text
  | constant value => some value.text
  | symbol name => some name
  | accessor base subscript => (emitAccessor 0 (.accessor base subscript) base subscript).toOption
  | conditional condition whenTrue whenFalse =>
    return lit "IF(" ++ (← plainEmission condition) ++ lit ", " ++ (← plainEmission whenTrue) ++
      lit ", " ++ (← plainEmission whenFalse) ++ lit ")"
  | parenthesis content => return lit "(" ++ (← plainEmission content) ++ lit ")"
  | operator op fn [left, right] =>
    if fn.symbol?.isSome then
      return (← plainEmission left) ++ lit " " ++ op ++ lit " " ++ (← plainEmission right)
    else none
  | operator op fn [arg] =>
    if fn.symbol?.isSome then do
      let operand ← plainEmission arg
      return if fn = .factorial then operand ++ op
        else if isWordText op then op ++ lit " " ++ operand
        else op ++ operand
    else none
  | operator op fn args =>
    if fn.symbol?.isSome then
      return Text.joinWith (lit " " ++ op ++ lit " ") (← plainEmissions args)
    else none
  | relational _ [] _ => none
  | relational comparisons (first :: params) _ =>
    return (← plainEmission first) ++ (← plainEmittedComparisons comparisons params)
  | call (symbol name) args => match functionName? name with
    | some target => return target ++ lit "(" ++ commaSeparated (← plainEmissions args) ++ lit ")"
    | none => none
  | _ => none
termination_by structural e => e

def plainEmissions : List Expr → Option (List Text)
  | [] => some []
  | e :: es => return (← plainEmission e) :: (← plainEmissions es)
termination_by structural es => es

def plainEmittedComparisons : List Operation → List Expr → Option Text
  | [], [] => some []
  | fn :: fns, e :: es => match fn.symbol? with
    | some sign =>
      return lit " " ++ sign ++ lit " " ++ (← plainEmission e) ++ (← plainEmittedComparisons fns es)
    | none => none
  | _, _ => none
termination_by structural _ es => es

end

variable {e : Expr} {es : List Expr}

theorem plainTexts_eq_mapM (es : List Expr) : plainTexts es = es.mapM plainText := by
  induction es with
  | nil => rfl
  | cons e es ih => rw [plainTexts, ih, List.mapM_cons]

theorem plainProperties_eq_mapM (properties : List (Text × Expr)) : plainProperties properties =
    properties.mapM fun (key, e) => return key.quote ++ lit ": " ++ (← plainText e) := by
  induction properties with
  | nil => rfl
  | cons p ps ih =>
      obtain ⟨key, e⟩ := p
      rw [plainProperties, ih, List.mapM_cons]
      simp only [bind_assoc, pure_bind]

theorem plainStep_eq_mapM (step : Option Expr) : plainStep step = step.toList.mapM plainText := by
  cases step with
  | none => rfl
  | some e => simp [plainStep]

theorem plainText_range (first last : Expr) (step : Option Expr) :
    plainText (.range first step last) =
      return Text.joinWith (lit ":") (← (first :: step.toList ++ [last]).mapM plainText) := by
  rw [plainText, plainStep_eq_mapM, List.cons_append, List.mapM_cons, List.mapM_append]
  simp only [bind_assoc, pure_bind, List.mapM_cons, List.mapM_nil, List.cons_append]

theorem plainComparisons_eq (signs : List Text) (es : List Expr) : plainComparisons signs es =
    return interleave signs (← (es.take signs.length).mapM plainText) := by
  induction es generalizing signs with
  | nil => cases signs <;> rfl
  | cons e es ih =>
      cases signs with
      | nil => rfl
      | cons sign signs =>
          rw [plainComparisons, ih, List.length_cons, List.take_succ_cons, List.mapM_cons]
          simp only [bind_assoc, pure_bind, interleave]

theorem plainEmissions_eq_mapM (es : List Expr) : plainEmissions es = es.mapM plainEmission := by
  induction es with
  | nil => rfl
  | cons e es ih => rw [plainEmissions, ih, List.mapM_cons]

def joinChain (plain : Expr → Option Text) (head : Expr) (links : List Link) : Option Text := do
  let first ← plain head
  let rest ← links.mapM fun link => return lit " " ++ link.op ++ lit " " ++ (← plain link.right)
  return first ++ rest.flatten

/-- A recursion over binary operators is followed along the left spine. -/
theorem joinChain_spineOnto {plain : Expr → Option Text} (known : Operation → Bool)
    (hbinary : ∀ op fn left right, plain (.operator op fn [left, right]) = if known fn then
      (return (← plain left) ++ lit " " ++ op ++ lit " " ++ (← plain right)) else none)
    (e : Expr) (links : List Link) :
    (if links.all fun k => known k.fn then joinChain plain e links else none) =
      if (spineOnto e links).2.all fun k => known k.fn then
        joinChain plain (spineOnto e links).1 (spineOnto e links).2
      else none := by
  fun_induction spineOnto e links with
  | case1 op fn left right links ih =>
      rw [← ih]
      cases hfn : known fn with
      | false => simp [joinChain, hbinary, hfn]
      | true => simp [joinChain, hbinary, hfn, List.mapM_cons, Option.bind_assoc]
  | case2 e links h => rfl

theorem eq_joinChain_spine {plain : Expr → Option Text} (known : Operation → Bool)
    (hbinary : ∀ op fn left right, plain (.operator op fn [left, right]) = if known fn then
      (return (← plain left) ++ lit " " ++ op ++ lit " " ++ (← plain right)) else none) (e : Expr) :
    plain e = if e.spine.2.all fun k => known k.fn then joinChain plain e.spine.1 e.spine.2
      else none := by
  have hself : joinChain plain e [] = plain e := by simp [joinChain]
  exact hself.symm.trans (joinChain_spineOnto known hbinary e [])

theorem plainText_eq_joinChain (e : Expr) :
    e.plainText = joinChain plainText e.spine.1 e.spine.2 := by
  have hbinary : ∀ op fn left right, plainText (.operator op fn [left, right]) =
      if true then (return (← plainText left) ++ lit " " ++ op ++ lit " " ++ (← plainText right))
      else none := fun _ _ _ _ => rfl
  exact (eq_joinChain_spine (fun _ => true) hbinary e).trans (if_pos (by simp))

theorem plainEmission_eq_joinChain (e : Expr) : e.plainEmission =
    if e.spine.2.all fun k => k.fn.symbol?.isSome then joinChain plainEmission e.spine.1 e.spine.2
    else none :=
  eq_joinChain_spine (fun fn => fn.symbol?.isSome) (fun _ _ _ _ => rfl) e

theorem follows_joinChain {ε : Type} {deep : ε} {b n : Nat} {written : Expr → Except ε Text}
    {plain : Expr → Option Text} {links : List Link} (he : Follows deep b n (written e) (plain e))
    (hlinks : ∀ k ∈ links, Follows deep b n (written k.right) (plain k.right)) :
    Follows deep b n (do
      let first ← written e
      let rest ← links.mapM fun link => return lit " " ++ link.op ++ lit " " ++ (← written link.right)
      return first ++ rest.flatten) (joinChain plain e links) :=
  he.bind fun _ => .bind (.mapM fun k hk => (hlinks k hk).bind fun _ => .pure _) fun _ => .pure _

theorem follows_plainText (e : Expr) (n : Nat) :
    Follows .tooDeep e.height n (render n e) e.plainText := by
  induction n generalizing e with
  | zero => exact .inr ⟨rfl, e.height_pos⟩
  | succ n ih =>
      have hpart : ∀ {e b}, e.height ≤ b → Follows .tooDeep b n (render n e) e.plainText :=
        fun hb => (ih _).mono hb
      have hparts : ∀ {es b}, heights es ≤ b →
          Follows .tooDeep b n (es.mapM (render n)) (plainTexts es) := by
        intro es b hb
        rw [plainTexts_eq_mapM]
        exact .mapM fun e he => hpart ((height_le_heights he).trans hb)
      cases e with
      | constant value => exact .pure _
      | symbol name => exact .pure _
      | index dimensions dot =>
          refine Follows.succ (heights dimensions) ?_ (by simp only [height]; omega)
          simp only [render]
          split
          · exact .pure _
          · rename_i hbare
            rw [plainText]
            · exact (hparts le_rfl).bind fun ts => .pure _
            · exact fun value hdimensions hdot => hbare value hdot hdimensions
      | accessor base subscript =>
          refine Follows.succ (max base.height subscript.height) ?_ (by simp only [height]; omega)
          simp only [plainText]
          exact (hpart (by omega)).bind fun t => (hpart (by omega)).bind fun t' => .pure _
      | conditional condition whenTrue whenFalse =>
          refine Follows.succ (max condition.height (max whenTrue.height whenFalse.height)) ?_
            (by simp only [height]; omega)
          simp only [plainText]
          exact (hpart (by omega)).bind fun t => (hpart (by omega)).bind fun t' =>
            (hpart (by omega)).bind fun t'' => .pure _
      | operator op fn args =>
          rcases args with _ | ⟨arg, _ | ⟨right, _ | ⟨a, as⟩⟩⟩
          · exact .pure _
          · refine Follows.succ (heights [arg]) ?_ (by simp only [height]; omega)
            simp only [plainText]
            exact (hpart (height_le_heights List.mem_cons_self)).bind fun t => .pure _
          · obtain ⟨hhead, hlinks⟩ := height_spine_lt (e := .operator op fn [arg, right]) rfl
            refine Follows.succ ((operator op fn [arg, right]).height - 1) ?_
              (Nat.sub_lt (height_pos _) Nat.one_pos)
            rw [plainText_eq_joinChain]
            exact follows_joinChain (hpart (Nat.le_sub_one_of_lt hhead))
              fun k hk => hpart (Nat.le_sub_one_of_lt (hlinks k hk))
          · refine Follows.succ (heights (arg :: right :: a :: as)) ?_ (by simp only [height]; omega)
            exact (hparts le_rfl).bind fun ts => .pure _
      | parenthesis content =>
          refine Follows.succ content.height ?_ (by simp only [height]; omega)
          exact (hpart le_rfl).bind fun t => .pure _
      | relational comparisons params ops =>
          cases params with
          | nil => exact .error
          | cons first params =>
              refine Follows.succ (heights (first :: params)) ?_ (by simp only [height]; omega)
              simp only [plainText, plainComparisons_eq, bind_assoc, pure_bind]
              refine (hpart (height_le_heights List.mem_cons_self)).bind fun t => ?_
              refine Follows.bind (.mapM fun p hmem => ?_) fun ts => .pure _
              exact hpart (height_le_heights (List.mem_cons_of_mem _ (List.mem_of_mem_take hmem)))
      | call callee args =>
          refine Follows.succ (max callee.height (heights args)) ?_
            (by simp only [height]; omega)
          exact (hpart (by omega)).bind fun t => (hparts (by omega)).bind fun ts => .pure _
      | array items =>
          refine Follows.succ (heights items) ?_ (by simp only [height]; omega)
          exact (hparts le_rfl).bind fun ts => .pure _
      | object properties =>
          refine Follows.succ (propertyHeights properties) ?_ (by simp only [height]; omega)
          rw [plainText, plainProperties_eq_mapM]
          refine Follows.bind (.mapM fun p hmem => ?_) fun ts => .pure _
          exact (hpart (height_le_propertyHeights hmem)).bind fun t => .pure _
      | assignment target value =>
          refine Follows.succ (max target.height value.height) ?_ (by simp only [height]; omega)
          exact (hpart (by omega)).bind fun t => (hpart (by omega)).bind fun t' => .pure _
      | definition name params body =>
          refine Follows.succ body.height ?_ (by simp only [height]; omega)
          exact (hpart le_rfl).bind fun t => .pure _
      | block statements =>
          refine Follows.succ (heights statements) ?_ (by simp only [height]; omega)
          exact (hparts le_rfl).bind fun ts => .pure _
      | range first step last =>
          refine Follows.succ (max first.height (max (stepHeight step) last.height)) ?_
            (by simp only [height]; omega)
          rw [plainText_range]
          refine Follows.bind (.mapM fun p hmem => ?_) fun ts => .pure _
          simp only [List.mem_append, List.mem_cons, Option.mem_toList, List.not_mem_nil,
            or_false] at hmem
          rcases hmem with (rfl | hmem) | rfl
          · exact hpart (by omega)
          · have hstep := height_le_stepHeight hmem
            exact hpart (by omega)
          · exact hpart (by omega)
      | foreign text => exact .pure _

theorem toOption_refuse {α : Type} (depth : Nat) (refusal : Refusal) (e : Expr) :
    (refuse depth refusal e : Except EmitFault α).toOption = none := by
  unfold refuse
  split <;> rfl

theorem toOption_unknown_call (depth : Nat) (callee e : Expr) :
    (match quoted depth callee with
      | .error f => .error f
      | .ok name => refuse depth (.function name) e : Emission).toOption = none := by
  split
  · rfl
  · exact toOption_refuse _ _ _

theorem toOption_eq_some {ε α : Type} {x : Except ε α} {a : α} :
    x.toOption = some a ↔ x = .ok a := by
  cases x <;> simp [Except.toOption]

theorem toOption_emitAccessor (n m : Nat) (e base subscript : Expr) :
    (emitAccessor n e base subscript).toOption = (emitAccessor m e base subscript).toOption := by
  ext t
  rw [toOption_eq_some, toOption_eq_some, emitAccessor_eq_ok, emitAccessor_eq_ok]

section Emission

variable {α : Type} {deep : EmitFault} {b n depth : Nat}

theorem follows_check {x : Except EmitFault α} {y : Option α} (h : Follows deep b n x y)
    (op : Text) (fn : Operation) (whole : Expr) :
    Follows deep b n (checkLink depth op fn whole >>= fun _ => x)
      (if fn.symbol?.isSome then y else none) := by
  unfold checkLink
  split
  · exact h
  · have hnone : Follows deep b n (refuse depth (.operator op) whole) (none : Option Unit) :=
      .inl (toOption_refuse _ _ _)
    exact hnone.bind fun _ => h

theorem follows_checks {x : Except EmitFault α} {y : Option α} (h : Follows deep b n x y)
    (links : List Link) :
    Follows deep b n ((links.forM fun k => checkLink depth k.op k.fn k.whole) >>= fun _ => x)
      (if links.all fun k => k.fn.symbol?.isSome then y else none) := by
  induction links with
  | nil => exact h
  | cons k links ih =>
      have hstep : Follows deep b n (checkLink depth k.op k.fn k.whole >>= fun _ => _) _ :=
        follows_check ih k.op k.fn k.whole
      rw [List.forM_eq_forM] at hstep ⊢
      rw [List.forM_cons, bind_assoc]
      simpa only [List.all_cons, Bool.and_eq_true, ite_and] using hstep

theorem follows_comparisons {emitted : Expr → Emission} {whole : Expr} {es : List Expr}
    (h : ∀ e ∈ es, Follows deep b n (emitted e) e.plainEmission) (fns : List Operation) :
    Follows deep b n (emitComparisons emitted depth whole fns es) (plainEmittedComparisons fns es) := by
  induction es generalizing fns with
  | nil => cases fns with
    | nil => exact .pure _
    | cons fn fns => exact .error
  | cons e es ih =>
      obtain ⟨he, hes⟩ := List.forall_mem_cons.mp h
      cases fns with
      | nil => exact .error
      | cons fn fns =>
          rw [emitComparisons, plainEmittedComparisons]
          cases fn.symbol? with
          | none => exact .inl (toOption_refuse _ _ _)
          | some sign => exact he.bind fun t => (ih hes fns).bind fun t' => .pure _

end Emission

theorem follows_plainEmission (e : Expr) (n : Nat) :
    Follows (.unrendered .tooDeep) e.height n (emit n e) e.plainEmission := by
  induction n generalizing e with
  | zero => exact .inr ⟨rfl, e.height_pos⟩
  | succ n ih =>
      have hpart : ∀ {e b}, e.height ≤ b →
          Follows (.unrendered .tooDeep) b n (emit n e) e.plainEmission := fun hb => (ih _).mono hb
      have hparts : ∀ {es b}, heights es ≤ b →
          Follows (.unrendered .tooDeep) b n (es.mapM (emit n)) (plainEmissions es) := by
        intro es b hb
        rw [plainEmissions_eq_mapM]
        exact .mapM fun e he => hpart ((height_le_heights he).trans hb)
      cases e with
      | constant value => exact .pure _
      | symbol name => exact .pure _
      | accessor base subscript => exact .inl (toOption_emitAccessor n 0 _ _ _)
      | conditional condition whenTrue whenFalse =>
          refine Follows.succ (max condition.height (max whenTrue.height whenFalse.height)) ?_
            (by simp only [height]; omega)
          exact (hpart (by omega)).bind fun t => (hpart (by omega)).bind fun t' =>
            (hpart (by omega)).bind fun t'' => .pure _
      | parenthesis content =>
          refine Follows.succ content.height ?_ (by simp only [height]; omega)
          exact (hpart le_rfl).bind fun t => .pure _
      | operator op fn args =>
          rcases args with _ | ⟨arg, _ | ⟨right, _ | ⟨a, as⟩⟩⟩
          · exact follows_check (.pure _) op fn _
          · refine Follows.succ (heights [arg]) ?_ (by simp only [height]; omega)
            have harg := hpart (height_le_heights (List.mem_cons_self (a := arg) (l := [])))
            exact follows_check (harg.bind fun t => .pure _) op fn _
          · obtain ⟨hhead, hlinks⟩ := height_spine_lt (e := .operator op fn [arg, right]) rfl
            refine Follows.succ ((operator op fn [arg, right]).height - 1) ?_
              (Nat.sub_lt (height_pos _) Nat.one_pos)
            rw [plainEmission_eq_joinChain]
            refine follows_checks (follows_joinChain (hpart (Nat.le_sub_one_of_lt hhead)) ?_) _
            exact fun k hk => hpart (Nat.le_sub_one_of_lt (hlinks k hk))
          · refine Follows.succ (heights (arg :: right :: a :: as)) ?_ (by simp only [height]; omega)
            exact follows_check ((hparts le_rfl).bind fun ts => .pure _) op fn _
      | relational comparisons params ops =>
          cases params with
          | nil => exact .error
          | cons first params =>
              refine Follows.succ (heights (first :: params)) ?_ (by simp only [height]; omega)
              refine (hpart (height_le_heights List.mem_cons_self)).bind fun t =>
                .bind (follows_comparisons (fun e he => ?_) comparisons) fun t' => .pure _
              exact hpart (height_le_heights (List.mem_cons_of_mem _ he))
      | call callee args =>
          refine Follows.succ (heights args) ?_ (by simp only [height]; omega)
          cases callee with
          | symbol name =>
              simp only [emit, plainEmission]
              cases functionName? name with
              | none => exact .inl (toOption_unknown_call n _ _)
              | some target => exact (hparts le_rfl).bind fun ts => .pure _
          | _ => exact .inl (toOption_unknown_call n _ _)
      | _ => exact .inl (toOption_refuse _ _ _)

end Expr

/-- Any tree, also one that no formula denotes, is written and emitted as by plain recursion, and is
refused where that refuses it, if it is followed as deep as its nodes are nested. At a lower depth it may
be too deep instead. -/
theorem chains_as_recursion (e : Expr) (n : Nat) :
    (e.render (e.height + n)).toOption = e.plainText ∧
    (e.emit (e.height + n)).toOption = e.plainEmission ∧
    ((∃ fault, e.emit (e.height + n) = .error fault) ↔ e.plainEmission = none) ∧
    ((e.render n).toOption = e.plainText ∨ e.render n = .error .tooDeep ∧ n < e.height) ∧
    ((e.emit n).toOption = e.plainEmission ∨
      e.emit n = .error (.unrendered .tooDeep) ∧ n < e.height) := by
  have hdeep : ¬ e.height + n < e.height := Nat.not_lt.mpr (Nat.le_add_right e.height n)
  have htext : (e.render (e.height + n)).toOption = e.plainText :=
    (e.follows_plainText (e.height + n)).resolve_right fun h => hdeep h.2
  have hemission : (e.emit (e.height + n)).toOption = e.plainEmission :=
    (e.follows_plainEmission (e.height + n)).resolve_right fun h => hdeep h.2
  refine ⟨htext, hemission, ?_, e.follows_plainText n, e.follows_plainEmission n⟩
  rw [← hemission]
  cases e.emit (e.height + n) with
  | error fault => exact iff_of_true ⟨fault, rfl⟩ rfl
  | ok t => exact iff_of_false nofun nofun

end MetricBridge.Formula
