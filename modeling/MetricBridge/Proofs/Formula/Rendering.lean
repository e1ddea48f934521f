import MetricBridge.Proofs.Formula.Calculated
import MetricBridge.Proofs.Formula.Emission

namespace MetricBridge.Formula

namespace Expr

mutual

def written : Expr → Text
  | constant value => value.text
  | symbol name => name
  | index [constant value] true => lit "." ++ value.bareText
  | index dimensions _ => lit "[" ++ commaSeparated (writtenAll dimensions) ++ lit "]"
  | accessor base subscript => written base ++ written subscript
  | conditional condition whenTrue whenFalse =>
    written condition ++ lit " ? " ++ written whenTrue ++ lit " : " ++ written whenFalse
  | operator op fn [arg] =>
    if fn = .factorial then written arg ++ op
    else if isWordOperator op then op ++ lit " " ++ written arg
    else op ++ written arg
  | operator op _ args => Text.joinWith (lit " " ++ op ++ lit " ") (writtenAll args)
  | parenthesis content => lit "(" ++ written content ++ lit ")"
  | relational _ [] _ => []
  | relational comparisons (first :: params) ops =>
    written first ++
      interleave (if ops.isEmpty then comparisons.map Operation.name else ops) (writtenAll params)
  | call callee args => written callee ++ lit "(" ++ commaSeparated (writtenAll args) ++ lit ")"
  | array items => lit "[" ++ commaSeparated (writtenAll items) ++ lit "]"
  | object properties =>
    lit "\x7b" ++ commaSeparated (writtenProperties properties) ++ lit "\x7d"
  | assignment target value => written target ++ lit " = " ++ written value
  | definition name params body =>
    name ++ lit "(" ++ commaSeparated params ++ lit ") = " ++ written body
  | block statements => Text.joinWith (lit "; ") (writtenAll statements)
  | range first step last =>
    Text.joinWith (lit ":") (written first :: writtenStep step ++ [written last])
  | foreign text => text
termination_by structural e => e

def writtenAll : List Expr → List Text
  | [] => []
  | e :: es => written e :: writtenAll es
termination_by structural es => es

def writtenProperties : List (Text × Expr) → List Text
  | [] => []
  | (key, e) :: ps => (key.quote ++ lit ": " ++ written e) :: writtenProperties ps
termination_by structural ps => ps

def writtenStep : Option Expr → List Text
  | none => []
  | some e => [written e]
termination_by structural step => step

end

theorem writtenAll_eq_map (es : List Expr) : writtenAll es = es.map written := by
  induction es with
  | nil => rfl
  | cons e es ih => rw [writtenAll, ih, List.map_cons]

theorem writtenProperties_eq_map (ps : List (Text × Expr)) :
    writtenProperties ps = ps.map fun p => p.1.quote ++ lit ": " ++ p.2.written := by
  induction ps with
  | nil => rfl
  | cons p ps ih => rw [writtenProperties, ih, List.map_cons]

theorem writtenStep_eq_map (step : Option Expr) : writtenStep step = step.toList.map written := by
  cases step <;> rfl

theorem written_binary (op : Text) (fn : Operation) (left right : Expr) :
    (operator op fn [left, right]).written =
      left.written ++ (lit " " ++ op ++ lit " " ++ right.written) := by
  simp [written, writtenAll, Text.joinWith]

def Link.written (k : Link) : Text := lit " " ++ k.op ++ lit " " ++ k.right.written

theorem written_spineOnto (e : Expr) (links : List Link) :
    (spineOnto e links).1.written ++ ((spineOnto e links).2.map Link.written).flatten =
      e.written ++ (links.map Link.written).flatten := by
  fun_induction spineOnto e links with
  | case1 op fn left right links ih =>
      rw [ih, written_binary, List.map_cons, List.flatten_cons, List.append_assoc]
      rfl
  | case2 => rfl

variable {n : Nat} {e : Expr} {t : Text}

theorem map_of_mapM {α : Type} {f : α → Except RenderFault Text} {g : α → Text} {as : List α}
    {ts : List Text} (hf : ∀ a t, f a = .ok t → t = g a) (h : as.mapM f = .ok ts) :
    ts = as.map g := by
  have hall := forall₂_of_mapM h
  clear h
  induction hall with
  | nil => rfl
  | cons ha _ ih => rw [List.map_cons, ← hf _ _ ha, ← ih]

theorem interleave_take (ops : List Text) (params : List Text) :
    interleave ops (params.take ops.length) = interleave ops params := by
  induction ops generalizing params with
  | nil => rfl
  | cons op ops ih =>
      cases params with
      | nil => rfl
      | cons param params => simp [interleave, ih]

/-- What is rendered is the text of the tree, the loop over the spine included. -/
theorem written_of_render (h : render n e = .ok t) : t = e.written := by
  induction n generalizing e t with
  | zero => cases h
  | succ n ih =>
      have hall : ∀ {es : List Expr} {ts : List Text}, es.mapM (render n) = .ok ts →
          ts = writtenAll es := by
        intro es ts hes
        rw [writtenAll_eq_map]
        exact map_of_mapM (fun _ _ => ih) hes
      cases e with
      | constant | symbol | foreign => exact (Except.ok.inj h).symm
      | index dimensions dot =>
          unfold render at h
          dsimp only at h
          split at h
          · exact (Except.ok.inj h).symm
          · rename_i hdot
            obtain ⟨parts, hparts, h⟩ := bind_eq_ok.mp h
            cases h
            rw [hall hparts, written]
            exact fun v hv hd => hdot v hd hv
      | accessor base subscript =>
          obtain ⟨a, ha, h⟩ := bind_eq_ok.mp h
          obtain ⟨b, hb, h⟩ := bind_eq_ok.mp h
          cases h
          rw [ih ha, ih hb, written]
      | conditional condition whenTrue whenFalse =>
          obtain ⟨a, ha, h⟩ := bind_eq_ok.mp h
          obtain ⟨b, hb, h⟩ := bind_eq_ok.mp h
          obtain ⟨c, hc, h⟩ := bind_eq_ok.mp h
          cases h
          rw [ih ha, ih hb, ih hc, written]
      | operator op fn args =>
          match args with
          | [arg] =>
              obtain ⟨a, ha, h⟩ := bind_eq_ok.mp h
              cases h
              rw [ih ha, written]
          | [left, right] =>
              obtain ⟨first, hfirst, h⟩ := bind_eq_ok.mp h
              obtain ⟨rest, hrest, h⟩ := bind_eq_ok.mp h
              cases h
              have hlinks : rest = (operator op fn [left, right]).spine.2.map Link.written := by
                refine map_of_mapM (fun k u hk => ?_) hrest
                obtain ⟨a, ha, hk⟩ := bind_eq_ok.mp hk
                cases hk
                rw [Link.written, ih ha]
              rw [ih hfirst, hlinks]
              exact (written_spineOnto (operator op fn [left, right]) []).trans (List.append_nil _)
          | [] | _ :: _ :: _ :: _ =>
              obtain ⟨parts, hparts, h⟩ := bind_eq_ok.mp h
              cases h
              rw [hall hparts, written]
              · nofun
      | parenthesis content =>
          obtain ⟨a, ha, h⟩ := bind_eq_ok.mp h
          cases h
          rw [ih ha, written]
      | relational comparisons params ops =>
          cases params with
          | nil => cases h
          | cons first params =>
              obtain ⟨a, ha, h⟩ := bind_eq_ok.mp h
              obtain ⟨parts, hparts, h⟩ := bind_eq_ok.mp h
              cases h
              rw [ih ha, hall hparts, written, writtenAll_eq_map, List.map_take, interleave_take,
                writtenAll_eq_map]
      | call callee args =>
          obtain ⟨a, ha, h⟩ := bind_eq_ok.mp h
          obtain ⟨parts, hparts, h⟩ := bind_eq_ok.mp h
          cases h
          rw [ih ha, hall hparts, written]
      | array items =>
          obtain ⟨parts, hparts, h⟩ := bind_eq_ok.mp h
          cases h
          rw [hall hparts, written]
      | object properties =>
          obtain ⟨parts, hparts, h⟩ := bind_eq_ok.mp h
          cases h
          rw [written, writtenProperties_eq_map]
          congr 3
          refine map_of_mapM (fun p u hp => ?_) hparts
          obtain ⟨a, ha, hp⟩ := bind_eq_ok.mp hp
          cases hp
          rw [ih ha]
      | assignment target value =>
          obtain ⟨a, ha, h⟩ := bind_eq_ok.mp h
          obtain ⟨b, hb, h⟩ := bind_eq_ok.mp h
          cases h
          rw [ih ha, ih hb, written]
      | definition name params body =>
          obtain ⟨a, ha, h⟩ := bind_eq_ok.mp h
          cases h
          rw [ih ha, written]
      | block statements =>
          obtain ⟨parts, hparts, h⟩ := bind_eq_ok.mp h
          cases h
          rw [hall hparts, written]
      | range first step last =>
          obtain ⟨parts, hparts, h⟩ := bind_eq_ok.mp h
          cases h
          rw [hall hparts, written, writtenAll_eq_map, writtenStep_eq_map]
          simp

mutual

/-- The tree with the constants and the keys of its objects as their texts are read. -/
def reparsed : Expr → Expr
  | constant value => value.reread
  | symbol name => symbol name
  | index [constant value] true => index [constant value] true
  | index dimensions dot => index (reparsedAll dimensions) dot
  | accessor base subscript => accessor (reparsed base) (reparsed subscript)
  | conditional condition whenTrue whenFalse =>
    conditional (reparsed condition) (reparsed whenTrue) (reparsed whenFalse)
  | operator op fn args => operator op fn (reparsedAll args)
  | parenthesis content => parenthesis (reparsed content)
  | relational comparisons params ops => relational comparisons (reparsedAll params) ops
  | call callee args => call (reparsed callee) (reparsedAll args)
  | array items => array (reparsedAll items)
  | object properties => object (reparsedProperties properties)
  | assignment target value => assignment (reparsed target) (reparsed value)
  | definition name params body => definition name params (reparsed body)
  | block statements => block (reparsedAll statements)
  | range first step last => range (reparsed first) (reparsedStep step) (reparsed last)
  | foreign text => foreign text
termination_by structural e => e

def reparsedAll : List Expr → List Expr
  | [] => []
  | e :: es => reparsed e :: reparsedAll es
termination_by structural es => es

def reparsedProperties : List (Text × Expr) → List (Text × Expr)
  | [] => []
  | (key, e) :: ps => (key.units, reparsed e) :: reparsedProperties ps
termination_by structural ps => ps

def reparsedStep : Option Expr → Option Expr
  | none => none
  | some e => some (reparsed e)
termination_by structural step => step

end

theorem reparsedAll_eq_map (es : List Expr) : reparsedAll es = es.map reparsed := by
  induction es with
  | nil => rfl
  | cons e es ih => rw [reparsedAll, ih, List.map_cons]

theorem reparsedProperties_eq_map (ps : List (Text × Expr)) :
    reparsedProperties ps = ps.map fun p => (p.1.units, p.2.reparsed) := by
  induction ps with
  | nil => rfl
  | cons p ps ih => rw [reparsedProperties, ih, List.map_cons]

theorem reparsedStep_eq_map (step : Option Expr) : reparsedStep step = step.map reparsed := by
  cases step <;> rfl

theorem reread_cases (v : Literal) :
    (∃ v', v.reread = .constant v') ∨ ∃ name, v.reread = .symbol name := by
  cases v with
  | float x =>
      rw [Literal.reread]
      split
      · exact .inl ⟨_, rfl⟩
      · split
        · exact .inr ⟨_, rfl⟩
        · exact .inl ⟨_, rfl⟩
  | int | string | bool | null => exact .inl ⟨_, rfl⟩

def Link.reparsed (k : Link) : Link := ⟨k.op, k.fn, k.right.reparsed, k.whole.reparsed⟩

theorem eq_constant_of_reparsed {v : Literal} (h : e.reparsed = .constant v) :
    ∃ v', e = .constant v' := by
  unfold reparsed at h
  split at h <;> first | exact ⟨_, rfl⟩ | cases h

theorem eq_binary_of_reparsed {op : Text} {fn : Operation} {left right : Expr}
    (h : e.reparsed = .operator op fn [left, right]) :
    ∃ left' right', e = .operator op fn [left', right'] := by
  unfold reparsed at h
  split at h
  · rename_i v
    rcases reread_cases v with ⟨_, hv⟩ | ⟨_, hv⟩ <;> cases hv.symm.trans h
  · cases h
  · cases h
  · cases h
  · cases h
  · cases h
  · rename_i args
    match args with
    | [left', right'] => cases h; exact ⟨_, _, rfl⟩
    | [] | [_] | _ :: _ :: _ :: _ => cases h
  all_goals cases h

theorem spineOnto_reparsed (e : Expr) (links : List Link) :
    spineOnto e.reparsed (links.map Link.reparsed) =
      ((spineOnto e links).1.reparsed, (spineOnto e links).2.map Link.reparsed) := by
  fun_induction spineOnto e links with
  | case1 op fn left right links ih => exact ih
  | case2 e links h =>
      rw [spineOnto]
      intro op fn left right he
      obtain ⟨left', right', rfl⟩ := eq_binary_of_reparsed he
      exact h _ _ _ _ rfl

theorem mapM_congr {α : Type} {f g : α → Except RenderFault Text} {as : List α}
    (h : ∀ a ∈ as, f a = g a) : as.mapM f = as.mapM g := by
  induction as with
  | nil => rfl
  | cons a as ih =>
      obtain ⟨ha, has⟩ := List.forall_mem_cons.mp h
      rw [List.mapM_cons, List.mapM_cons, ha, ih has]

theorem render_reread (v : Literal) : render (n + 1) v.reread = render (n + 1) (.constant v) := by
  cases v with
  | float x =>
      rw [Literal.reread]
      split
      · rename_i hwhole
        exact congrArg Except.ok (if_pos hwhole).symm
      · rename_i hwhole
        split
        · exact congrArg Except.ok (if_neg hwhole).symm
        · rfl
  | string t => exact congrArg Except.ok t.quote_units
  | int | bool | null => rfl

theorem reparsed_index {dimensions : List Expr} {dot : Bool}
    (h : ∀ v, dimensions = [.constant v] → dot = true → False) :
    (index dimensions dot).reparsed = .index (reparsedAll dimensions) dot := by
  rw [reparsed]
  exact h

theorem render_index {dimensions : List Expr} {dot : Bool}
    (h : ∀ v, dimensions = [.constant v] → dot = true → False) :
    render (n + 1) (.index dimensions dot) = do
      let parts ← dimensions.mapM (render n)
      return lit "[" ++ commaSeparated parts ++ lit "]" := by
  rw [render]
  exact fun v hd hv => h v hv hd

/-- Within every depth the tree is written like the tree that its text is read as. -/
theorem render_reparsed (n : Nat) (e : Expr) : render n e.reparsed = render n e := by
  induction n generalizing e with
  | zero => rfl
  | succ n ih =>
      have hall : ∀ es : List Expr, (reparsedAll es).mapM (render n) = es.mapM (render n) := by
        intro es
        rw [reparsedAll_eq_map, List.mapM_map]
        exact mapM_congr fun e _ => ih e
      cases e with
      | constant v => exact render_reread v
      | symbol | foreign => rfl
      | index dimensions dot =>
          by_cases hdot : dot = true ∧ ∃ v, dimensions = [.constant v]
          · obtain ⟨rfl, v, rfl⟩ := hdot
            rfl
          · have hdots : ∀ v, dimensions = [.constant v] → dot = true → False :=
              fun v hv hd => hdot ⟨hd, v, hv⟩
            rw [reparsed_index hdots, render_index hdots, render_index, hall]
            intro v hv hd
            have hlength := congrArg List.length hv
            rw [reparsedAll_eq_map, List.length_map] at hlength
            obtain ⟨c, rfl⟩ := List.length_eq_one_iff.mp hlength
            obtain ⟨v', rfl⟩ := eq_constant_of_reparsed (List.cons.inj hv).1
            exact hdots v' rfl hd
      | operator op fn args =>
          match args with
          | [arg] => simp only [reparsed, reparsedAll, render, ih]
          | [left, right] =>
              have hspine : (operator op fn [left.reparsed, right.reparsed]).spine =
                  ((operator op fn [left, right]).spine.1.reparsed,
                    (operator op fn [left, right]).spine.2.map Link.reparsed) :=
                spineOnto_reparsed (operator op fn [left, right]) []
              simp only [reparsed, reparsedAll, render, hspine, List.mapM_map, Function.comp_def,
                Link.reparsed, ih]
          | [] => rfl
          | a :: a' :: a'' :: as =>
              have hargs := hall (a :: a' :: a'' :: as)
              simp only [reparsed, reparsedAll, render] at hargs ⊢
              rw [hargs]
      | relational comparisons params ops =>
          cases params with
          | nil => rfl
          | cons first params =>
              have htake : ∀ k, ((reparsedAll params).take k).mapM (render n) =
                  (params.take k).mapM (render n) := by
                intro k
                rw [reparsedAll_eq_map, ← List.map_take, ← reparsedAll_eq_map, hall]
              simp only [reparsed, reparsedAll, render, ih, htake]
      | object properties =>
          simp only [reparsed, render, reparsedProperties_eq_map, List.mapM_map, Function.comp_def,
            ih, Text.quote_units]
      | range first step last =>
          have hparts : first.reparsed :: step.toList.map reparsed ++ [last.reparsed] =
              reparsedAll (first :: step.toList ++ [last]) := by
            simp [reparsedAll_eq_map]
          simp only [reparsed, render, reparsedStep_eq_map, Option.toList_map, hparts, hall]
      | _ => simp only [reparsed, render, ih, hall]

end Expr

end MetricBridge.Formula
