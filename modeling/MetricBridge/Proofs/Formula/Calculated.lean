import MetricBridge.Formula.CalculatedField
import MetricBridge.Proofs.Text.Quoted

namespace MetricBridge.Formula

namespace Expr

variable (f : Expr → Expr)

mutual

def rewrite : Expr → Expr
  | constant value => f (constant value)
  | symbol name => f (symbol name)
  | index dimensions dot => f (index (rewriteAll dimensions) dot)
  | accessor base subscript => f (accessor (rewrite base) (rewrite subscript))
  | conditional condition whenTrue whenFalse =>
    f (conditional (rewrite condition) (rewrite whenTrue) (rewrite whenFalse))
  | operator op fn args => f (operator op fn (rewriteAll args))
  | parenthesis content => f (parenthesis (rewrite content))
  | relational comparisons params ops => f (relational comparisons (rewriteAll params) ops)
  | call callee args => f (call (rewrite callee) (rewriteAll args))
  | array items => f (array (rewriteAll items))
  | object properties => f (object (rewriteProperties properties))
  | assignment target value => f (assignment (rewrite target) (rewrite value))
  | definition name params body => f (definition name params (rewrite body))
  | block statements => f (block (rewriteAll statements))
  | range first step last => f (range (rewrite first) (rewriteStep step) (rewrite last))
  | foreign text => f (foreign text)
termination_by structural e => e

def rewriteAll : List Expr → List Expr
  | [] => []
  | e :: es => rewrite e :: rewriteAll es
termination_by structural es => es

def rewriteProperties : List (Text × Expr) → List (Text × Expr)
  | [] => []
  | (key, e) :: ps => (key, rewrite e) :: rewriteProperties ps
termination_by structural ps => ps

def rewriteStep : Option Expr → Option Expr
  | none => none
  | some e => some (rewrite e)
termination_by structural step => step

end

theorem rewriteAll_eq_map (es : List Expr) : rewriteAll f es = es.map (rewrite f) := by
  induction es with
  | nil => rfl
  | cons e es ih => rw [rewriteAll, ih, List.map_cons]

variable {f} {g : Expr → Expr}

mutual

/-- The first of two rewritings is lost if the second one does not see what it does to a node. -/
theorem rewrite_rewrite (h : ∀ e, rewrite g (f e) = rewrite g e) :
    (e : Expr) → rewrite g (rewrite f e) = rewrite g e
  | constant value => h _
  | symbol name => h _
  | index dimensions dot => by simp only [rewrite, h, rewriteAll_rewriteAll h dimensions]
  | accessor base subscript => by
      simp only [rewrite, h, rewrite_rewrite h base, rewrite_rewrite h subscript]
  | conditional condition whenTrue whenFalse => by
      simp only [rewrite, h, rewrite_rewrite h condition, rewrite_rewrite h whenTrue,
        rewrite_rewrite h whenFalse]
  | operator op fn args => by simp only [rewrite, h, rewriteAll_rewriteAll h args]
  | parenthesis content => by simp only [rewrite, h, rewrite_rewrite h content]
  | relational comparisons params ops => by simp only [rewrite, h, rewriteAll_rewriteAll h params]
  | call callee args => by
      simp only [rewrite, h, rewrite_rewrite h callee, rewriteAll_rewriteAll h args]
  | array items => by simp only [rewrite, h, rewriteAll_rewriteAll h items]
  | object properties => by simp only [rewrite, h, rewriteProperties_rewriteProperties h properties]
  | assignment target value => by
      simp only [rewrite, h, rewrite_rewrite h target, rewrite_rewrite h value]
  | definition name params body => by simp only [rewrite, h, rewrite_rewrite h body]
  | block statements => by simp only [rewrite, h, rewriteAll_rewriteAll h statements]
  | range first step last => by
      simp only [rewrite, h, rewrite_rewrite h first, rewriteStep_rewriteStep h step,
        rewrite_rewrite h last]
  | foreign text => h _

theorem rewriteAll_rewriteAll (h : ∀ e, rewrite g (f e) = rewrite g e) : (es : List Expr) →
    rewriteAll g (rewriteAll f es) = rewriteAll g es
  | [] => rfl
  | e :: es => by simp only [rewriteAll, rewrite_rewrite h e, rewriteAll_rewriteAll h es]

theorem rewriteProperties_rewriteProperties (h : ∀ e, rewrite g (f e) = rewrite g e) :
    (ps : List (Text × Expr)) →
    rewriteProperties g (rewriteProperties f ps) = rewriteProperties g ps
  | [] => rfl
  | (key, e) :: ps => by
      simp only [rewriteProperties, rewrite_rewrite h e, rewriteProperties_rewriteProperties h ps]

theorem rewriteStep_rewriteStep (h : ∀ e, rewrite g (f e) = rewrite g e) : (step : Option Expr) →
    rewriteStep g (rewriteStep f step) = rewriteStep g step
  | none => rfl
  | some e => by simp only [rewriteStep, rewrite_rewrite h e]

end

def conditionalFunction : Text := "IF"

def calculatedNode : Expr → Expr
  | conditional condition whenTrue whenFalse =>
    call (symbol conditionalFunction) [condition, whenTrue, whenFalse]
  | call (symbol name) args => call (symbol ((functionName? name).getD name)) args
  | e => e

/-- The tree with its conditionals as calls and its functions under their other names. -/
def calculated (e : Expr) : Expr := e.rewrite calculatedNode

def textNode : Expr → Expr
  | constant value => foreign value.text
  | symbol name => foreign name
  | e => e

/-- The tree with texts in place of its constants and symbols. -/
def byText (e : Expr) : Expr := e.rewrite textNode

end Expr

def Literal.isWhole (x : Float) : Bool :=
  !x.isNaN && !x.isInf && (Binary.ofFloat x).isIntegral && (Binary.ofFloat x).floor < Nat.pow 10 21

def Literal.reread : Literal → Expr
  | float x =>
    if isWhole x then
      .constant (.int (if x < 0.0 then -((Binary.ofFloat x).floor : Int) else (Binary.ofFloat x).floor))
    else if x.isInf then .symbol (Text.ofFloat x)
    else .constant (.float x)
  | string t => .constant (.string t.units)
  | v => .constant v

theorem Literal.floatText_eq (x : Float) : floatText x = if isWhole x then
    Text.ofInt (if x < 0.0 then -((Binary.ofFloat x).floor : Int) else (Binary.ofFloat x).floor)
    else Text.ofFloat x := rfl

theorem Literal.byText_reread (v : Literal) : v.reread.byText = .foreign v.text := by
  cases v with
  | float x =>
      rw [reread]
      split
      · rename_i hwhole
        exact congrArg Expr.foreign (if_pos hwhole).symm
      · rename_i hwhole
        split
        · exact congrArg Expr.foreign (if_neg hwhole).symm
        · rfl
  | string t => exact congrArg Expr.foreign t.quote_units
  | int | bool | null => rfl

namespace Expr

def rereadNode : Expr → Expr
  | constant value => value.reread
  | e => e

def reread (e : Expr) : Expr := e.rewrite rereadNode

theorem byText_reread (e : Expr) : e.reread.byText = e.byText := by
  refine rewrite_rewrite (fun e => ?_) e
  cases e with
  | constant v => exact v.byText_reread
  | _ => rfl

end Expr

end MetricBridge.Formula
