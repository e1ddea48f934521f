import MetricBridge.Formula.Grammar
import MetricBridge.Formula.Render

namespace MetricBridge.Formula

inductive AccessorFault where
  | columnMissing
  | notGoals
  | notOneGoal
  | goalNotText
  | goalMalformed
  | notOneColumn
  | columnNotName
deriving DecidableEq, Repr

def AccessorFault.text : AccessorFault → Text
  | columnMissing => "a goal column is required, e.g. $goals[\"idgoal=1\"][\"revenue\"]"
  | notGoals => "only $goals can be indexed"
  | notOneGoal => "expected exactly one goal index"
  | goalNotText => "the goal index must be a string constant"
  | goalMalformed => "the goal index must look like \"idgoal=<number>\""
  | notOneColumn => "expected exactly one goal column"
  | columnNotName => "the goal column must be a name"

inductive Refusal where
  | construct
  /-- An index that stands for itself. -/
  | looseIndex
  | foreignNode
  | operator (op : Text)
  | comparison (name : Text)
  | function (name : Text)
  | accessor (fault : AccessorFault)
deriving DecidableEq, Repr

structure Refused where
  refusal : Refusal
  kind : Option Text
  text : Text
deriving DecidableEq, Repr

def Refused.message (r : Refused) : Text :=
  let inQuotes := fun t : Text => lit "\"" ++ t ++ lit "\""
  let kind := r.kind.getD []
  match r.refusal with
  | .construct => lit "Unsupported " ++ kind ++ lit " in formula: " ++ inQuotes r.text
  | .looseIndex => lit "Unexpected node " ++ inQuotes r.text ++ lit " of kind " ++ kind
  | .foreignNode => lit "Encountered unknown node " ++ inQuotes r.text
  | .operator op => lit "Unsupported operator " ++ inQuotes op ++ lit " in " ++ inQuotes r.text
  | .comparison name =>
    lit "Unknown relational operator " ++ inQuotes name ++ lit " in " ++ inQuotes r.text
  | .function name => lit "Unknown function " ++ inQuotes name ++ lit " in " ++ inQuotes r.text
  | .accessor fault =>
    lit "Unsupported accessor " ++ inQuotes r.text ++ lit ": " ++ fault.text

inductive EmitFault where
  | refused (r : Refused)
  | unrendered (f : RenderFault)
  /-- A chain of comparisons with too few or too many operands. -/
  | operandCount
  /-- An accessor whose subscript is no index. -/
  | subscriptMissing
deriving DecidableEq, Repr

abbrev Emission := Except EmitFault Text

def quoted (depth : Nat) (e : Expr) : Emission :=
  (e.render depth).mapError .unrendered

def refuse {α : Type} (depth : Nat) (refusal : Refusal) (e : Expr) : Except EmitFault α :=
  match quoted depth e with
  | .error f => .error f
  | .ok text => .error (.refused ⟨refusal, e.kind?, text⟩)

def functionName? (name : Text) : Option Text :=
  if name = "min" then some "NARY_MIN"
  else if name = "max" then some "NARY_MAX"
  else if name = "abs" then some "ABS"
  else none

def goalsSymbol : Text := "$goals"

/-- The number in the text `idgoal=<number>`, which a line feed may follow. -/
def goalNumber? (t : Text) : Option Text :=
  if Text.begins "idgoal=" t then
    let (digits, rest) := spanText CodePoint.isDecimal (t.drop 7)
    if !digits.isEmpty && (rest.isEmpty || rest == [.scalar '\n']) then some digits else none
  else none

def dimensions? : Expr → Except EmitFault (List Expr)
  | .index dimensions _ => .ok dimensions
  | _ => .error .subscriptMissing

def goalOf : List Expr → Except AccessorFault Text
  | [.constant (.string t)] => match goalNumber? t with
    | some n => .ok n
    | none => .error .goalMalformed
  | [_] => .error .goalNotText
  | _ => .error .notOneGoal

def columnOf : List Expr → Except AccessorFault Text
  | [.constant (.string t)] => .ok t
  | [.symbol name] => .ok name
  | [_] => .error .columnNotName
  | _ => .error .notOneColumn

def flatName (goal column : Text) : Text := goalsSymbol ++ lit "_" ++ goal ++ lit "_" ++ column

/-- Emits an accessor: a column of a goal, `$goals["idgoal=1"]["revenue"]`, becomes
`$goals_1_revenue`. -/
def emitAccessor (depth : Nat) (e : Expr) (base subscript : Expr) : Emission :=
  let reject := fun fault => refuse depth (.accessor fault) e
  match base with
  | .symbol name => reject (if name = goalsSymbol then .columnMissing else .notGoals)
  | .accessor (.symbol name) goalIndex =>
    if name ≠ goalsSymbol then reject .notGoals
    else match dimensions? goalIndex with
      | .error f => .error f
      | .ok goal => match goalOf goal with
        | .error fault => reject fault
        | .ok goal => match dimensions? subscript with
          | .error f => .error f
          | .ok column => match columnOf column with
            | .error fault => reject fault
            | .ok column => .ok (flatName goal column)
  | _ => reject .notGoals

def checkLink (depth : Nat) (op : Text) (fn : Operation) (whole : Expr) : Except EmitFault Unit :=
  if fn.symbol?.isSome then .ok () else refuse depth (.operator op) whole

/-- Whether the text is a word, so that a blank has to follow it before a name. -/
def isWordText (t : Text) : Bool := !t.isEmpty && t.all CodePoint.isLetter

namespace Expr

def emitComparisons (emit : Expr → Emission) (depth : Nat) (whole : Expr) :
    List Operation → List Expr → Emission
  | [], [] => .ok []
  | fn :: fns, e :: es => match fn.symbol? with
    | none => refuse depth (.comparison fn.name) whole
    | some sign => do
      let operand ← emit e
      return lit " " ++ sign ++ lit " " ++ operand ++ (← emitComparisons emit depth whole fns es)
  | _, _ => .error .operandCount

/-- The tree in the syntax of calculated fields, followed for at most that many levels. -/
def emit : Nat → Expr → Emission
  | 0, _ => .error (.unrendered .tooDeep)
  | n + 1, e => match e with
    | constant value => .ok value.text
    | symbol name => .ok name
    | accessor base subscript => emitAccessor n e base subscript
    | conditional condition whenTrue whenFalse => do
      return lit "IF(" ++ (← emit n condition) ++ lit ", " ++ (← emit n whenTrue) ++ lit ", " ++
        (← emit n whenFalse) ++ lit ")"
    | parenthesis content => return lit "(" ++ (← emit n content) ++ lit ")"
    | operator op fn args => match args with
      | [_, _] => do
        let (head, links) := spine e
        links.forM fun link => checkLink n link.op link.fn link.whole
        let first ← emit n head
        let rest ← links.mapM fun link =>
          return lit " " ++ link.op ++ lit " " ++ (← emit n link.right)
        return first ++ rest.flatten
      | [arg] => do
        checkLink n op fn e
        let operand ← emit n arg
        return if fn = .factorial then operand ++ op
          else if isWordText op then op ++ lit " " ++ operand
          else op ++ operand
      | args => do
        checkLink n op fn e
        return Text.joinWith (lit " " ++ op ++ lit " ") (← args.mapM (emit n))
    | relational comparisons params _ => match params with
      | [] => .error (.unrendered .noOperands)
      | first :: params => do
        let first ← emit n first
        return first ++ (← emitComparisons (emit n) n e comparisons params)
    | call callee args =>
      let target? := match callee with
        | symbol name => functionName? name
        | _ => none
      match target? with
      | some target => return target ++ lit "(" ++ commaSeparated (← args.mapM (emit n)) ++ lit ")"
      | none => match quoted n callee with
        | .error f => .error f
        | .ok name => refuse n (.function name) e
    | index .. => refuse n .looseIndex e
    | foreign _ => refuse n .foreignNode e
    | _ => refuse n .construct e

end Expr

structure CalculatedField where
  /-- Absent for a blank formula. -/
  formula : Option Text
  metrics : List Text
deriving DecidableEq, Repr

inductive CalculatedFieldFault where
  | unparsed (failure : Failure)
  | unemitted (fault : EmitFault)
deriving DecidableEq, Repr

def translate (depths : Depths) (formula : Text) : Except CalculatedFieldFault CalculatedField :=
  if formula.trim.isEmpty then .ok ⟨none, []⟩
  else match parse depths formula with
    | .error failure => .error (.unparsed failure)
    | .ok tree => match tree.emit depths.nodes with
      | .error fault => .error (.unemitted fault)
      | .ok text => .ok ⟨some text, tree.metrics⟩

end MetricBridge.Formula
