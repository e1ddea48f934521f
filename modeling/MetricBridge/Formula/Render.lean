import MetricBridge.Decimal.Layout
import MetricBridge.Formula.Expr
import MetricBridge.Formula.Token
import MetricBridge.Text.Quoted

namespace MetricBridge.Formula

inductive RenderFault where
  | tooDeep
  /-- A chain of comparisons without operands. -/
  | noOperands
deriving DecidableEq, Repr

namespace Literal

/-- Integral floats below `10 ^ 21` are written as integers. -/
def floatText (x : Float) : Text :=
  let value := Binary.ofFloat x
  if !x.isNaN && !x.isInf && value.isIntegral && value.floor < Nat.pow 10 21 then
    Text.ofInt (if x < 0.0 then -(value.floor : Int) else value.floor)
  else Text.ofFloat x

def text : Literal → Text
  | int n => Text.ofInt n
  | float x => floatText x
  | string t => t.quote
  | bool true => "true"
  | bool false => "false"
  | null => "null"

def bareText : Literal → Text
  | int n => Text.ofInt n
  | float x => Text.ofFloat x
  | string t => t
  | bool true => "True"
  | bool false => "False"
  | null => "None"

end Literal

namespace Expr

/-- Comparisons between the operands; an excess of either is left out. -/
def interleave : List Text → List Text → Text
  | op :: ops, param :: params => lit " " ++ op ++ lit " " ++ param ++ interleave ops params
  | _, _ => []

def commaSeparated (parts : List Text) : Text := Text.joinWith (lit ", ") parts

/-- The text of the tree, followed for at most that many levels. -/
def render : Nat → Expr → Except RenderFault Text
  | 0, _ => .error .tooDeep
  | n + 1, e => match e with
    | constant value => .ok value.text
    | symbol name => .ok name
    | index dimensions dot => match dot, dimensions with
      | true, [constant value] => .ok (lit "." ++ value.bareText)
      | _, _ => do
        let parts ← dimensions.mapM (render n)
        return lit "[" ++ commaSeparated parts ++ lit "]"
    | accessor base subscript => return (← render n base) ++ (← render n subscript)
    | conditional condition whenTrue whenFalse => do
      return (← render n condition) ++ lit " ? " ++ (← render n whenTrue) ++ lit " : " ++
        (← render n whenFalse)
    | operator op fn args => match args with
      | [arg] => do
        let operand ← render n arg
        return if fn = .factorial then operand ++ op
          else if isWordOperator op then op ++ lit " " ++ operand
          else op ++ operand
      | [_, _] => do
        let (head, links) := spine e
        let first ← render n head
        let rest ← links.mapM fun link =>
          return lit " " ++ link.op ++ lit " " ++ (← render n link.right)
        return first ++ rest.flatten
      | args => return Text.joinWith (lit " " ++ op ++ lit " ") (← args.mapM (render n))
    | parenthesis content => return lit "(" ++ (← render n content) ++ lit ")"
    | relational comparisons params ops => match params with
      | [] => .error .noOperands
      | first :: params => do
        let signs := if ops.isEmpty then comparisons.map Operation.name else ops
        let first ← render n first
        let params ← (params.take signs.length).mapM (render n)
        return first ++ interleave signs params
    | call callee args => do
      let name ← render n callee
      return name ++ lit "(" ++ commaSeparated (← args.mapM (render n)) ++ lit ")"
    | array items => return lit "[" ++ commaSeparated (← items.mapM (render n)) ++ lit "]"
    | object properties => do
      let parts ← properties.mapM fun (key, value) =>
        return key.quote ++ lit ": " ++ (← render n value)
      return lit "\x7b" ++ commaSeparated parts ++ lit "\x7d"
    | assignment target value => return (← render n target) ++ lit " = " ++ (← render n value)
    | definition name params body => do
      return name ++ lit "(" ++ commaSeparated params ++ lit ") = " ++ (← render n body)
    | block statements => return Text.joinWith (lit "; ") (← statements.mapM (render n))
    | range first step last => do
      let parts ← (first :: step.toList ++ [last]).mapM (render n)
      return Text.joinWith (lit ":") parts
    | foreign text => .ok text

end Expr
end MetricBridge.Formula
