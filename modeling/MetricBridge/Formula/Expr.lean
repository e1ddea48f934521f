import MetricBridge.Formula.Operation

namespace MetricBridge.Formula

inductive Literal where
  | int (n : Int)
  | float (x : Float)
  | string (t : Text)
  | bool (b : Bool)
  | null
deriving Inhabited

inductive Expr where
  | constant (value : Literal)
  | symbol (name : Text)
  /-- The dimensions between a pair of brackets, or the name after a dot. -/
  | index (dimensions : List Expr) (dot : Bool)
  | accessor (base : Expr) (subscript : Expr)
  | conditional (condition : Expr) (whenTrue : Expr) (whenFalse : Expr)
  /-- An operator as written, the operation that it stands for, and its operands. -/
  | operator (op : Text) (fn : Operation) (args : List Expr)
  | parenthesis (content : Expr)
  /-- A chain of comparisons of neighbouring operands, with the comparisons as written. -/
  | relational (comparisons : List Operation) (params : List Expr) (ops : List Text)
  | call (callee : Expr) (args : List Expr)
  | array (items : List Expr)
  | object (properties : List (Text × Expr))
  | assignment (target : Expr) (value : Expr)
  | definition (name : Text) (params : List Text) (body : Expr)
  | block (statements : List Expr)
  | range (first : Expr) (step : Option Expr) (last : Expr)
  /-- A node of no kind that formulas have, known by its text. -/
  | foreign (text : Text)
deriving Inhabited

namespace Expr

def kind? : Expr → Option Text
  | constant _ => some "constant"
  | symbol _ => some "symbol"
  | index .. => some "index"
  | accessor .. => some "accessor"
  | conditional .. => some "conditional"
  | operator .. => some "operator"
  | parenthesis _ => some "parenthesis"
  | relational .. => some "relational"
  | call .. => some "function call"
  | array _ => some "array literal"
  | object _ => some "object literal"
  | assignment .. => some "assignment"
  | definition .. => some "function definition"
  | block _ => some "statement block"
  | range .. => some "range"
  | foreign _ => none

def children : Expr → List Expr
  | constant _ => []
  | symbol _ => []
  | index dimensions _ => dimensions
  | accessor base subscript => [base, subscript]
  | conditional condition whenTrue whenFalse => [condition, whenTrue, whenFalse]
  | operator _ _ args => args
  | parenthesis content => [content]
  | relational _ params _ => params
  | call callee args => callee :: args
  | array items => items
  | object properties => properties.map Prod.snd
  | assignment target value => [target, value]
  | definition _ _ body => [body]
  | block statements => statements
  | range first step last => first :: step.toList ++ [last]
  | foreign _ => []

mutual

def size : Expr → Nat
  | constant _ => 1
  | symbol _ => 1
  | index dimensions _ => 1 + sizes dimensions
  | accessor base subscript => 1 + (size base + size subscript)
  | conditional condition whenTrue whenFalse =>
    1 + (size condition + (size whenTrue + size whenFalse))
  | operator _ _ args => 1 + sizes args
  | parenthesis content => 1 + size content
  | relational _ params _ => 1 + sizes params
  | call callee args => 1 + (size callee + sizes args)
  | array items => 1 + sizes items
  | object properties => 1 + propertySizes properties
  | assignment target value => 1 + (size target + size value)
  | definition _ _ body => 1 + size body
  | block statements => 1 + sizes statements
  | range first step last => 1 + (size first + (stepSize step + size last))
  | foreign _ => 1
termination_by structural e => e

def sizes : List Expr → Nat
  | [] => 0
  | e :: es => size e + sizes es
termination_by structural es => es

def propertySizes : List (Text × Expr) → Nat
  | [] => 0
  | (_, e) :: ps => size e + propertySizes ps
termination_by structural ps => ps

def stepSize : Option Expr → Nat
  | none => 0
  | some e => size e
termination_by structural step => step

end

def walkStack : Nat → List Expr → List Expr
  | 0, _ => []
  | _ + 1, [] => []
  | fuel + 1, e :: stack => e :: walkStack fuel (e.children ++ stack)

def walk (e : Expr) : List Expr := walkStack e.size [e]

/-- The names of the symbols among the nodes of a pre-order, without the objects of accessors: an
object stands directly after its accessor. `based` says whether an accessor stands before. -/
def freeSymbols (based : Bool) : List Expr → List Text
  | [] => []
  | .symbol name :: es => if based then freeSymbols false es else name :: freeSymbols false es
  | .accessor .. :: es => freeSymbols true es
  | _ :: es => freeSymbols false es

def metricName? : Text → Option Text
  | .scalar '$' :: name => some name
  | _ => none

/-- The metrics that the tree refers to, each at its first occurrence. The object of an accessor is
a collection and no metric. -/
def metrics (e : Expr) : List Text := ((freeSymbols false e.walk).filterMap metricName?).eraseDups

structure Link where
  op : Text
  fn : Operation
  right : Expr
  whole : Expr

def spineOnto : Expr → List Link → Expr × List Link
  | .operator op fn [left, right], links =>
    spineOnto left (⟨op, fn, right, .operator op fn [left, right]⟩ :: links)
  | e, links => (e, links)
termination_by structural e => e

/-- The leftmost operand of a chain of binary operators, and the operators, innermost first: `a`
and `+ b`, `- c` for `a + b - c`. -/
def spine (e : Expr) : Expr × List Link := spineOnto e []

end Expr
end MetricBridge.Formula
