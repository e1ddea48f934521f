import MetricBridge.Formula.Operation

namespace MetricBridge.Formula

/-- The levels of the formula grammar, loosest first. A block of assignments comes before them.

    assignment      conditional, or conditional = assignment
    conditional     or, or: or ? assignment : assignment
    or ... shift    operands of the next level, joined by the level's operators
    conversion      range to range ...
    range           additive, additive : additive, or additive : additive : additive
    unary           an operator before unary, or power
    power           factorial, or factorial ^ unary
    factorial       a primary with accessors and calls, then any number of !
    primary         a constant, a name, a group, an array or an object
-/
inductive Level where
  | assignment | conditional | or | xor | and | bitOr | bitXor | bitAnd | relational | shift
  | conversion | range | additive | multiplicative | unary | power | factorial | primary
deriving DecidableEq, Repr

abbrev OperatorTable := List (Text × Operation)

namespace OperatorTable

def find? (table : OperatorTable) (op : Text) : Option Operation :=
  (List.find? (fun entry => entry.1 = op) table).map Prod.snd

end OperatorTable

namespace Level

def joining : Level → OperatorTable
  | or => [("or", .or)]
  | xor => [("xor", .xor)]
  | and => [("and", .and)]
  | bitOr => [("|", .bitOr)]
  | bitXor => [("^|", .bitXor)]
  | bitAnd => [("&", .bitAnd)]
  | relational =>
    [("==", .equal), ("!=", .unequal), ("<", .smaller), (">", .larger), ("<=", .smallerEq),
      (">=", .largerEq)]
  | shift => [("<<", .leftShift), (">>", .rightArithShift), (">>>", .rightLogShift)]
  | conversion => [("to", .conversion)]
  | additive => [("+", .add), ("-", .subtract)]
  | multiplicative =>
    [("*", .multiply), (".*", .dotMultiply), ("/", .divide), ("./", .dotDivide), ("%", .mod),
      ("mod", .mod)]
  | _ => []

def unaryTable : OperatorTable :=
  [("-", .unaryMinus), ("+", .unaryPlus), ("~", .bitNot), ("not", .not)]

def powerTable : OperatorTable := [("^", .pow), (".^", .dotPow)]

def factorialTable : OperatorTable := [("!", .factorial)]

def next : Level → Level
  | assignment => conditional
  | conditional => or
  | or => xor
  | xor => and
  | and => bitOr
  | bitOr => bitXor
  | bitXor => bitAnd
  | bitAnd => relational
  | relational => shift
  | shift => conversion
  | conversion => range
  | range => additive
  | additive => multiplicative
  | multiplicative => unary
  | unary => power
  | power => factorial
  | factorial => primary
  | primary => primary

end Level
end MetricBridge.Formula
