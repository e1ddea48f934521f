import MetricBridge.Text.Basic

namespace MetricBridge.Formula

inductive Operation where
  | or | xor | and | bitOr | bitXor | bitAnd
  | equal | unequal | smaller | larger | smallerEq | largerEq
  | leftShift | rightArithShift | rightLogShift | conversion
  | add | subtract | multiply | divide | dotMultiply | dotDivide | mod
  | unaryPlus | unaryMinus | bitNot | not
  | pow | dotPow | factorial
  /-- An operation that no operator of the language stands for. -/
  | other (name : Text)
deriving DecidableEq, Repr

namespace Operation

def name : Operation → Text
  | or => "or"
  | xor => "xor"
  | and => "and"
  | bitOr => "bitOr"
  | bitXor => "bitXor"
  | bitAnd => "bitAnd"
  | equal => "equal"
  | unequal => "unequal"
  | smaller => "smaller"
  | larger => "larger"
  | smallerEq => "smallerEq"
  | largerEq => "largerEq"
  | leftShift => "leftShift"
  | rightArithShift => "rightArithShift"
  | rightLogShift => "rightLogShift"
  | conversion => "to"
  | add => "add"
  | subtract => "subtract"
  | multiply => "multiply"
  | divide => "divide"
  | dotMultiply => "dotMultiply"
  | dotDivide => "dotDivide"
  | mod => "mod"
  | unaryPlus => "unaryPlus"
  | unaryMinus => "unaryMinus"
  | bitNot => "bitNot"
  | not => "not"
  | pow => "pow"
  | dotPow => "dotPow"
  | factorial => "factorial"
  | other name => name

def known : List Operation :=
  [or, xor, and, bitOr, bitXor, bitAnd, equal, unequal, smaller, larger, smallerEq, largerEq,
    leftShift, rightArithShift, rightLogShift, conversion, add, subtract, multiply, divide,
    dotMultiply, dotDivide, mod, unaryPlus, unaryMinus, bitNot, not, pow, dotPow, factorial]

def ofName (name : Text) : Operation :=
  (known.find? fun operation => operation.name = name).getD (other name)

def symbol? : Operation → Option Text
  | or => some "or"
  | xor => some "xor"
  | and => some "and"
  | bitOr => some "|"
  | bitXor => some "^|"
  | bitAnd => some "&"
  | equal => some "=="
  | unequal => some "!="
  | smaller => some "<"
  | larger => some ">"
  | smallerEq => some "<="
  | largerEq => some ">="
  | leftShift => some "<<"
  | rightArithShift => some ">>"
  | rightLogShift => some ">>>"
  | conversion => some "to"
  | add => some "+"
  | subtract => some "-"
  | multiply => some "*"
  | divide => some "/"
  | dotMultiply => some ".*"
  | dotDivide => some "./"
  | mod => some "mod"
  | unaryPlus => some "+"
  | unaryMinus => some "-"
  | bitNot => some "~"
  | not => some "not"
  | pow => some "^"
  | dotPow => some ".^"
  | factorial => some "!"
  | other _ => none

end Operation
end MetricBridge.Formula
