import MetricBridge.Formula.Delimiter

namespace MetricBridge.Formula

inductive Lexeme where
  | number (literal : Text)
  | string (value : Text)
  | name (value : Text)
  | delimiter (d : Delimiter)
  | newline
  | finish
deriving DecidableEq, Repr

structure Token where
  lexeme : Lexeme
  position : Nat
deriving DecidableEq, Repr

def wordOperators : List Text := ["and", "or", "xor", "not", "mod", "to"]

def isWordOperator (name : Text) : Bool := wordOperators.contains name

namespace Lexeme

def text : Lexeme → Text
  | number literal => literal
  | string value => value
  | name value => value
  | delimiter d => d.spelling
  | newline => [.scalar '\n']
  | finish => []

def operator? : Lexeme → Option Text
  | delimiter d => some d.spelling
  | name value => if isWordOperator value then some value else none
  | _ => none

end Lexeme

inductive SyntaxFault where
  | invalidUnicodeEscape
  | invalidEscape (c : CodePoint)
  | unterminatedString (quote : CodePoint)
  /-- No token starts with the text. -/
  | noToken (rest : Text)
  | expected (d : Delimiter) (found : Lexeme)
  | unexpectedToken (found : Lexeme)
  | unexpectedEnd
  | invalidTarget
  | falsePartMissing
  | indexMissing
  | propertyNameMissing
  | unexpectedOperator (word : Text)
  | valueMissing (found : Lexeme)
  | keyMissing
deriving DecidableEq, Repr

structure SyntaxError where
  fault : SyntaxFault
  position : Nat
deriving DecidableEq, Repr

namespace SyntaxFault

def inQuotes (l : Lexeme) : Text := lit "'" ++ l.text ++ lit "'"

def text : SyntaxFault → Text
  | invalidUnicodeEscape => "Invalid unicode escape"
  | invalidEscape c => lit "Invalid escape sequence '\\" ++ [c] ++ lit "'"
  | unterminatedString quote => lit "End of string " ++ [quote] ++ lit " missing"
  | noToken rest => lit "Syntax error in part \"" ++ rest ++ lit "\""
  | expected d found =>
    lit "Expected '" ++ d.spelling ++ lit "' but found " ++
      (if found = .finish then lit "end of expression" else inQuotes found)
  | unexpectedToken found => lit "Unexpected token " ++ inQuotes found
  | unexpectedEnd => "Unexpected end of expression"
  | invalidTarget => "Invalid left hand side of assignment operator ="
  | falsePartMissing => "False part of conditional expression expected"
  | indexMissing => "Index expected"
  | propertyNameMissing => "Property name expected after dot"
  | unexpectedOperator word => lit "Unexpected operator '" ++ word ++ lit "'"
  | valueMissing found => lit "Value expected, found " ++ inQuotes found
  | keyMissing => "Symbol or string expected as object key"

end SyntaxFault

/-- The message counts positions from one. -/
def SyntaxError.message (e : SyntaxError) : Text :=
  e.fault.text ++ lit " (char " ++ Text.ofNat (e.position + 1) ++ lit ")"

inductive Failure where
  | syntaxError (e : SyntaxError)
  /-- A digit that belongs to no decimal system, where a number has to start. -/
  | isolatedDigit
  | integerTooLong
  /-- More nested rules than the grammar follows. -/
  | tooDeep
deriving DecidableEq, Repr

end MetricBridge.Formula
