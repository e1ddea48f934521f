import MetricBridge.Text.Basic

namespace MetricBridge.Formula

inductive Delimiter where
  | shiftRightLogical | shiftLeft | shiftRight | equal | unequal | lessEqual | greaterEqual
  | caretBar | dotStar | dotSlash | dotCaret | comma | openParen | closeParen | openBracket
  | closeBracket | openBrace | closeBrace | semicolon | plus | minus | star | slash | percent
  | caret | tilde | bang | ampersand | bar | assign | colon | question | less | greater | dot
deriving DecidableEq, Repr

namespace Delimiter

def spelling : Delimiter → Text
  | shiftRightLogical => ">>>"
  | shiftLeft => "<<"
  | shiftRight => ">>"
  | equal => "=="
  | unequal => "!="
  | lessEqual => "<="
  | greaterEqual => ">="
  | caretBar => "^|"
  | dotStar => ".*"
  | dotSlash => "./"
  | dotCaret => ".^"
  | comma => ","
  | openParen => "("
  | closeParen => ")"
  | openBracket => "["
  | closeBracket => "]"
  | openBrace => "\x7b"
  | closeBrace => "\x7d"
  | semicolon => ";"
  | plus => "+"
  | minus => "-"
  | star => "*"
  | slash => "/"
  | percent => "%"
  | caret => "^"
  | tilde => "~"
  | bang => "!"
  | ampersand => "&"
  | bar => "|"
  | assign => "="
  | colon => ":"
  | question => "?"
  | less => "<"
  | greater => ">"
  | dot => "."

/-- All delimiters, longer ones before their beginnings. -/
def all : List Delimiter :=
  [shiftRightLogical, shiftLeft, shiftRight, equal, unequal, lessEqual, greaterEqual, caretBar,
    dotStar, dotSlash, dotCaret, comma, openParen, closeParen, openBracket, closeBracket,
    openBrace, closeBrace, semicolon, plus, minus, star, slash, percent, caret, tilde, bang,
    ampersand, bar, assign, colon, question, less, greater, dot]

def first? (t : Text) : Option Delimiter := all.find? fun d => Text.begins d.spelling t

end Delimiter
end MetricBridge.Formula
