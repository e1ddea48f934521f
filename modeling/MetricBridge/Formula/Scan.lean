import MetricBridge.Decimal.Reading
import MetricBridge.Formula.Token
import MetricBridge.Text.Quoted

namespace MetricBridge.Formula

def isNameStart (c : CodePoint) : Bool :=
  c.isAsciiLetter || c == .scalar '_' || c == .scalar '$'

def isNamePart (c : CodePoint) : Bool := isNameStart c || c.satisfies Char.isDigit

def escape? : CodePoint → Option CodePoint
  | .scalar '"' => some (.scalar '"')
  | .scalar '\'' => some (.scalar '\'')
  | .scalar '\\' => some (.scalar '\\')
  | .scalar '/' => some (.scalar '/')
  | .scalar 'b' => some (.scalar '\x08')
  | .scalar 'f' => some (.scalar '\x0C')
  | .scalar 'n' => some (.scalar '\n')
  | .scalar 'r' => some (.scalar '\r')
  | .scalar 't' => some (.scalar '\t')
  | _ => none

def hexUnit? : Text → Option (Nat × Text)
  | a :: b :: c :: d :: t => (Text.unitOfHex? a b c d).map (·, t)
  | _ => none

/-- The content of a string up to its closing quote, and the rest. `fuel` bounds the number of code
points read, `start` is the position of the opening quote, `position` that of the text. -/
def scanString (quote : CodePoint) (start : Nat) :
    Nat → Nat → Text → Except SyntaxError (Text × Text)
  | 0, _, _ => .error ⟨.unterminatedString quote, start⟩
  | fuel + 1, position, t => match t with
    | [] => .error ⟨.unterminatedString quote, start⟩
    | c :: t =>
      if c = quote then .ok ([], t)
      else if c = .scalar '\\' then
        match t with
        | [] => .error ⟨.unterminatedString quote, start⟩
        | e :: t =>
          if e = .scalar 'u' then
            match hexUnit? t with
            | none => .error ⟨.invalidUnicodeEscape, position⟩
            | some (n, t) => match scanString quote start fuel (position + 6) t with
              | .ok (value, rest) => .ok (.ofNat n :: value, rest)
              | .error e => .error e
          else match escape? e with
            | none => .error ⟨.invalidEscape e, position⟩
            | some d => match scanString quote start fuel (position + 2) t with
              | .ok (value, rest) => .ok (d :: value, rest)
              | .error e => .error e
      else match scanString quote start fuel (position + 1) t with
        | .ok (value, rest) => .ok (c :: value, rest)
        | .error e => .error e

def spanText (p : CodePoint → Bool) (t : Text) : Text × Text := (t.takeWhile p, t.dropWhile p)

def spanExponent : Text → Text × Text
  | .scalar e :: t =>
    if e = 'e' ∨ e = 'E' then
      let (sign, body) := match t with
        | .scalar '+' :: t => ([CodePoint.scalar '+'], t)
        | .scalar '-' :: t => ([CodePoint.scalar '-'], t)
        | t => ([], t)
      let (digits, rest) := spanText CodePoint.isDecimal body
      if digits.isEmpty then ([], .scalar e :: t) else (.scalar e :: sign ++ digits, rest)
    else ([], .scalar e :: t)
  | t => ([], t)

def spanNumber (t : Text) : Text × Text :=
  let (whole, rest) := spanText CodePoint.isDecimal t
  let (fraction, rest) := match rest with
    | .scalar '.' :: after =>
      let (digits, after') := spanText CodePoint.isDecimal after
      if whole.isEmpty && digits.isEmpty then ([], rest)
      else (CodePoint.scalar '.' :: digits, after')
    | _ => ([], rest)
  if whole.isEmpty && fraction.isEmpty then ([], t)
  else
    let (exponent, rest) := spanExponent rest
    (whole ++ fraction ++ exponent, rest)

def startsNumber : Text → Bool
  | .scalar '.' :: c :: _ => c.isAnyDigit
  | c :: _ => c.isAnyDigit
  | [] => false

def scanLexeme (position : Nat) (t : Text) : Except Failure (Lexeme × Text) :=
  match t with
  | [] => .ok (.finish, [])
  | c :: rest =>
    if c = .scalar '"' ∨ c = .scalar '\'' then
      match scanString c position (rest.length + 1) (position + 1) rest with
      | .ok (value, rest) => .ok (.string value, rest)
      | .error e => .error (.syntaxError e)
    else if startsNumber t then
      let (literal, rest) := spanNumber t
      if literal.isEmpty then .error .isolatedDigit else .ok (.number literal, rest)
    else if isNameStart c then
      let (value, rest) := spanText isNamePart t
      .ok (.name value, rest)
    else match Delimiter.first? t with
      | some d => .ok (.delimiter d, t.drop d.spelling.length)
      | none => .error (.syntaxError ⟨.noToken t, position⟩)

/-- The tokens of the text that starts at the position; `fuel` exceeds its length. -/
def scanFrom : Nat → Nat → Text → Except Failure (List Token)
  | 0, position, _ => .ok [⟨.finish, position⟩]
  | fuel + 1, position, t => match t with
    | [] => .ok [⟨.finish, position⟩]
    | c :: rest =>
      if c = .scalar '\n' then
        (scanFrom fuel (position + 1) rest).map (⟨.newline, position⟩ :: ·)
      else if c.isBlank then scanFrom fuel (position + 1) rest
      else match scanLexeme position t with
        | .error e => .error e
        | .ok (lexeme, rest) =>
          (scanFrom fuel (position + (t.length - rest.length)) rest).map (⟨lexeme, position⟩ :: ·)

def tokenize (t : Text) : Except Failure (List Token) := scanFrom (t.length + 1) 0 t

end MetricBridge.Formula
