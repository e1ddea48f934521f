import MetricBridge.Decimal.Reading
import MetricBridge.Json.Basic
import MetricBridge.Text.Quoted

namespace MetricBridge.Json

inductive Defect where
  | expectingValue
  | expectingName
  | expectingColon
  | expectingComma
  | unterminatedString
  | controlCharacter
  | invalidEscape
  | invalidUnicodeEscape
  | extraData
  | byteOrderMark
deriving DecidableEq, Repr

inductive Fault where
  /-- The place of a defect is the number of code points from there to the end of the text. -/
  | malformed (defect : Defect) (remaining : Nat)
  | integerTooLong
deriving DecidableEq, Repr

def Defect.text : Defect → Text
  | expectingValue => "Expecting value"
  | expectingName => "Expecting property name enclosed in double quotes"
  | expectingColon => "Expecting ':' delimiter"
  | expectingComma => "Expecting ',' delimiter"
  | unterminatedString => "Unterminated string starting at"
  | controlCharacter => "Invalid control character at"
  | invalidEscape => "Invalid \\escape"
  | invalidUnicodeEscape => "Invalid \\uXXXX escape"
  | extraData => "Extra data"
  | byteOrderMark => "Unexpected UTF-8 BOM (decode using utf-8-sig)"

def defectMessage (t : Text) (defect : Defect) (remaining : Nat) : Text :=
  let before := t.take (t.length - remaining)
  let lines := before.count (.scalar '\n')
  let column := (before.reverse.takeWhile (· ≠ .scalar '\n')).length
  defect.text ++ lit ": line " ++ Text.ofNat (lines + 1) ++ lit " column " ++
    Text.ofNat (column + 1) ++ lit " (char " ++ Text.ofNat before.length ++ lit ")"

def isSpace (c : CodePoint) : Bool :=
  c == .scalar ' ' || c == .scalar '\n' || c == .scalar '\t' || c == .scalar '\r'

def skipSpaces (t : Text) : Text := t.dropWhile isSpace

def simpleEscape? : CodePoint → Option CodePoint
  | .scalar '"' => some (.scalar '"')
  | .scalar '\\' => some (.scalar '\\')
  | .scalar '/' => some (.scalar '/')
  | .scalar 'b' => some (.scalar '\x08')
  | .scalar 'f' => some (.scalar '\x0C')
  | .scalar 'n' => some (.scalar '\n')
  | .scalar 'r' => some (.scalar '\r')
  | .scalar 't' => some (.scalar '\t')
  | _ => none

def joinPair (high low : Nat) : CodePoint :=
  .ofNat (0x10000 + (high - 0xD800) * 0x400 + (low - 0xDC00))

def isHigh (n : Nat) : Bool := 0xD800 ≤ n && n < 0xDC00

def isLow (n : Nat) : Bool := 0xDC00 ≤ n && n < 0xE000

def malformed {α : Type} (defect : Defect) (place : Text) : Except Fault α :=
  .error (.malformed defect place.length)

def lowHalf? : Text → Option (Nat × Text)
  | .scalar '\\' :: .scalar 'u' :: a :: b :: c :: d :: t =>
    match Text.unitOfHex? a b c d with
    | some n => if isLow n && !t.isEmpty then some (n, t) else none
    | none => none
  | _ => none

/-- The content of a string after its opening quote, and the rest after its closing quote. At most
`fuel` code points are read; `start` is the place of the opening quote. -/
def readString (start : Nat) : Nat → Text → Except Fault (Text × Text)
  | 0, _ => .error (.malformed .unterminatedString start)
  | fuel + 1, t => match t with
    | [] => .error (.malformed .unterminatedString start)
    | c :: rest =>
      if c = .scalar '"' then .ok ([], rest)
      else if c = .scalar '\\' then
        match rest with
        | [] => .error (.malformed .unterminatedString start)
        | .scalar 'u' :: digits => match digits with
          | a :: b :: c :: d :: e :: after => match Text.unitOfHex? a b c d with
            | none => malformed .invalidUnicodeEscape rest
            | some n =>
              let joined := if isHigh n then lowHalf? (e :: after) else none
              let (c, t) := match joined with
                | some (m, t) => (joinPair n m, t)
                | none => (.ofNat n, e :: after)
              match readString start fuel t with
              | .ok (s, t) => .ok (c :: s, t)
              | .error e => .error e
          | _ => malformed .invalidUnicodeEscape rest
        | e :: rest => match simpleEscape? e with
          | none => malformed .invalidEscape t
          | some c => match readString start fuel rest with
            | .ok (s, t) => .ok (c :: s, t)
            | .error e => .error e
      else if c.val < 0x20 then malformed .controlCharacter t
      else match readString start fuel rest with
        | .ok (s, t) => .ok (c :: s, t)
        | .error e => .error e

def isAsciiDigit (c : CodePoint) : Bool := c.satisfies Char.isDigit

def spanDigits (t : Text) : Text × Text := (t.takeWhile isAsciiDigit, t.dropWhile isAsciiDigit)

def readFraction : Text → Option (Text × Text)
  | .scalar '.' :: t =>
    let (digits, rest) := spanDigits t
    if digits.isEmpty then none else some (digits, rest)
  | _ => none

def readExponent : Text → Option (Int × Text)
  | .scalar e :: t =>
    if e = 'e' ∨ e = 'E' then
      let (negative, t) := Text.takeSign t
      let (digits, rest) := spanDigits t
      if digits.isEmpty then none
      else
        let n := Text.valueOfDigits (digits.filterMap CodePoint.decimalValue?)
        some (if negative then -(n : Int) else n, rest)
    else none
  | _ => none

/-- A number. With a fraction or an exponent it is a float. -/
def readNumber (t : Text) : Except Fault (Json × Text) :=
  let (negative, body) := match t with
    | .scalar '-' :: t => (true, t)
    | t => (false, t)
  let (whole, rest) : Text × Text := match body with
    | .scalar '0' :: t => ([.scalar '0'], t)
    | t => spanDigits t
  if whole.isEmpty then malformed .expectingValue t
  else
    let fraction := readFraction rest
    let (fractionDigits, rest) := fraction.getD ([], rest)
    let exponent := readExponent rest
    let (e, rest) := exponent.getD (0, rest)
    let value := fun t : Text => t.filterMap CodePoint.decimalValue?
    if fraction.isNone && exponent.isNone then
      match Text.natOfDigits (value whole) with
      | .ok n => .ok (.int (if negative then -(n : Int) else n), rest)
      | .error _ => .error .integerTooLong
    else
      let x := Text.nearestFloat (value (whole ++ fractionDigits)) (e - fractionDigits.length)
      .ok (.float (if negative then -x else x), rest)

def readWord (t : Text) : Option (Json × Text) :=
  [("null", Json.null), ("true", .bool true), ("false", .bool false),
    ("NaN", .float (0.0 / 0.0)), ("Infinity", .float (1.0 / 0.0)),
    ("-Infinity", .float (-1.0 / 0.0))].findSome? fun (word, value) =>
      if Text.begins word t then some (value, t.drop word.length) else none

mutual

/-- A value at the front of the text. Each step reads a code point or opens a step that does, so
twice the length of the text is fuel enough. -/
def readValue : Nat → Text → Except Fault (Json × Text)
  | 0, t => malformed .expectingValue t
  | fuel + 1, t => match t with
    | .scalar '"' :: rest => match readString t.length (rest.length + 1) rest with
      | .ok (s, t) => .ok (.string s, t)
      | .error e => .error e
    | .scalar '[' :: t => match skipSpaces t with
      | .scalar ']' :: t => .ok (.array [], t)
      | t => match readItems fuel t with
        | .ok (items, t) => .ok (.array items, t)
        | .error e => .error e
    | .scalar '{' :: t => match skipSpaces t with
      | .scalar '}' :: t => .ok (.object [], t)
      | t => match readFields fuel t with
        | .ok (fields, t) => .ok (.object (Entries.ofPairs fields), t)
        | .error e => .error e
    | t => match readWord t with
      | some result => .ok result
      | none => readNumber t

def readItems : Nat → Text → Except Fault (List Json × Text)
  | 0, t => malformed .expectingValue t
  | fuel + 1, t => match readValue fuel t with
    | .error e => .error e
    | .ok (item, t) => match skipSpaces t with
      | .scalar ']' :: t => .ok ([item], t)
      | .scalar ',' :: t => match readItems fuel (skipSpaces t) with
        | .ok (items, t) => .ok (item :: items, t)
        | .error e => .error e
      | t => malformed .expectingComma t

def readFields : Nat → Text → Except Fault (List (Text × Json) × Text)
  | 0, t => malformed .expectingName t
  | fuel + 1, t => match t with
    | .scalar '"' :: rest => match readString t.length (rest.length + 1) rest with
      | .error e => .error e
      | .ok (name, t) => match skipSpaces t with
        | .scalar ':' :: t => match readValue fuel (skipSpaces t) with
          | .error e => .error e
          | .ok (value, t) => match skipSpaces t with
            | .scalar '}' :: t => .ok ([(name, value)], t)
            | .scalar ',' :: t => match readFields fuel (skipSpaces t) with
              | .ok (fields, t) => .ok ((name, value) :: fields, t)
              | .error e => .error e
            | t => malformed .expectingComma t
        | t => malformed .expectingColon t
    | t => malformed .expectingName t

end

/-- The value that the whole text denotes, blanks around it ignored. Values may be nested as deep as
they like: that a reader on a machine gives up when its stack is used up is left out. -/
def parse (t : Text) : Except Fault Json :=
  if Text.begins [.scalar '\uFEFF'] t then malformed .byteOrderMark t
  else match readValue (2 * t.length + 2) (skipSpaces t) with
    | .error e => .error e
    | .ok (value, rest) =>
      let rest := skipSpaces rest
      if rest.isEmpty then .ok value else malformed .extraData rest

end MetricBridge.Json
