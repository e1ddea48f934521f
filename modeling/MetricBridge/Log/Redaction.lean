import MetricBridge.Json.Basic
import MetricBridge.Text.Blank
import MetricBridge.Text.Folding
import MetricBridge.Text.Letter

namespace MetricBridge.Redaction

def hidden : Text := "[REDACTED]"

/-- A rule looks at a text and at whether a word character stands before it. If it applies to the
beginning, it says what to write instead, and of how many code points. -/
abbrev Rule := Bool → Text → Option (Text × Nat)

def applyFrom (rule : Rule) : Bool → Nat → Text → Text
  | _, _, [] => []
  | _, skip + 1, c :: t => applyFrom rule c.isWord skip t
  | afterWord, 0, c :: t => match rule afterWord (c :: t) with
    | some (written, n + 1) => written ++ applyFrom rule c.isWord n t
    | _ => c :: applyFrom rule c.isWord 0 t

def apply (rule : Rule) (t : Text) : Text := applyFrom rule false 0 t

def isQuote (c : CodePoint) : Bool := c == .scalar '"' || c == .scalar '\''

def queryToken : Rule := fun afterWord t =>
  let name := lit "token_auth="
  if !afterWord && Text.beginsFolded name t then
    let value := (t.drop name.length).takeWhile fun c =>
      c != .scalar '&' && !c.isBlank && !isQuote c
    if value.isEmpty then none
    else some (t.take name.length ++ hidden, name.length + value.length)
  else none

def secretWords : List Text := ["token", "password", "passwd", "secret", "authorization"]

def isNameLetter (c : CodePoint) : Bool := c.foldsToLetter || c == .scalar '_'

/-- The length of a quoted name of a secret; the two quotes may differ. -/
def quotedName? : Text → Option Nat
  | [] => none
  | c :: t =>
    if isQuote c then
      let name := t.takeWhile isNameLetter
      let isSecret := secretWords.any (Text.occursIn · (name.map CodePoint.fold))
      if isSecret && (t.drop name.length).head?.any isQuote then some (name.length + 2) else none
    else none

def separator? (t : Text) : Option Nat :=
  let before := (t.takeWhile CodePoint.isBlank).length
  match t.drop before with
  | .scalar ':' :: t => some (before + 1 + (t.takeWhile CodePoint.isBlank).length)
  | _ => none

/-- The length of the rest of a quoted value with its closing quote. A backslash takes the next code
point along. -/
def closing? (quote : CodePoint) : Text → Option Nat
  | [] => none
  | [c] => if c = quote then some 1 else none
  | c :: d :: t =>
    if c = quote then some 1
    else if c = .scalar '\\' then
      if d = .scalar '\n' then none else (closing? quote t).map (· + 2)
    else (closing? quote (d :: t)).map (· + 1)

def bareValue? (t : Text) : Option Nat :=
  let n := (t.takeWhile fun c => c != .scalar ',' && !c.isBlank && c != .scalar '}').length
  if n = 0 then none else some n

def valueLength? (t : Text) : Option Nat :=
  match t with
  | [] => none
  | c :: rest =>
    if isQuote c then ((closing? c rest).map (· + 1)).or (bareValue? t) else bareValue? t

def hiddenValue (value : Text) : Text :=
  match value.head?, value.getLast? with
  | some c, some d =>
    if 2 ≤ value.length ∧ isQuote c ∧ d = c then c :: hidden ++ [c] else hidden
  | _, _ => hidden

def namedValue : Rule := fun _ t => do
  let name ← quotedName? t
  let separator ← separator? (t.drop name)
  let start := name + separator
  let n ← valueLength? (t.drop start)
  some (t.take start ++ hiddenValue ((t.drop start).take n), start + n)

def isCredential (c : CodePoint) : Bool :=
  c.foldsToLetter || c.satisfies fun c => c.isDigit || "._~+/=-".toList.contains c

def authorization : Rule := fun afterWord t => do
  if afterWord then none
  let scheme ← [lit "basic", lit "bearer"].find? (Text.beginsFolded · t)
  let blanks := (t.drop scheme.length).takeWhile CodePoint.isBlank
  let value := (t.drop (scheme.length + blanks.length)).takeWhile isCredential
  if blanks.isEmpty || value.isEmpty then none
  some (t.take scheme.length ++ .scalar ' ' :: hidden,
    scheme.length + blanks.length + value.length)

def userInfo? (t : Text) : Option Nat :=
  let isPlain := fun c : CodePoint => c != .scalar '/' && !c.isBlank && c != .scalar '@'
  let user := (t.takeWhile fun c => isPlain c && c != .scalar ':').length
  if user = 0 then none
  else
    let password := match t.drop user with
      | .scalar ':' :: rest => 1 + (rest.takeWhile isPlain).length
      | _ => 0
    if (t.drop (user + password)).head? = some (.scalar '@') then some (user + password + 1)
    else none

def address : Rule := fun afterWord t => do
  if afterWord then none
  let scheme ← [lit "https://", lit "http://"].find? (Text.beginsFolded · t)
  let n ← userInfo? (t.drop scheme.length)
  some (t.take scheme.length ++ hidden ++ [.scalar '@'], scheme.length + n)

def redact (t : Text) : Text :=
  apply address (apply authorization (apply namedValue (apply queryToken t)))

def words (t : Text) : List Text :=
  let inWord := fun c : CodePoint => c.satisfies fun c => c.isLower || c.isDigit
  ((t.map fun c => if inWord c then c else .scalar ' ') |> Text.pieces (.scalar ' ')).filter
    (! ·.isEmpty)

def fieldWords : List Text := ["token", "password", "passwd", "pwd", "secret", "authorization"]

def isSecretField (name : Text) : Bool := (words name.lowerLatin).any fieldWords.contains

mutual

/-- The value without the secrets in its texts and without the values of its secret fields. -/
def redactValue : Json → Json
  | .null => .null
  | .bool b => .bool b
  | .int n => .int n
  | .float x => .float x
  | .string t => .string (redact t)
  | .array items => .array (redactItems items)
  | .object fields => .object (redactFields fields)
termination_by structural j => j

def redactItems : List Json → List Json
  | [] => []
  | item :: items => redactValue item :: redactItems items
termination_by structural items => items

def redactFields : List (Text × Json) → List (Text × Json)
  | [] => []
  | (name, value) :: fields =>
    (name, if isSecretField name then .string hidden else redactValue value) :: redactFields fields
termination_by structural fields => fields

end

end MetricBridge.Redaction
