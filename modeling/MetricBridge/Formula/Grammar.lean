import MetricBridge.Formula.Expr
import MetricBridge.Formula.Level
import MetricBridge.Formula.Scan

namespace MetricBridge.Formula

structure Surroundings where
  /-- Inside brackets line feeds have no meaning. -/
  grouped : Bool
  /-- The next colon belongs to a conditional whose brackets are the innermost ones. -/
  awaitsColon : Bool
deriving DecidableEq, Repr

namespace Surroundings

def outermost : Surroundings := ⟨false, false⟩

def group : Surroundings := ⟨true, false⟩

def branch (s : Surroundings) : Surroundings := { s with awaitsColon := true }

end Surroundings

abbrev Reading (α : Type) := Except Failure (α × List Token)

def settle (s : Surroundings) (ts : List Token) : List Token :=
  if s.grouped then ts.dropWhile fun t => t.lexeme = .newline else ts

def front : List Token → Token
  | [] => ⟨.finish, 0⟩
  | t :: _ => t

def passed : List Token → List Token
  | [] => []
  | t :: ts => if t.lexeme = .finish then t :: ts else ts

def fail {α : Type} (fault : SyntaxFault) (t : Token) : Except Failure α :=
  .error (.syntaxError ⟨fault, t.position⟩)

def after? (s : Surroundings) (d : Delimiter) (ts : List Token) : Option (List Token) :=
  let ts := settle s ts
  if (front ts).lexeme = .delimiter d then some (passed ts) else none

def expect (s : Surroundings) (d : Delimiter) (ts : List Token) : Except Failure (List Token) :=
  match after? s d ts with
  | some rest => .ok rest
  | none => let t := front (settle s ts); fail (.expected d t.lexeme) t

def operatorAt? (s : Surroundings) (table : OperatorTable) (ts : List Token) :
    Option (Text × Operation × List Token) :=
  let ts := settle s ts
  match (front ts).lexeme.operator? with
  | none => none
  | some op => (table.find? op).map fun fn => (op, fn, passed ts)

abbrev Rule := Surroundings → List Token → Reading Expr

namespace Rule

/-- Operands joined by operators of the table, from left to right. `fuel` exceeds the number of
tokens, here and in the rules below that repeat. -/
def joinOnto (operand : Rule) (table : OperatorTable) (s : Surroundings) :
    Nat → Expr → List Token → Reading Expr
  | 0, left, ts => .ok (left, ts)
  | fuel + 1, left, ts => match operatorAt? s table ts with
    | none => .ok (left, ts)
    | some (op, fn, ts) => match operand s ts with
      | .error e => .error e
      | .ok (right, ts) => joinOnto operand table s fuel (.operator op fn [left, right]) ts

def joined (operand : Rule) (table : OperatorTable) : Rule := fun s ts =>
  match operand s ts with
  | .error e => .error e
  | .ok (left, ts) => joinOnto operand table s (ts.length + 1) left ts

/-- What may stand left of an equals sign: a name, an accessor, or a call of a name with names. -/
def assign? (target value : Expr) : Option Expr :=
  match target with
  | .symbol _ => some (.assignment target value)
  | .accessor .. => some (.assignment target value)
  | .call (.symbol name) args =>
    (args.mapM fun | Expr.symbol param => some param | _ => none).map fun params =>
      .definition name params value
  | _ => none

def assignment (target value : Rule) : Rule := fun s ts =>
  match target s ts with
  | .error e => .error e
  | .ok (left, ts) => match after? s .assign ts with
    | none => .ok (left, ts)
    | some rest => match value s rest with
      | .error e => .error e
      | .ok (right, rest) => match assign? left right with
        | some e => .ok (e, rest)
        | none => fail .invalidTarget (front (settle s ts))

/-- The branch after the question mark reads no range at its own level, so that its colon is left
for the conditional. The branch after the colon takes in a further conditional. -/
def conditional (condition branch : Rule) : Rule := fun s ts =>
  match condition s ts with
  | .error e => .error e
  | .ok (c, ts) => match after? s .question ts with
    | none => .ok (c, ts)
    | some ts => match branch s.branch ts with
      | .error e => .error e
      | .ok (whenTrue, ts) => match after? s .colon ts with
        | none => fail .falsePartMissing (front (settle s ts))
        | some ts => match branch s ts with
          | .error e => .error e
          | .ok (whenFalse, ts) => .ok (.conditional c whenTrue whenFalse, ts)

def comparisons (operand : Rule) (s : Surroundings) :
    Nat → List Token → Reading (List (Text × Operation × Expr))
  | 0, ts => .ok ([], ts)
  | fuel + 1, ts => match operatorAt? s Level.relational.joining ts with
    | none => .ok ([], ts)
    | some (op, fn, ts) => match operand s ts with
      | .error e => .error e
      | .ok (right, ts) => match comparisons operand s fuel ts with
        | .error e => .error e
        | .ok (more, ts) => .ok ((op, fn, right) :: more, ts)

def relational (operand : Rule) : Rule := fun s ts =>
  match operand s ts with
  | .error e => .error e
  | .ok (left, ts) => match comparisons operand s (ts.length + 1) ts with
    | .error e => .error e
    | .ok ([], ts) => .ok (left, ts)
    | .ok ([(op, fn, right)], ts) => .ok (.operator op fn [left, right], ts)
    | .ok (links, ts) =>
      .ok (.relational (links.map (·.2.1)) (left :: links.map (·.2.2)) (links.map (·.1)), ts)

/-- Two or three operands with colons between them, unless a conditional waits for the colon. -/
def range (operand : Rule) : Rule := fun s ts =>
  match operand s ts with
  | .error e => .error e
  | .ok (first, ts) =>
    if s.awaitsColon then .ok (first, ts)
    else match after? s .colon ts with
      | none => .ok (first, ts)
      | some ts => match operand s ts with
        | .error e => .error e
        | .ok (second, ts) => match after? s .colon ts with
          | none => .ok (.range first none second, ts)
          | some ts => match operand s ts with
            | .error e => .error e
            | .ok (third, ts) => .ok (.range first (some second) third, ts)

def unary (self operand : Rule) : Rule := fun s ts =>
  match operatorAt? s Level.unaryTable ts with
  | none => operand s ts
  | some (op, fn, ts) => match self s ts with
    | .error e => .error e
    | .ok (arg, ts) => .ok (.operator op fn [arg], ts)

def power (base exponent : Rule) : Rule := fun s ts =>
  match base s ts with
  | .error e => .error e
  | .ok (left, ts) => match operatorAt? s Level.powerTable ts with
    | none => .ok (left, ts)
    | some (op, fn, ts) => match exponent s ts with
      | .error e => .error e
      | .ok (right, ts) => .ok (.operator op fn [left, right], ts)

def listed (item : Rule) : Nat → List Token → Reading (List Expr)
  | 0, ts => .ok ([], ts)
  | fuel + 1, ts => match item .group ts with
    | .error e => .error e
    | .ok (e, ts) => match after? .group .comma ts with
      | none => .ok ([e], ts)
      | some ts => match listed item fuel ts with
        | .error e => .error e
        | .ok (es, ts) => .ok (e :: es, ts)

def enclosed (item : Rule) (closing : Delimiter) (ts : List Token) : Reading (List Expr) :=
  match after? .group closing ts with
  | some ts => .ok ([], ts)
  | none => match listed item (ts.length + 1) ts with
    | .error e => .error e
    | .ok (es, ts) => match expect .group closing ts with
      | .error e => .error e
      | .ok ts => .ok (es, ts)

def isCallable : Expr → Bool
  | .symbol _ => true
  | .accessor .. => true
  | _ => false

def accessorsOnto (item : Rule) (s : Surroundings) : Nat → Expr → List Token → Reading Expr
  | 0, e, ts => .ok (e, ts)
  | fuel + 1, e, ts =>
    let here := settle s ts
    match (front here).lexeme with
    | .delimiter .openParen =>
      if isCallable e then
        match enclosed item .closeParen (passed here) with
        | .error e => .error e
        | .ok (args, ts) => accessorsOnto item s fuel (.call e args) ts
      else .ok (e, ts)
    | .delimiter .openBracket => match enclosed item .closeBracket (passed here) with
      | .error e => .error e
      | .ok ([], _) => fail .indexMissing (front here)
      | .ok (dimensions, ts) =>
        accessorsOnto item s fuel (.accessor e (.index dimensions false)) ts
    | .delimiter .dot =>
      let next := settle s (passed here)
      match (front next).lexeme with
      | .name name =>
        accessorsOnto item s fuel (.accessor e (.index [.constant (.string name)] true))
          (passed next)
      | _ => fail .propertyNameMissing (front next)
    | _ => .ok (e, ts)

def factorialsOnto (s : Surroundings) : Nat → Expr → List Token → Expr × List Token
  | 0, e, ts => (e, ts)
  | fuel + 1, e, ts => match operatorAt? s Level.factorialTable ts with
    | none => (e, ts)
    | some (op, fn, ts) => factorialsOnto s fuel (.operator op fn [e]) ts

def factorial (primary item : Rule) : Rule := fun s ts =>
  match primary s ts with
  | .error e => .error e
  | .ok (e, ts) => match accessorsOnto item s (ts.length + 1) e ts with
    | .error e => .error e
    | .ok (e, ts) => .ok (factorialsOnto s (ts.length + 1) e ts)

def number (literal : Text) : Except Failure Literal :=
  match Text.digitValues? literal with
  | some digits => match Text.natOfDigits digits with
    | .ok n => .ok (.int n)
    | .error _ => .error .integerTooLong
  | none => .ok (.float ((Text.decimalFloat? literal).getD 0.0))

def namedConstant? (name : Text) : Option Literal :=
  if name = "true" then some (.bool true)
  else if name = "false" then some (.bool false)
  else if name = "null" then some .null
  else none

/-- The properties of an object up to its closing brace. `first` says whether none came before. -/
def properties (item : Rule) (first : Bool) :
    Nat → List Token → Reading (List (Text × Expr))
  | 0, ts => .ok ([], ts)
  | fuel + 1, ts => match after? .group .closeBrace ts with
    | some ts => .ok ([], ts)
    | none => match if first then .ok ts else expect .group .comma ts with
      | .error e => .error e
      | .ok ts =>
        let here := settle .group ts
        let key? := match (front here).lexeme with
          | .string key => some key
          | .name key => some key
          | _ => none
        match key? with
        | none => fail .keyMissing (front here)
        | some key => match expect .group .colon (passed here) with
          | .error e => .error e
          | .ok ts => match item .group ts with
            | .error e => .error e
            | .ok (value, ts) => match properties item false fuel ts with
              | .error e => .error e
              | .ok (more, ts) => .ok ((key, value) :: more, ts)

def primary (item : Rule) : Rule := fun s ts =>
  let here := settle s ts
  let t := front here
  let rest := passed here
  match t.lexeme with
  | .number literal => match number literal with
    | .error e => .error e
    | .ok value => .ok (.constant value, rest)
  | .string value => .ok (.constant (.string value), rest)
  | .name name =>
    if isWordOperator name then fail (.unexpectedOperator name) t
    else match namedConstant? name with
      | some value => .ok (.constant value, rest)
      | none => .ok (.symbol name, rest)
  | .delimiter .openParen => match item .group rest with
    | .error e => .error e
    | .ok (content, ts) => match expect .group .closeParen ts with
      | .error e => .error e
      | .ok ts => .ok (.parenthesis content, ts)
  | .delimiter .openBracket => match enclosed item .closeBracket rest with
    | .error e => .error e
    | .ok (items, ts) => .ok (.array items, ts)
  | .delimiter .openBrace => match properties item true (rest.length + 1) rest with
    | .error e => .error e
    | .ok (properties, ts) => .ok (.object properties, ts)
  | .finish => fail .unexpectedEnd t
  | found => fail (.valueMissing found) t

/-- The rule of a level, for trees of a given depth of rules. -/
def ofLevel : Nat → Level → Rule
  | 0, _ => fun _ _ => .error .tooDeep
  | depth + 1, level => match level with
    | .assignment => assignment (ofLevel depth .conditional) (ofLevel depth .assignment)
    | .conditional => conditional (ofLevel depth .or) (ofLevel depth .assignment)
    | .relational => relational (ofLevel depth .shift)
    | .range => range (ofLevel depth .additive)
    | .unary => unary (ofLevel depth .unary) (ofLevel depth .power)
    | .power => power (ofLevel depth .factorial) (ofLevel depth .unary)
    | .factorial => factorial (ofLevel depth .primary) (ofLevel depth .assignment)
    | .primary => primary (ofLevel depth .assignment)
    | level => joined (ofLevel depth level.next) level.joining

/-- The statements of a block up to its end, or up to a token that starts no statement; and whether
a separator occurred. `free` says that a separator stands before or that no statement does. -/
def statements (item : Rule) (free : Bool) :
    Nat → List Token → Except Failure (List Expr × Bool × List Token)
  | 0, ts => .ok ([], false, ts)
  | fuel + 1, ts =>
    match (front ts).lexeme with
    | .finish => .ok ([], false, ts)
    | .newline => (statements item true fuel (passed ts)).map fun (es, _, ts) => (es, true, ts)
    | .delimiter .semicolon =>
      (statements item true fuel (passed ts)).map fun (es, _, ts) => (es, true, ts)
    | _ =>
      if !free then .ok ([], false, ts)
      else match item .outermost ts with
        | .error e => .error e
        | .ok (e, ts) => (statements item false fuel ts).map fun (es, seen, ts) => (e :: es, seen, ts)

def block (item : Rule) (ts : List Token) : Reading Expr :=
  match statements item true (ts.length + 1) ts with
  | .error e => .error e
  | .ok ([], _, ts) => fail .unexpectedEnd (front ts)
  | .ok ([e], false, ts) => .ok (e, ts)
  | .ok (es, _, ts) => .ok (.block es, ts)

end Rule

/-- How deep nested rules are followed when a formula is read, and nested nodes when it is written. The
stack of the machine sets the bounds. -/
structure Depths where
  rules : Nat
  nodes : Nat
  /-- Twenty groups inside one another can be read. -/
  le_rules : 360 ≤ rules
  le_nodes : 150 ≤ nodes

def Depths.least : Depths := ⟨360, 150, Nat.le_refl _, Nat.le_refl _⟩

def parseTokens (depth : Nat) (ts : List Token) : Except Failure Expr :=
  match Rule.block (Rule.ofLevel depth .assignment) ts with
  | .error e => .error e
  | .ok (e, ts) =>
    let t := front ts
    if t.lexeme = .finish then .ok e else fail (.unexpectedToken t.lexeme) t

def parse (depths : Depths) (t : Text) : Except Failure Expr :=
  match tokenize t with
  | .error e => .error e
  | .ok ts => parseTokens depths.rules ts

end MetricBridge.Formula
