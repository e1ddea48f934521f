import MetricBridge.Decimal.Placed
import MetricBridge.Json.Shape
import MetricBridge.Seconds

namespace MetricBridge.Template

inductive Values where
  | inOrder (values : List Json)
  | byName (fields : List (Text × Json))

/-- A single object that is not empty gives its fields by name. -/
def Values.ofList : List Json → Values
  | [.object (field :: fields)] => byName (field :: fields)
  | values => inOrder values

structure Flags where
  left : Bool := false
  sign : Bool := false
  blank : Bool := false
  alternate : Bool := false
  zero : Bool := false

structure Placeholder where
  flags : Flags
  width : Nat
  precision : Option Nat
  conversion : Char

structure Supply where
  values : List Json
  fields : Option (List (Text × Json))

def Values.supply : Values → Supply
  | inOrder values => ⟨values, none⟩
  | byName fields => ⟨[.object fields], some fields⟩

def Supply.next? (s : Supply) : Option (Json × Supply) :=
  match s.values with
  | [] => none
  | value :: values => some (value, { s with values })

def Supply.isSpent (s : Supply) : Bool := s.fields.isSome || s.values.isEmpty

def takeKey : Nat → Text → Option (Text × Text)
  | _, [] => none
  | depth, c :: t =>
    if c = .scalar ')' then
      match depth with
      | 0 => some ([], t)
      | depth + 1 => (takeKey depth t).map fun (key, rest) => (c :: key, rest)
    else
      let depth := if c = .scalar '(' then depth + 1 else depth
      (takeKey depth t).map fun (key, rest) => (c :: key, rest)

def takeFlags (f : Flags) : Text → Flags × Text
  | .scalar '-' :: t => takeFlags { f with left := true } t
  | .scalar '+' :: t => takeFlags { f with sign := true } t
  | .scalar ' ' :: t => takeFlags { f with blank := true } t
  | .scalar '#' :: t => takeFlags { f with alternate := true } t
  | .scalar '0' :: t => takeFlags { f with zero := true } t
  | t => (f, t)

def takeCount (s : Supply) (t : Text) : Option (Int × Text × Supply) :=
  match t with
  | .scalar '*' :: t => do
    let (value, s) ← s.next?
    match value with
    | .int n => some (n, t, s)
    | .bool b => some (if b then 1 else 0, t, s)
    | _ => none
  | t =>
    let digits := t.takeWhile (·.satisfies Char.isDigit)
    some (valueOfDigits digits, t.drop digits.length, s)
where
  valueOfDigits (t : Text) : Nat := Text.valueOfDigits (t.filterMap CodePoint.decimalValue?)

def takePrecision (s : Supply) : Text → Option (Option Nat × Text × Supply)
  | .scalar '.' :: t => (takeCount s t).map fun (n, t, s) => (some n.toNat, t, s)
  | t => some (none, t, s)

def select (key : Text) (s : Supply) : Option Supply := do
  let fields ← s.fields
  let value ← Entries.find? key fields
  some { s with values := [value] }

def takePlaceholder (s : Supply) (t : Text) : Option (Placeholder × Text × Supply) := do
  let (t, s) ← match t with
    | .scalar '(' :: t => do
      let (key, t) ← takeKey 0 t
      pure (t, ← select key s)
    | t => some (t, s)
  let (flags, t) := takeFlags {} t
  let (width, t, s) ← takeCount s t
  let flags := if width < 0 then { flags with left := true } else flags
  let (precision, t, s) ← takePrecision s t
  let t := match t with
    | .scalar c :: rest => if c = 'h' ∨ c = 'l' ∨ c = 'L' then rest else t
    | t => t
  match t with
  | .scalar c :: t => some (⟨flags, width.natAbs, precision, c⟩, t, s)
  | _ => none

def Flags.signText (f : Flags) (negative : Bool) : Text :=
  if negative then [.scalar '-']
  else if f.sign then [.scalar '+']
  else if f.blank then [.scalar ' ']
  else []

def Placeholder.alignText (p : Placeholder) (t : Text) : Text :=
  if p.flags.left then Text.padRight ' ' p.width t else Text.padLeft ' ' p.width t

def Placeholder.alignNumber (p : Placeholder) (negative : Bool) (mark body : Text) : Text :=
  let front := p.flags.signText negative ++ mark
  if p.flags.zero && !p.flags.left then front ++ Text.padLeft '0' (p.width - front.length) body
  else p.alignText (front ++ body)

def Placeholder.integer (p : Placeholder) (base : Nat) (mark : Text) (n : Int) : Text :=
  let digits := Text.padLeft '0' (p.precision.getD 0) ((Nat.toDigits base n.natAbs).map .scalar)
  p.alignNumber (n < 0) (if p.flags.alternate then mark else []) digits

def upper (t : Text) : Text := t.map fun
  | .scalar c => .scalar c.toUpper
  | c => c

def Placeholder.float (p : Placeholder) (x : Float) : Text :=
  let places := p.precision.getD 6
  let value := Binary.ofFloat x
  let body : Text :=
    if x.isNaN then "nan"
    else if x.isInf then "inf"
    else match p.conversion.toLower with
      | 'e' => Text.scientific places p.flags.alternate value
      | 'f' => Text.fixed places p.flags.alternate value
      | _ => Text.general places p.flags.alternate value
  let body := if p.conversion.isUpper then upper body else body
  p.alignNumber (!x.isNaN && x.toBits >>> 63 == 1) [] body

def decimalOf? : Json → Option Int
  | .float x => if x.isNaN || x.isInf then none else some (Json.truncate x)
  | .int n => some n
  | .bool b => some (if b then 1 else 0)
  | _ => none

def integerOf? : Json → Option Int
  | .int n => some n
  | .bool b => some (if b then 1 else 0)
  | _ => none

def floatOf? : Json → Option Float
  | .float x => some x
  | .int n => Seconds.floatOfInt? n
  | .bool b => some (if b then 1.0 else 0.0)
  | _ => none

def characterOf? : Json → Option CodePoint
  | .string [c] => some c
  | j => do
    let n ← integerOf? j
    if 0 ≤ n ∧ n < 0x110000 then some (.ofNat n.toNat) else none

def Placeholder.write (p : Placeholder) (value : Json) : Option Text :=
  let cut := fun t : Text => p.alignText (match p.precision with
    | some n => t.take n
    | none => t)
  match p.conversion with
  | 's' => some (cut value.plain)
  | 'r' => some (cut value.inspect)
  | 'a' => some (cut value.inspect.inAscii)
  | 'd' | 'i' | 'u' => (decimalOf? value).map (p.integer 10 [])
  | 'o' => (integerOf? value).map (p.integer 8 "0o")
  | 'x' => (integerOf? value).map (p.integer 16 "0x")
  | 'X' => (integerOf? value).map fun n => upper (p.integer 16 "0x" n)
  | 'e' | 'E' | 'f' | 'F' | 'g' | 'G' => (floatOf? value).map p.float
  | 'c' => (characterOf? value).map fun c => p.alignText [c]
  | _ => none

/-- Fills in at most `fuel` pieces of a template. Nothing comes out if a value is missing, left over
or of the wrong kind. -/
def fillFrom : Nat → Supply → Text → Option Text
  | 0, s, _ => if s.isSpent then some [] else none
  | _ + 1, s, [] => if s.isSpent then some [] else none
  | fuel + 1, s, .scalar '%' :: .scalar '%' :: t =>
    (fillFrom fuel s t).map (.scalar '%' :: ·)
  | fuel + 1, s, .scalar '%' :: t => do
    let (p, t, s) ← takePlaceholder s t
    let (value, s) ← s.next?
    return (← p.write value) ++ (← fillFrom fuel s t)
  | fuel + 1, s, c :: t => (fillFrom fuel s t).map (c :: ·)

/-- The template with its values. A template without values is no template: it stays as it is. -/
def fill (template : Text) (values : List Json) : Option Text :=
  if values.isEmpty then some template
  else fillFrom (template.length + 1) (Values.ofList values).supply template

end MetricBridge.Template
