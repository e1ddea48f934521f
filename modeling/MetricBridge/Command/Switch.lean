import MetricBridge.Decimal.Reading
import MetricBridge.Entries
import MetricBridge.Text.Printable

namespace MetricBridge.Command

inductive ValueKind where
  | text
  | float
  | int
  | oneOf (choices : List Text)
  /-- A name and a value with `=` between them. -/
  | assignment

inductive Value where
  | text (t : Text)
  | float (x : Float)
  | int (n : Int)
  | assignment (name value : Text)

inductive SwitchKind where
  | help
  | version
  | mark
  | value (kind : ValueKind)

structure Switch where
  /-- The names with their dashes. The first one stands for the switch. -/
  names : List Text
  kind : SwitchKind
  isRequired : Bool := false

structure Table where
  program : Text
  switches : List Switch
  word : Option Text
  /-- Whether all that comes after the word belongs to it. -/
  takesRest : Bool := false

inductive Stop where
  | help (program : Text)
  | version
  | misuse (program message : Text)
deriving DecidableEq, Repr

structure Attached where
  afterEquals : Bool
  text : Text

inductive Argument where
  | word (t : Text)
  | separator
  | switch (t : Text) (found : Option (Switch × Text × Option Attached))

def dash : CodePoint := .scalar '-'

def equals : CodePoint := .scalar '='

namespace ValueKind

def invalid (what : Text) (t : Text) : Text :=
  lit "invalid " ++ what ++ lit ": " ++ t.inSingleQuotes

def read (t : Text) : ValueKind → Except Text Value
  | text => .ok (.text t)
  | float => match Text.readFloat t with
    | .ok x => .ok (.float x)
    | .error _ => .error (invalid "float value" t)
  | int => match Text.readInt t with
    | .ok n => .ok (.int n)
    | .error _ => .error (invalid "int value" t)
  | oneOf choices =>
    if choices.contains t then .ok (.text t)
    else .error (invalid "choice" t ++ lit " (choose from " ++
      Text.joinWith ", " (choices.map Text.inSingleQuotes) ++ lit ")")
  | assignment => match Text.cutAt equals t with
    | some (c :: name, value) => .ok (.assignment (c :: name) value)
    | _ => .error (lit "expected key=value, got " ++ t.inSingleQuotes)

end ValueKind

namespace Switch

def id (s : Switch) : Text := s.names.head?.getD []

def label (s : Switch) : Text := Text.joinWith "/" s.names

def takesValue (s : Switch) : Bool := match s.kind with
  | .value _ => true
  | _ => false

end Switch

namespace Argument

def isSwitch : Argument → Bool
  | switch .. => true
  | _ => false

def isSeparator : Argument → Bool
  | separator => true
  | _ => false

def text : Argument → Text
  | word t | switch t _ => t
  | separator => "--"

end Argument

/-- A number with a dash in front, possibly with a point and at the end of a line. -/
def isNegativeNumber (t : Text) : Bool :=
  let ends := fun t : Text => t.isEmpty || t == lit "\n"
  match t with
  | [] => false
  | c :: t =>
    let whole := t.takeWhile CodePoint.isDecimal
    c == dash && match t.drop whole.length with
      | .scalar '.' :: t =>
        let fraction := t.takeWhile CodePoint.isDecimal
        !fraction.isEmpty && ends (t.drop fraction.length)
      | t => !whole.isEmpty && ends t

namespace Table

def misuse {α : Type} (t : Table) (message : Text) : Except Stop α :=
  .error (.misuse t.program message)

def wrong {α : Type} (t : Table) (label message : Text) : Except Stop α :=
  t.misuse (lit "argument " ++ label ++ lit ": " ++ message)

def names (t : Table) : List (Text × Switch) :=
  t.switches.flatMap fun s => s.names.map fun name => (name, s)

def find? (t : Table) (name : Text) : Option Switch := Entries.find? name t.names

/-- The switches that an argument with a dash may mean by the beginning of their names, or by one
letter with a value attached. -/
def candidates (t : Table) (arg : Text) : List (Switch × Text × Option Attached) :=
  if Text.begins "--" arg then
    let (start, attached) := match Text.cutAt equals arg with
      | some (start, value) => (start, some ⟨true, value⟩)
      | none => (arg, none)
    t.names.filterMap fun (name, s) =>
      if Text.begins start name then some (s, name, attached) else none
  else t.names.filterMap fun (name, s) =>
    if name = arg.take 2 then some (s, name, some ⟨false, arg.drop 2⟩)
    else if Text.begins arg name then some (s, name, none)
    else none

/-- The class of an argument. A negative number, or a text with a space, is no unknown switch. -/
def classify (t : Table) (arg : Text) : Except Stop Argument :=
  if arg.head? ≠ some dash then .ok (.word arg)
  else match t.find? arg with
    | some s => .ok (.switch arg (some (s, arg, none)))
    | none =>
      if arg.length = 1 then .ok (.word arg)
      else
        let exact := do
          let (name, value) ← Text.cutAt equals arg
          let s ← t.find? name
          some (s, name, some (Attached.mk true value))
        match exact, t.candidates arg with
        | some found, _ | none, [found] => .ok (.switch arg (some found))
        | none, [] =>
          if isNegativeNumber arg || arg.contains (.scalar ' ') then .ok (.word arg)
          else .ok (.switch arg none)
        | none, many => t.misuse (lit "ambiguous option: " ++ arg ++ lit " could match " ++
            Text.joinWith ", " (many.map fun (_, name, _) => name))

def classifyAll (t : Table) : List Text → Except Stop (List Argument)
  | [] => .ok []
  | arg :: args =>
    if arg = lit "--" then .ok (.separator :: args.map .word)
    else do return (← t.classify arg) :: (← t.classifyAll args)

inductive Leftover where
  | nothing
  | switch (s : Switch)
  | unknown (t : Text)

/-- The switches in an argument with a text attached to its first one. The text is the value of that
switch, or it names further switches of one letter. -/
def unpack (t : Table) (s : Switch) (name : Text) (afterEquals : Bool) :
    Text → Except Stop (List (Switch × Option Text) × Leftover)
  | [] =>
    if s.takesValue then .ok ([(s, some [])], .nothing)
    else t.wrong s.label "ignored explicit argument ''"
  | c :: more =>
    if s.takesValue then .ok ([(s, some (c :: more))], .nothing)
    else if Text.begins "--" name || afterEquals || c = dash then
      t.wrong s.label (lit "ignored explicit argument " ++ Text.inSingleQuotes (c :: more))
    else match t.find? [dash, c] with
      | none => .ok ([(s, none)], .unknown (dash :: c :: more))
      | some next => match more with
        | [] => .ok ([(s, none)], .switch next)
        | d :: rest => do
          let (taken, leftover) ←
            if d = equals then t.unpack next [dash, c] true rest
            else t.unpack next [dash, c] false (d :: rest)
          return ((s, none) :: taken, leftover)

structure Reading where
  given : List (Text × Option Value) := []
  words : List Text := []
  extras : List Text := []

namespace Reading

def has (r : Reading) (id : Text) : Bool := r.given.any fun (name, _) => name == id

def values (r : Reading) (id : Text) : List Value :=
  r.given.filterMap fun (name, value) => if name = id then value else none

def last? (r : Reading) (id : Text) : Option Value := (r.values id).getLast?

def text? (r : Reading) (id : Text) : Option Text := match r.last? id with
  | some (.text t) => some t
  | _ => none

def float? (r : Reading) (id : Text) : Option Float := match r.last? id with
  | some (.float x) => some x
  | _ => none

def int? (r : Reading) (id : Text) : Option Int := match r.last? id with
  | some (.int n) => some n
  | _ => none

end Reading

def apply (t : Table) : Reading → List (Switch × Option Text) → Except Stop Reading
  | r, [] => .ok r
  | r, (s, text) :: rest => match s.kind with
    | .help => .error (.help t.program)
    | .version => .error .version
    | .mark => t.apply { r with given := r.given ++ [(s.id, none)] } rest
    | .value kind => match kind.read (text.getD []) with
      | .error reason => t.wrong s.label reason
      | .ok value => t.apply { r with given := r.given ++ [(s.id, some value)] } rest

def takeSwitch (t : Table) (r : Reading) (s : Switch) (name : Text) (attached : Option Attached)
    (rest : List Argument) : Except Stop (Reading × List Argument) := do
  let (taken, leftover) ← match attached with
    | none => pure ([], Leftover.switch s)
    | some a => t.unpack s name a.afterEquals a.text
  match leftover with
  | .nothing => return (← t.apply r taken, rest)
  | .unknown arg => return (← t.apply { r with extras := r.extras ++ [arg] } taken, rest)
  | .switch s =>
    if s.takesValue then match rest with
      | .word value :: rest => return (← t.apply r (taken ++ [(s, some value)]), rest)
      | _ => t.wrong s.label "expected one argument"
    else return (← t.apply r (taken ++ [(s, none)]), rest)

def takeWord (t : Table) (r : Reading) (args : List Argument) : Option (Reading × List Argument) :=
  if t.word.isNone || !r.words.isEmpty then none
  else match args.dropWhile Argument.isSeparator with
    | .word w :: rest =>
      if t.takesRest then some ({ r with words := args.map Argument.text }, [])
      else some ({ r with words := [w] }, rest.dropWhile Argument.isSeparator)
    | _ => none

def takeAll (t : Table) : Nat → Reading → List Argument → Except Stop Reading
  | 0, r, _ => .ok r
  | fuel + 1, r, args => match args with
    | .switch arg none :: rest => t.takeAll fuel { r with extras := r.extras ++ [arg] } rest
    | .switch _ (some (s, name, attached)) :: rest => do
      let (r, rest) ← t.takeSwitch r s name attached rest
      t.takeAll fuel r rest
    | args => match t.takeWord r args with
      | some (r, rest) => t.takeAll fuel r rest
      | none =>
        let loose := args.takeWhile (! ·.isSwitch)
        let r := { r with extras := r.extras ++ loose.map Argument.text }
        match args.drop loose.length with
        | [] => .ok r
        | rest => t.takeAll fuel r rest

def missing (t : Table) (r : Reading) : List Text :=
  (if r.words.isEmpty then t.word.toList else []) ++
    (t.switches.filter fun s => s.isRequired && !r.has s.id).map Switch.label

def read (t : Table) (args : List Text) : Except Stop Reading := do
  let classified ← t.classifyAll args
  let r ← t.takeAll (classified.length + 1) {} classified
  match t.missing r with
  | [] => return r
  | missing => t.misuse (lit "the following arguments are required: " ++ Text.joinWith ", " missing)

end Table
end MetricBridge.Command
