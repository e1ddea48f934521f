import MetricBridge.Decimal.Reading
import MetricBridge.Entries
import MetricBridge.Json.Plain
import MetricBridge.Seconds
import MetricBridge.Text.Percent

namespace MetricBridge

inductive Scalar where
  | null
  | bool (b : Bool)
  | int (n : Int)
  | float (x : Float)
  | text (t : Text)
deriving Inhabited

inductive QueryFault where
  /-- A text with a surrogate has no encoded form. -/
  | unencodable
  /-- An integer has more digits than are written. -/
  | integerTooLong
deriving DecidableEq, Repr

namespace Scalar

def toJson : Scalar → Json
  | .null => .null
  | .bool b => .bool b
  | .int n => .int n
  | .float x => .float x
  | .text t => .string t

def ofJson? : Json → Option Scalar
  | .null => some .null
  | .bool b => some (.bool b)
  | .int n => some (.int n)
  | .float x => some (.float x)
  | .string t => some (.text t)
  | _ => none

def queryText? : Scalar → Option Text
  | .null => none
  | s => some s.toJson.plain

def queryFault? : Scalar → Option QueryFault
  | .int n => if integerDigitLimit < (Text.ofNat n.natAbs).length then some .integerTooLong else none
  | .text t => if t.utf8?.isSome then none else some .unencodable
  | _ => none

/-- What is compared of a scalar: numbers and truth values by their numeric value. -/
inductive Key where
  | null
  | whole (n : Int)
  | fraction (bits : UInt64)
  | text (t : Text)
deriving DecidableEq, Repr

def wholeOfFloat? (x : Float) : Option Int :=
  if x.isNaN || x.isInf then none
  else
    let value := Binary.ofFloat x
    if value.numerator % value.denominator = 0 then
      let n : Int := (value.numerator / value.denominator : Nat)
      some (if x < 0.0 then -n else n)
    else none

def key : Scalar → Key
  | .null => .null
  | .bool b => .whole (if b then 1 else 0)
  | .int n => .whole n
  | .float x => match wholeOfFloat? x with
    | some n => .whole n
    | none => .fraction x.toBits
  | .text t => .text t

end Scalar

structure Request where
  method : Text
  params : Entries Text Scalar
deriving Inhabited

namespace Request

def keyedParams (r : Request) : List (Text × Scalar.Key) :=
  r.params.map fun (name, value) => (name, value.key)

/-- What the hash of a request depends on. The order of the parameters counts. -/
def hashed (r : Request) : Text × List (Text × Scalar.Key) := (r.method, r.keyedParams)

def same (a b : Request) : Bool :=
  a.method == b.method && a.params.length == b.params.length &&
    a.keyedParams.all fun (name, key) => Entries.find? name b.keyedParams == some key

def sameElement (a b : Request) : Bool := same a b && a.hashed == b.hashed

/-- All parameters of a call. Those of the request take the place of the general ones, and the
`source` parameter tells the server where the call comes from. -/
def allParams (source : Text) (r : Request) : Entries Text Scalar :=
  Entries.set source (.text "1")
    (Entries.merge (Entries.ofPairs
      [("module", .text "API"), ("method", .text r.method), ("format", .text "JSON")]) r.params)

/-- The marks that stay as they are in a query besides the unreserved ones. -/
def isQueryMark (c : Char) : Bool := c == '!' || c == '*' || c == '\'' || c == '(' || c == ')'

def query (source : Text) (r : Request) : Text :=
  Text.joinWith "&" ((r.allParams source).filterMap fun (name, value) =>
    value.queryText?.map fun t => name ++ lit "=" ++ t.percentEncode isQueryMark)

/-- Why the call has no query: the fault of its first parameter that has one. -/
def queryFault? (source : Text) (r : Request) : Option QueryFault :=
  (Entries.values (r.allParams source)).findSome? Scalar.queryFault?

def query? (source : Text) (r : Request) : Except QueryFault Text :=
  match r.queryFault? source with
  | some fault => .error fault
  | none => .ok (r.query source)

end Request
end MetricBridge
