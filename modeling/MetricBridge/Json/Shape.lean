import MetricBridge.Decimal.Reading
import MetricBridge.Json.Plain

namespace MetricBridge

inductive ShapeFault where
  | missing (name : Text)
  /-- The value of this kind is no object, where a field is required. -/
  | notObject (kind : Text)
  /-- The value is no object, where a field is optional. -/
  | noFields
  | noElements (kind : Text)
  | notWhole
  | infinite
  | notNumber
  /-- An element of a list of entries does not consist of a key and a value. -/
  | notPair
  | compoundKey
deriving DecidableEq, Repr

def ShapeFault.message : ShapeFault → Text
  | missing name => name.inSingleQuotes
  | notObject kind =>
    if kind = lit "list" then "list indices must be integers or slices, not str"
    else if kind = lit "str" then "string indices must be integers, not 'str'"
    else lit "'" ++ kind ++ lit "' object is not subscriptable"
  | noElements kind => lit "'" ++ kind ++ lit "' object is not iterable"
  | _ => []

namespace Json

def kind : Json → Text
  | .null => "NoneType"
  | .bool _ => "bool"
  | .int _ => "int"
  | .float _ => "float"
  | .string _ => "str"
  | .array _ => "list"
  | .object _ => "dict"

def required (name : Text) : Json → Except ShapeFault Json
  | .object fields => match Entries.find? name fields with
    | some value => .ok value
    | none => .error (.missing name)
  | j => .error (.notObject j.kind)

def optional (name : Text) : Json → Except ShapeFault (Option Json)
  | .object fields => .ok (Entries.find? name fields)
  | _ => .error .noFields

def optionalText (name : Text) (j : Json) : Except ShapeFault Text := do
  return match ← j.optional name with
    | some value => value.plain
    | none => []

def elements : Json → Except ShapeFault (List Json)
  | .array items => .ok items
  | .object fields => .ok (fields.map fun (name, _) => .string name)
  | .string t => .ok (t.map fun c => .string [c])
  | j => .error (.noElements j.kind)

def elementsOrNone (j : Json) : Except ShapeFault (List Json) :=
  if j.isEmptyValue then .ok [] else j.elements

def truncate (x : Float) : Int :=
  let value := Binary.ofFloat x
  let n : Int := (value.numerator / value.denominator : Nat)
  if x < 0.0 then -n else n

def whole : Json → Except ShapeFault Int
  | .string t => match Text.readInt t with
    | .ok n => .ok n
    | .error _ => .error .notWhole
  | .int n => .ok n
  | .bool b => .ok (if b then 1 else 0)
  | .float x =>
    if x.isNaN then .error .notWhole
    else if x.isInf then .error .infinite
    else .ok (truncate x)
  | _ => .error .notNumber

end Json
end MetricBridge
