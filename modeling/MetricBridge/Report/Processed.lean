import MetricBridge.Dispatch.Request
import MetricBridge.Json.Printer
import MetricBridge.Json.Shape

namespace MetricBridge

/-- Entries whose keys are scalars. Keys that are equal as numbers are one key. -/
abbrev Mapping := List (Scalar × Json)

namespace Mapping

def set (key : Scalar) (value : Json) : Mapping → Mapping
  | [] => [(key, value)]
  | (k, v) :: m => if k.key = key.key then (k, value) :: m else (k, v) :: set key value m

def find? (name : Text) : Mapping → Option Json
  | [] => none
  | (k, v) :: m => if k.key = .text name then some v else find? name m

def add (m : Mapping) (pair : Json) : Except ShapeFault Mapping := do
  match ← pair.elements with
  | [key, value] => match Scalar.ofJson? key with
    | some key => return m.set key value
    | none => throw .compoundKey
  | _ => throw .notPair

/-- The fields of an object, or the entries that a list gives. An empty value has none. -/
def ofJson : Json → Except ShapeFault Mapping
  | .object fields => .ok (fields.map fun (name, value) => (.text name, value))
  | j => do (← j.elementsOrNone).foldlM add []

def keyText : Scalar → Text
  | .text t => t
  | key => key.toJson.print

def toJson (m : Mapping) : Json := .object (m.map fun (key, value) => (keyText key, value))

end Mapping

structure ProcessedReport where
  metadata : Mapping
  rows : List Json
  rowMetadata : List Json

namespace ProcessedReport

def itemsOf (field : Option Json) : Json :=
  let value := field.getD .null
  if value.isEmptyValue then .array []
  else match value with
    | .object fields => .array [.object fields]
    | value => value

def ofJson (j : Json) : Except ShapeFault ProcessedReport := do
  let rows := itemsOf (← j.optional "reportData")
  let rowMetadata := itemsOf (← j.optional "reportMetadata")
  let metadata ← Mapping.ofJson ((← j.optional "metadata").getD .null)
  return ⟨metadata, ← rows.elements, ← rowMetadata.elements⟩

def columns (r : ProcessedReport) : Except ShapeFault Mapping :=
  Mapping.ofJson ((r.metadata.find? "columns").getD .null)

def rowColumns : List Json → Option (List Text)
  | [] => some []
  | .object fields :: rows => do
    let others ← rowColumns rows
    let names := Entries.keys fields
    return names ++ others.filter fun name => !names.contains name
  | _ => none

/-- The columns of the table: the declared ones that occur, then the others. Nothing if a row is no
object or the declared columns are malformed. -/
def tableColumns? (r : ProcessedReport) : Option (List Text) := do
  let present ← rowColumns r.rows
  let columns ← r.columns.toOption
  let declared := columns.filterMap fun (key, _) => match key with
    | .text name => if present.contains name then some name else none
    | _ => none
  return declared ++ present.filter fun name => !declared.contains name

end ProcessedReport
end MetricBridge
