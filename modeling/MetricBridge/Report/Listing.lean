import MetricBridge.Json.Shape

namespace MetricBridge

structure ReportInfo where
  module : Text
  action : Text
  category : Text
  name : Text
  parameters : Option (Entries Text Text)
deriving DecidableEq, Repr

namespace ReportInfo

/-- The identifier of the report: its module and action, with its parameters as in a query. -/
def id (r : ReportInfo) : Text :=
  let base := r.module ++ lit "." ++ r.action
  match r.parameters with
  | none | some [] => base
  | some parameters =>
    base ++ lit "?" ++
      Text.joinWith "&" (parameters.map fun (name, value) => name ++ lit "=" ++ value)

def ofJson (j : Json) : Except ShapeFault ReportInfo := do
  let parameters := match ← j.optional "parameters" with
    | some (.object fields) => some (fields.map fun (name, value) => (name, value.plain))
    | _ => none
  return ⟨← j.optionalText "module", ← j.optionalText "action", ← j.optionalText "category",
    ← j.optionalText "name", parameters⟩

def toJson (r : ReportInfo) : Json :=
  .object
    [("module", .string r.module), ("action", .string r.action),
      ("category", .string r.category), ("name", .string r.name),
      ("parameters", match r.parameters with
        | none => .null
        | some parameters => .object (parameters.map fun (name, value) => (name, .string value)))]

end ReportInfo

structure ReportListing where
  reports : List ReportInfo
  hasMetricTypes : Bool
deriving DecidableEq, Repr

namespace ReportListing

def toJson (l : ReportListing) : Json :=
  .object
    [("reportMetadata", .array (l.reports.map ReportInfo.toJson)),
      ("hasMetricTypes", .bool l.hasMetricTypes)]

def ofJson (j : Json) : Except ShapeFault ReportListing := do
  let reports ← (← (← j.required "reportMetadata").elements).mapM ReportInfo.ofJson
  return ⟨reports, !(← j.required "hasMetricTypes").isEmptyValue⟩

def metricFields : List Text :=
  ["metrics", "processedMetrics", "metricsGoal", "processedMetricsGoal"]

def hasAny (j : Json) : List Text → Except ShapeFault Bool
  | [] => .ok false
  | name :: names => do
    if (← j.optional name).any (! ·.isEmptyValue) then return true
    hasAny j names

def hasTypes : List Json → Except ShapeFault Bool
  | [] => .ok false
  | report :: reports => do
    match ← report.optional "metricTypes" with
    | some (.object _) => return true
    | _ => hasTypes reports

def isExcluded (report : Json) : Except ShapeFault Bool := do
  let names := [← report.optional "module", ← report.optional "action"]
  let compound := names.any fun
    | some (.array _) | some (.object _) => true
    | _ => false
  if compound then throw .compoundKey
  return names.map (·.bind Json.text?) == [some (lit "MultiSites"), some (lit "getOne")]

/-- Whether the report has metrics and can be shown. A report without metrics is not looked at further. -/
def isUsable (report : Json) : Except ShapeFault Bool := do
  if ← hasAny report metricFields then return !(← isExcluded report)
  return false

def usable : List Json → Except ShapeFault (List ReportInfo)
  | [] => .ok []
  | report :: reports => do
    if ← isUsable report then return (← ReportInfo.ofJson report) :: (← usable reports)
    usable reports

def ofResponse (response : Json) : Except ShapeFault ReportListing := do
  let reports ← response.elementsOrNone
  let types ← hasTypes reports
  return ⟨← usable reports, types⟩

end ReportListing
end MetricBridge
