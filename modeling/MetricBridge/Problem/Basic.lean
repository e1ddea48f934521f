import MetricBridge.Json.Plain

namespace MetricBridge

inductive ProblemKind where
  | any
  | formula
  | malformedFormula
  | unsupportedFormula
  | configuration
  | credentials
  | userFacing
  | quotaExceeded
  | unexpected
  | timeExceeded
  | requestFailed
deriving DecidableEq, Repr

structure ProblemField where
  name : Text
  initial : Option Json

namespace ProblemKind

def all : List ProblemKind :=
  [any, formula, malformedFormula, unsupportedFormula, configuration, credentials, userFacing,
    quotaExceeded, unexpected, timeExceeded, requestFailed]

def name : ProblemKind → Text
  | any => "MatomoConnectorError"
  | formula => "FormulaError"
  | malformedFormula => "FormulaParseError"
  | unsupportedFormula => "UnsupportedFormulaError"
  | configuration => "ConfigurationError"
  | credentials => "CredentialSourceError"
  | userFacing => "UserFacingError"
  | quotaExceeded => "QuotaExceededError"
  | unexpected => "UnexpectedError"
  | timeExceeded => "RuntimeLimitExceeded"
  | requestFailed => "APIError"

def ofName? (t : Text) : Option ProblemKind := all.find? fun k => k.name == t

def lineage : ProblemKind → List ProblemKind
  | any => [any]
  | formula => [formula, any]
  | malformedFormula => [malformedFormula, formula, any]
  | unsupportedFormula => [unsupportedFormula, formula, any]
  | configuration => [configuration, any]
  | credentials => [credentials, any]
  | userFacing => [userFacing, any]
  | quotaExceeded => [quotaExceeded, userFacing, any]
  | unexpected => [unexpected, any]
  | timeExceeded => [timeExceeded, unexpected, any]
  | requestFailed => [requestFailed, unexpected, any]

def client : Json := .string "api client"

def fields (k : ProblemKind) : List ProblemField :=
  let must := fun name : String => ProblemField.mk name none
  let may := fun name : String => ProblemField.mk name (some .null)
  must "message" :: match k with
    | any | userFacing | quotaExceeded => [may "details"]
    | formula => [may "formula", may "node_text", may "details"]
    | malformedFormula => [may "formula", may "position"]
    | unsupportedFormula => [may "node_kind", may "node_text", may "formula"]
    | configuration => [may "config_file", may "field", may "details"]
    | credentials => [must "source", may "reason", may "details"]
    | unexpected => [⟨"operation", some client⟩, may "details"]
    | timeExceeded => [may "pending_requests"]
    | requestFailed => [may "method", may "params", ⟨"failed_count", some (.int 1)⟩]

def fixedFields : ProblemKind → List (Text × Json)
  | malformedFormula => [("node_text", .null), ("details", .null)]
  | unsupportedFormula => [("details", .null)]
  | timeExceeded | requestFailed => [("operation", client), ("details", .null)]
  | _ => []

end ProblemKind

structure Problem where
  kind : ProblemKind
  fields : Entries Text Json

namespace Problem

def field (p : Problem) (name : Text) : Json := (Entries.find? name p.fields).getD .null

/-- The problem with some fields given; what has to be given and is not stays null. -/
def make (kind : ProblemKind) (given : Entries Text Json) : Problem :=
  ⟨kind, kind.fields.map (fun f =>
    (f.name, (Entries.find? f.name given).getD (f.initial.getD .null))) ++ kind.fixedFields⟩

def pendingList? : Json → Option Json
  | .array items => some (.array items)
  | .string t => some (.array (t.map fun c => .string [c]))
  | .object fields => some (.array (fields.map fun (name, _) => .string name))
  | j => if j.isEmptyValue then some (.array []) else none

/-- The problem with fields given in order and by name, unless they do not fit the kind. -/
def of? (kind : ProblemKind) (inOrder : List Json) (byName : Entries Text Json) :
    Option Problem := do
  let names := kind.fields.map ProblemField.name
  if names.length < inOrder.length then none
  if !(byName.all fun (name, _) => (names.drop inOrder.length).contains name) then none
  let given := names.zip inOrder ++ byName
  if !(kind.fields.all fun f => f.initial.isSome || Entries.has f.name given) then none
  let pending : Text := "pending_requests"
  match Entries.find? pending given with
  | none => make kind (given ++ [(pending, .array [])])
  | some value => make kind (Entries.set pending (← pendingList? value) given)

/-- The problem in words. There are none if the message should be a text and is not. -/
def text? (p : Problem) : Option Text :=
  let message := p.field "message"
  let details := p.field "details"
  if p.kind = .credentials then do
    let reason := p.field "reason"
    let first := lit "[" ++ (p.field "source").plain ++ lit "] " ++ message.plain
    let second : List Text :=
      if reason.isEmptyValue then [] else [lit "Reason: " ++ reason.plain]
    let third : List Text ← if details.isEmptyValue then some [] else details.text?.map ([·])
    return Text.joinWith " - " (first :: second ++ third)
  else if details.isEmptyValue then message.text?
  else some (message.plain ++ lit ": " ++ details.plain)

def text (p : Problem) : Text := p.text?.getD []

end Problem
end MetricBridge
