import MetricBridge.Json.Printer
import MetricBridge.Log.Basic
import MetricBridge.Log.Redaction
import MetricBridge.Text.Template

namespace MetricBridge

inductive LogMessage where
  | template (t : Text) (values : List Json)
  /-- Something that has no text. -/
  | unwritable

namespace LogMessage

def malformedMark : Text := " [log-message-format-error]"

def text : LogMessage → Text
  | template t values => (Template.fill t values).getD (t ++ malformedMark)
  | unwritable => lit "<unprintable>" ++ malformedMark

end LogMessage

structure CodePlace where
  path : Text
  function : Option Text
  line : Int
deriving DecidableEq, Repr

/-- The name of the file without its extension. A name does not begin with an extension. -/
def CodePlace.module (p : CodePlace) : Text :=
  let name := (p.path.reverse.takeWhile (· != .scalar '/')).reverse
  let dot : CodePoint := .scalar '.'
  match Text.cutAt dot name.reverse with
  | some (_, stem) => if stem.all (· == dot) then name else stem.reverse
  | none => name

structure LogRecord where
  severity : Severity
  origin : Text
  message : LogMessage
  time : Option Text := none
  place : Option CodePlace := none
  fault : Option Text := none
  extras : Entries Text Json := []
  isRedacted : Bool := false

namespace LogRecord

def ofEntry (e : LogEntry) : LogRecord where
  severity := e.severity
  origin := e.origin.name
  message := .template e.message []

/-- The names of extras that a record has a meaning of its own for. -/
def reserved : List Text :=
  ["name", "msg", "args", "levelname", "levelno", "pathname", "filename", "module", "exc_info",
    "exc_text", "stack_info", "lineno", "funcName", "created", "msecs", "relativeCreated", "thread",
    "threadName", "processName", "process", "taskName", "message", "asctime"]

def extraFields : Text := "extra_fields"

def isInternal (name : Text) : Bool :=
  reserved.contains name || name.head? == some (.scalar '_')

def redactExtra (name : Text) (value : Json) : Json :=
  if isInternal name then value
  else if Redaction.isSecretField name then .string Redaction.hidden
  else Redaction.redactValue value

/-- The record without secrets. Its message has taken up its values. -/
def redact (r : LogRecord) : LogRecord :=
  if r.isRedacted then r
  else { r with
    message := .template (Redaction.redact r.message.text) []
    extras := r.extras.map fun (name, value) => (name, redactExtra name value)
    isRedacted := true }

def line (time : Text) (r : LogRecord) : Text :=
  let fault : Text := match r.fault with
    | some t => lit "\n" ++ t
    | none => []
  time ++ lit " - " ++ r.severity.name ++ lit " - " ++ r.origin ++ lit " - " ++ r.message.text ++ fault

/-- The extras for the JSON form: first the fields of the extra that collects fields, then the
others that do not have their names. -/
def shownExtras (r : LogRecord) : Entries Text Json :=
  let collected := match Entries.find? extraFields r.extras with
    | some (.object fields) => fields
    | _ => []
  r.extras.foldl (fun shown (name, value) =>
    if isInternal name || name == extraFields || Entries.has name shown then shown
    else Entries.set name value shown) collected

/-- The record as a JSON object. An extra takes the place of a field with its name. -/
def toJson (r : LogRecord) : Json :=
  let message := if r.isRedacted then r.message.text else Redaction.redact r.message.text
  let text? := fun (name : Text) (t : Option Text) =>
    (t.map fun t => (name, Json.string t)).toList
  let place := match r.place with
    | none => []
    | some p => [(lit "module", Json.string p.module),
        (lit "function", (p.function.map Json.string).getD .null), (lit "line", .int p.line)]
  .object (Entries.merge (text? "timestamp" r.time ++
    [(lit "level", .string r.severity.name), (lit "logger", .string r.origin),
      (lit "message", .string message)] ++
    place ++ text? "exception" r.fault) (Redaction.redactFields r.shownExtras))

end LogRecord
end MetricBridge
