import MetricBridge.Json.Basic

namespace MetricBridge.Entry

def failed (message : Text) : Json :=
  .object [("result", .string "error"), ("message", .string message)]

/-- An entry is an error if the server or the dispatcher says so. -/
def isError (entry : Json) : Bool :=
  match entry.field? "result" with
  | some (.string t) => t == lit "error"
  | _ => false

def message (entry : Json) : Json := (entry.field? "message").getD .null

end MetricBridge.Entry
