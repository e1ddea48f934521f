import MetricBridge.Dispatch.World
import MetricBridge.Formula.CalculatedField
import MetricBridge.Json.Printer
import MetricBridge.Problem.Basic

namespace MetricBridge

namespace Formula

def inFormula (start : Text) (formula : Text) : Text := start ++ lit " \"" ++ formula ++ lit "\": "

def malformed (formula : Text) (position : Option Nat) (message : Text) : Problem :=
  .make .malformedFormula [(lit "message", .string message), (lit "formula", .string formula),
    (lit "position", (position.map fun n => Json.int n).getD .null)]

def unsupported (formula kind node : Option Text) (message : Text) : Problem :=
  let optional := fun t : Option Text => (t.map Json.string).getD .null
  .make .unsupportedFormula [(lit "message", .string message), (lit "node_kind", optional kind),
    (lit "node_text", optional node), (lit "formula", optional formula)]

def Failure.problem? (formula : Text) : Failure → Option Problem
  | .syntaxError e => some (malformed formula (some e.position) e.message)
  | _ => none

def EmitFault.problem? (formula : Option Text) : EmitFault → Option Problem
  | .refused r => some (unsupported formula r.kind (some r.text) r.message)
  | _ => none

/-- The problem of a formula that is not translated. The message names the formula if the formula is
malformed or nested too deeply. -/
def CalculatedFieldFault.problem? (formula : Text) : CalculatedFieldFault → Option Problem
  | .unparsed (.syntaxError e) =>
    some (malformed formula (some e.position)
      (inFormula "Failed to parse formula" formula ++ e.message))
  | .unparsed .tooDeep =>
    some (malformed formula none (inFormula "Failed to parse formula" formula ++ tooDeep))
  | .unemitted (.unrendered .tooDeep) =>
    some (unsupported (some formula) none none
      (inFormula "Cannot translate formula" formula ++ tooDeep))
  | .unparsed f => f.problem? formula
  | .unemitted f => f.problem? (some formula)
where
  tooDeep : Text := "formula is nested too deeply"

end Formula

def CredentialFault.problem? : CredentialFault → Option Problem
  | .notFound => some (.make .credentials
      [(lit "message", .string "No valid credentials found"), (lit "source", .string "all"),
        (lit "reason", .string "Checked environment variables, config file, and .env file"),
        (lit "details", .string "Set MATOMO_URL, MATOMO_TOKEN or provide a config file")])
  | _ => none

namespace Failure

def quotaMessage : Text :=
  lit "The \"urlfetch\" daily quota for your account has been reached, further requests for " ++
    lit "today may not work. See https://developers.google.com/apps-script/guides/services/" ++
    lit "quotas for more information."

def problem? : Failure → Option Problem
  | noAddress => some (.make .configuration
      [(lit "message", .string "Unexpected: no matomo base URL configured"),
        (lit "field", .string "instance_url")])
  | credentials fault => fault.problem?
  | quotaExceeded => some (.make .quotaExceeded [(lit "message", .string quotaMessage)])
  | timeExceeded reason pending => some (.make .timeExceeded
      [(lit "message", .string (reason ++ lit " (Requests being sent: " ++
          Text.joinWith ", " pending ++ lit ").")),
        (lit "pending_requests", .array (pending.map Json.string))])
  | requestFailed method params message =>
    let params := Json.object (params.map fun (name, value) => (name, value.toJson))
    some (.make .requestFailed
      [(lit "message", .string (lit "API method " ++ method ++ lit " failed (params = " ++
          params.print ++ lit "): \"" ++ message ++ lit "\".")),
        (lit "method", .string method), (lit "params", params)])
  | requestsFailed count => some (.make .requestFailed
      [(lit "message", .string (Text.ofNat count ++ lit " API methods failed.")),
        (lit "failed_count", .int count)])
  | _ => none

end Failure
end MetricBridge
