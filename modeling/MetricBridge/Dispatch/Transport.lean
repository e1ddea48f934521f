import MetricBridge.Dispatch.World
import MetricBridge.Text.Utf8

namespace MetricBridge

structure OutboundRequest where
  address : Text
  headers : Entries Text Text := []
  method : Text := "post"
  body : Text := []
  /-- Whether a reply with an error status is a reply like others. -/
  toleratesErrors : Bool := true
deriving DecidableEq, Repr

structure OutboundCall where
  method : Text
  address : Text
  headers : Entries Text Text
  body : Text
  timeout : Float

inductive CallResult where
  | answered (status : Int) (body : Bytes)
  | failed (fault : FetchFault)

inductive TransportFault where
  | fetch (fault : FetchFault)
  | status (status : Int)
deriving DecidableEq, Repr

namespace OutboundRequest

def call (timeout : Float) (r : OutboundRequest) : OutboundCall where
  method := r.method.map fun
    | .scalar c => .scalar c.toUpper
    | c => c
  address := r.address
  headers := Entries.merge [(lit "Content-Type", lit "application/x-www-form-urlencoded")] r.headers
  body := r.body
  timeout := timeout

def isErrorStatus (status : Int) : Bool := 400 ≤ status && status < 600

/-- The reply to a request. Malformed bytes in it are replaced. -/
def reply (r : OutboundRequest) : CallResult → Except TransportFault Reply
  | .failed fault => .error (.fetch fault)
  | .answered status body =>
    if !r.toleratesErrors && isErrorStatus status then .error (.status status)
    else .ok ⟨status, some (Text.ofUtf8Lossy body)⟩

def replies (batch : List (OutboundRequest × CallResult)) : Except TransportFault (List Reply) :=
  batch.mapM fun (r, result) => r.reply result

end OutboundRequest
end MetricBridge
