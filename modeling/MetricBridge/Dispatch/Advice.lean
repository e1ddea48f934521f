import MetricBridge.Dispatch.World

namespace MetricBridge.FetchFault

def isNetwork (f : FetchFault) : Bool :=
  [lit "ConnectionError", lit "Timeout", lit "SSLError", lit "HTTPError"].contains f.name

def description (f : FetchFault) : Text :=
  let name := if f.isNetwork then lit "requests.exceptions." ++ f.name else f.name
  if f.message.isEmpty then name else name ++ lit ": " ++ f.message

def suggestions (f : FetchFault) : List Text :=
  if f.name = lit "ConnectionError" then
    ["Check your internet connection", "Verify the Matomo host name resolves (DNS)",
      "Check if you're behind a proxy or firewall"]
  else if f.name = lit "Timeout" then
    ["The server may be overloaded or the report very large",
      "Try a smaller date range or retry later"]
  else if f.name = lit "SSLError" then
    ["The server certificate could not be verified",
      "Check system date/time and the certificate chain of the Matomo host"]
  else ["Retry in a few moments"]

def numberedLines (n : Nat) : List Text → List Text
  | [] => []
  | line :: lines => (lit "  " ++ Text.ofNat n ++ lit ". " ++ line) :: numberedLines (n + 1) lines

def advice (operation : Text) (f : FetchFault) : Text :=
  Text.joinWith "\n" ([lit "Network Error: " ++ f.name ++ lit " during " ++ operation,
    lit "  " ++ f.message, lit "How to fix it:"] ++ numberedLines 1 f.suggestions)

end MetricBridge.FetchFault
