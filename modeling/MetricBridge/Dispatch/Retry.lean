import MetricBridge.Seconds
import MetricBridge.Text.Folding
import MetricBridge.Text.Letter

namespace MetricBridge.Retry

/-- Redirections count as success. -/
def isSuccess (status : Int) : Bool := 200 ≤ status && status < 400

def isRetryable (status : Int) : Bool := [420, 502, 503, 504].contains status

def occurOnOneLine (first second : Text) : Text → Bool
  | [] => false
  | c :: t =>
    (Text.begins first (c :: t) &&
      Text.occursIn second (((c :: t).drop first.length).takeWhile (· ≠ .scalar '\n'))) ||
      occurOnOneLine first second t

def occurAroundWord (first second : Text) : Text → Bool
  | [] => false
  | c :: t =>
    (Text.begins first (c :: t) &&
      let rest := (c :: t).drop first.length
      rest.head?.any CodePoint.isWord && Text.begins second (rest.dropWhile CodePoint.isWord)) ||
      occurAroundWord first second t

def permanentParts : List Text :=
  ["does not support multiple", "does not exist", "you can't access this resource",
    "an unexpected website was found",
    "referrers.getall with multiple sites or dates is not supported"]

/-- Whether a server message will come again on every attempt. Case is ignored. -/
def isPermanent (message : Text) : Bool :=
  let t := message.map CodePoint.fold
  permanentParts.any (Text.occursIn · t) ||
    occurOnOneLine "requested report" "not found in the list of available reports" t ||
    occurAroundWord "the plugin " " is not enabled" t

def isQuota (message : Text) : Bool :=
  Text.occursIn "service invoked too many times for one day: urlfetch" message.lowerLatin

def transientParts : List Text :=
  ["address unavailable", "cannot assign requested address", "dns error",
    "temporary failure in name resolution", "property fetchall on object urlfetchapp"]

def isTransient (message : Text) : Bool :=
  transientParts.any (Text.occursIn · message.lowerLatin)

def nextWait {τ : Type} [Seconds τ] (wait longest : τ) : τ :=
  if Seconds.lt longest (Seconds.twice wait) then longest else Seconds.twice wait

end MetricBridge.Retry
