import MetricBridge.Dispatch.Retry
import MetricBridge.Dispatch.World
import MetricBridge.Json.Reader

namespace MetricBridge

structure RetryState (τ : Type) where
  /-- The queries without a final reply, each with the places of the requests that ask it. -/
  pending : Entries Text (List Nat)
  wait : τ
  start : τ
  rounds : Nat
  lastStatus : Entries Text Int

namespace RetryState

variable {τ : Type}

def isDone (s : RetryState τ) : Bool := s.pending.isEmpty

def resolve (query : Text) (s : RetryState τ) : RetryState τ :=
  { s with pending := Entries.erase query s.pending }

def placesFrom (index : Nat) (pending : Entries Text (List Nat)) :
    List Text → Entries Text (List Nat)
  | [] => pending
  | query :: queries =>
    let places := (Entries.find? query pending).getD []
    placesFrom (index + 1) (Entries.set query (places ++ [index]) pending) queries

def initial (queries : List Text) (wait start : τ) : RetryState τ :=
  ⟨placesFrom 0 [] queries, wait, start, 0, []⟩

end RetryState

inductive Verdict where
  /-- The query stays pending; the reply may hold an entry that stands until a better one comes. -/
  | again (entry : Option Json) (note : LogEntry)
  | final (entry : Json) (note : Option LogEntry)

namespace Reply

def excerpt (r : Reply) : Text := (r.body.getD []).take 100

/-- The text of a success; an empty body counts as an empty object. -/
def content (r : Reply) : Text := match r.body with
  | none | some [] => "\x7b\x7d"
  | some t => t

def note (severity : Severity) (message : Text) : LogEntry := ⟨severity, .dispatch, message⟩

def judgeFailure (r : Reply) : Verdict :=
  let code := Text.ofInt r.status
  let failed := note .info (lit "Matomo API request failed with code " ++ code ++ lit ".")
  if Retry.isRetryable r.status then .again none failed
  else .final (Entry.failed (lit "Matomo server failed with code " ++ code ++
    lit ". Truncated response: " ++ r.excerpt)) (some failed)

/-- Whether an error entry may go away when the query is asked again. Empty messages may. -/
def isTemporary (entry : Json) : Except Failure Bool :=
  let message := Entry.message entry
  match message with
  | .string t => .ok (t.isEmpty || !Retry.isPermanent t)
  | message => if message.isEmptyValue then .ok true else .error .messageNotText

def judgePayload (query : Text) (payload : Json) : Except Failure Verdict :=
  if Entry.isError payload then do
    if ← isTemporary payload then
      return .again (some payload) (note .error (lit "Matomo returned an error for request " ++
        query ++ lit ": " ++ (Entry.message payload).plain))
    else return .final payload none
  else .ok (.final payload none)

def judge (query : Text) (r : Reply) : Except Failure Verdict :=
  if Retry.isSuccess r.status then
    match Json.parse r.content with
    | .ok payload => judgePayload query payload
    | .error (.malformed ..) =>
      .ok (.final (Entry.failed (lit "Matomo server returned invalid JSON (code " ++
        Text.ofInt r.status ++ lit "). Truncated response: " ++ r.excerpt)) none)
    | .error .integerTooLong => .error .integerTooLong
  else .ok r.judgeFailure

end Reply

def placeEntry (places : List Nat) (entry : Json) (entries : List Json) : List Json :=
  places.foldl (fun entries place => entries.set place entry) entries

namespace Verdict

def entry? : Verdict → Option Json
  | again entry _ => entry
  | final entry _ => some entry

def note? : Verdict → Option LogEntry
  | again _ note => some note
  | final _ note => note

def isFinal : Verdict → Bool
  | again .. => false
  | final .. => true

end Verdict
end MetricBridge
