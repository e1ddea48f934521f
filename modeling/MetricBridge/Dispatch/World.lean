import MetricBridge.Credential.Basic
import MetricBridge.Dispatch.Entry
import MetricBridge.Dispatch.Request
import MetricBridge.Json.Shape
import MetricBridge.Store.Basic

namespace MetricBridge

/-- One outbound request: the body is the query followed by the token. -/
structure FetchRequest where
  address : Text
  headers : Entries Text Text
  body : Text
  query : Text
deriving DecidableEq, Repr

structure Reply where
  status : Int
  body : Option Text
deriving DecidableEq, Repr

structure FetchFault where
  name : Text
  message : Text
deriving DecidableEq, Repr

/-- What becomes of a batch: the time it takes, and replies in the order of the batch or a
failure. There may be fewer or more replies than requests. -/
structure Fetched (τ : Type) where
  duration : τ
  outcome : Except FetchFault (List Reply)

/-- Answers the batches of a program by their number, from zero. -/
abbrev Fetcher (τ : Type) := Nat → List FetchRequest → Fetched τ

inductive Failure where
  | noAddress
  /-- The credentials in the address, the token or a parameter cannot be encoded. -/
  | unencodable
  | credentials (fault : CredentialFault)
  | quotaExceeded
  | fetch (fault : FetchFault)
  /-- The time of the program is used up; the queries are not answered yet. -/
  | timeExceeded (reason : Text) (pending : List Text)
  | requestFailed (method : Text) (params : Entries Text Scalar) (message : Text)
  | requestsFailed (count : Nat)
  | store (fault : StoreFault)
  | shape (fault : ShapeFault)
  /-- An integer in a JSON text or in a parameter has too many digits. -/
  | integerTooLong
  /-- The message of an error entry is no text. -/
  | messageNotText
  | noEntry
  | unfinished

def QueryFault.failure : QueryFault → Failure
  | unencodable => .unencodable
  | integerTooLong => .integerTooLong

inductive Event (τ : Type) where
  | fetch (batch : List FetchRequest)
  | sleep (seconds : τ)
  | put (key value : Text) (ttl : Int)
  | log (entry : LogEntry)

structure World (σ τ : Type) where
  now : τ
  /-- When the program started, by its own clock. -/
  startedAt : τ
  fetches : Nat
  store : σ
  /-- What was done, the latest first. -/
  events : List (Event τ)

abbrev Run (σ τ α : Type) := ExceptT Failure (StateM (World σ τ)) α

namespace Run

variable {σ τ : Type}

def record (event : Event τ) : Run σ τ Unit :=
  modify fun w => { w with events := event :: w.events }

def log (severity : Severity) (origin : Origin) (message : Text) : Run σ τ Unit :=
  record (.log ⟨severity, origin, message⟩)

def now : Run σ τ τ := do return (← get).now

def takeAnswer {α : Type} (answer : StoreAnswer σ α) : Run σ τ (Except StoreFault α) := do
  modify fun w => { w with store := answer.state }
  answer.log.forM fun entry => record (.log entry)
  return answer.result

variable [Seconds τ]

def sleep (seconds : τ) : Run σ τ Unit := do
  record (.sleep seconds)
  modify fun w => { w with now := Seconds.add w.now seconds }

def fetch (fetcher : Fetcher τ) (batch : List FetchRequest) :
    Run σ τ (Except FetchFault (List Reply)) := do
  let fetched := fetcher (← get).fetches batch
  record (.fetch batch)
  modify fun w => { w with
    now := Seconds.add w.now fetched.duration
    fetches := w.fetches + 1 }
  return fetched.outcome

def readStore (store : Option (Store σ τ)) (key : Text) : Run σ τ (Option Text) := do
  match store with
  | none => return none
  | some store =>
    let w ← get
    match ← takeAnswer (store.get w.now key w.store) with
    | .ok value => return value
    | .error fault => throw (.store fault)

def writeStore (store : Store σ τ) (key value : Text) (ttl : Int) :
    Run σ τ (Option StoreFault) := do
  record (.put key value ttl)
  let w ← get
  match ← takeAnswer (store.put w.now key value ttl w.store) with
  | .ok () => return none
  | .error fault => return some fault

end Run
end MetricBridge
