import MetricBridge.Dispatch.Endpoint
import MetricBridge.Dispatch.Round
import MetricBridge.Json.Printer

namespace MetricBridge

structure DispatchSettings (τ : Type) where
  /-- No round begins when this much time has passed since the first one. -/
  retryLimit : τ
  initialWait : τ
  longestWait : τ
  /-- The time that the program may take; zero for no limit. -/
  runtimeLimit : τ
  userAgent : Text
  extraHeaders : Entries Text Text
  /-- The parameter that tells the server where a call comes from. -/
  sourceName : Text

structure FetchOptions where
  address : Option Text := none
  token : Option Text := none
  cacheKey : Option Text := none
  cacheTtl : Int := 0
  /-- Stop between two rounds when the time of the program is used up. -/
  checkRuntime : Bool := false
  abortMessage : Option Text := none
  /-- An error entry is a failure of the call. -/
  strict : Bool := false

def FetchOptions.storeKey? (options : FetchOptions) : Option Text :=
  match options.cacheKey with
  | none | some [] => none
  | some key => if 0 < options.cacheTtl then some key else none

structure Dispatcher (σ τ : Type) where
  settings : DispatchSettings τ
  fetcher : Fetcher τ
  store : Option (Store σ τ)
  credentials : Option CredentialLookup
  maxRounds : Nat
  /-- What the clock of the program reads, by the clock that times the retries. -/
  programClock : τ → τ := id

namespace Dispatcher

variable {σ τ : Type}

def log (severity : Severity) (message : Text) : Run σ τ Unit := Run.log severity .dispatch message

def given? (t : Option Text) : Option Text := t.filter (! ·.isEmpty)

structure Target where
  address : Text
  headers : Entries Text Text
  token : Text

/-- The target of a call. The credentials are looked for only if the options leave something
open. -/
def target (d : Dispatcher σ τ) (options : FetchOptions) : Run σ τ Target := do
  let address := given? options.address
  let token := given? options.token
  let (address, token) ← match d.credentials with
    | none => pure (address, token)
    | some lookup =>
      if address.isSome && token.isSome then pure (address, token)
      else do
        lookup.log.forM fun entry => Run.record (.log entry)
        match lookup.result with
        | .error fault => throw (.credentials fault)
        | .ok found => pure (address.or (given? found.address), token.or (given? found.token))
  match address with
  | none => throw .noAddress
  | some address => match Endpoint.splitUserInfo (Endpoint.normalize address) with
    | none => throw .unencodable
    | some (authorization, address) =>
      let headers := Entries.merge (Entries.merge (Entries.ofPairs
        [(lit "User-Agent", d.settings.userAgent)]) d.settings.extraHeaders) authorization
      return ⟨address, headers, token.getD "anonymous"⟩

def Target.request (t : Target) (query : Text) : FetchRequest where
  address := t.address
  headers := t.headers
  body := query ++ lit "&token_auth=" ++ t.token.percentEncode fun _ => false
  query := query

def Target.checkToken (t : Target) : Run σ τ Unit :=
  if t.token.utf8?.isSome then pure () else throw .unencodable

def checkQueries (d : Dispatcher σ τ) (requests : List Request) : Run σ τ Unit :=
  match requests.findSome? (Request.queryFault? d.settings.sourceName) with
  | some fault => throw fault.failure
  | none => pure ()

/-- The entries that a store holds for a key; a text that is no list counts as none. -/
def readEntries (d : Dispatcher σ τ) [Seconds τ] (key : Text) : Run σ τ (Option (List Json)) := do
  match ← Run.readStore d.store key with
  | none => return none
  | some text => match Json.parse text with
    | .ok (.array entries) =>
      log .debug (lit "Using cached responses for " ++ key)
      return some entries
    | .error .integerTooLong => throw .integerTooLong
    | _ =>
      log .error (lit "failed to parse cache data for " ++ key)
      return none

def writeEntries (d : Dispatcher σ τ) [Seconds τ] (key : Text) (entries : List Json) (ttl : Int) :
    Run σ τ Unit := do
  match d.store with
  | none => return
  | some store => match ← Run.writeStore store key (Json.array entries).print ttl with
    | none => return
    | some fault =>
      if fault.isTolerable then
        log .error (lit "failed to save cache data for " ++ key ++ lit ": " ++ fault.message)
      else throw (.store fault)

variable [Seconds τ]

def isOver (d : Dispatcher σ τ) (state : RetryState τ) (now : τ) : Bool :=
  Seconds.le (Seconds.add state.start d.settings.retryLimit) now

def exceeds (limit startedAt now : τ) : Bool :=
  Seconds.lt Seconds.zero limit && Seconds.lt limit (Seconds.sub now startedAt)

def checkRuntime (d : Dispatcher σ τ) (options : FetchOptions) (state : RetryState τ) :
    Run σ τ Unit := do
  let w ← get
  if options.checkRuntime && exceeds d.settings.runtimeLimit w.startedAt (d.programClock w.now) then
    throw (.timeExceeded
      ((given? options.abortMessage).getD "This request is taking too long, aborting.")
      (Entries.keys state.pending))

def exchange (d : Dispatcher σ τ) (batch : List FetchRequest) : Run σ τ (List Reply × Nat) := do
  match ← Run.fetch d.fetcher batch with
  | .ok replies => return (replies, 0)
  | .error fault =>
    if Retry.isQuota fault.message then throw .quotaExceeded
    if !Retry.isTransient fault.message then throw (.fetch fault)
    log .warning (lit "Temporary fetch failure, retrying batch: " ++ fault.message)
    return ([], batch.length)

def settle (state : RetryState τ) (entries : List Json) (failed : Nat) :
    List (Text × Reply) → Run σ τ (RetryState τ × List Json × Nat)
  | [] => return (state, entries, failed)
  | (query, reply) :: rest => do
    let verdict ← match reply.judge query with
      | .ok verdict => pure verdict
      | .error failure => throw failure
    verdict.note?.forM fun note => Run.record (.log note)
    let places := (Entries.find? query state.pending).getD []
    let state := { state with lastStatus := Entries.set query reply.status state.lastStatus }
    let entries := match verdict.entry? with
      | some entry => placeEntry places entry entries
      | none => entries
    if verdict.isFinal then settle (state.resolve query) entries failed rest
    else settle state entries (failed + 1) rest

def round (d : Dispatcher σ τ) (options : FetchOptions) (target : Target) (state : RetryState τ)
    (entries : List Json) : Run σ τ (RetryState τ × List Json) := do
  d.checkRuntime options state
  target.checkToken
  let queries := Entries.keys state.pending
  let (replies, lost) ← d.exchange (queries.map target.request)
  let (state, entries, failed) ← settle state entries lost (queries.zip replies)
  let state := { state with rounds := state.rounds + 1 }
  if state.isDone || d.isOver state (← Run.now) then return (state, entries)
  log .info (Text.ofNat failed ++ lit " request(s) failed, retrying after " ++
    Seconds.brief state.wait ++ lit " seconds.")
  Run.sleep state.wait
  return ({ state with wait := Retry.nextWait state.wait d.settings.longestWait }, entries)

/-- Rounds until all queries are answered or the time for retries is over; the first round takes
place in any case. -/
def rounds (d : Dispatcher σ τ) (options : FetchOptions) (target : Target) :
    Nat → RetryState τ → List Json → Run σ τ (RetryState τ × List Json)
  | 0, _, _ => throw .unfinished
  | fuel + 1, state, entries => do
    if state.isDone || (0 < state.rounds && d.isOver state (← Run.now)) then
      return (state, entries)
    let (state, entries) ← d.round options target state entries
    d.rounds options target fuel state entries

def unansweredEntry (d : Dispatcher σ τ) (state : RetryState τ) (query : Text) : Json :=
  let status := match Entries.find? query state.lastStatus with
    | some status => Text.ofInt status
    | none => "none"
  Entry.failed (lit "Matomo request did not complete within " ++
    Seconds.brief d.settings.retryLimit ++ lit " seconds (last status: " ++ status ++ lit ")")

def completeEntries (d : Dispatcher σ τ) (state : RetryState τ) (entries : List Json) : List Json :=
  state.pending.foldl (fun entries (query, places) =>
    match places.head?.bind fun place => entries[place]? with
    | some entry =>
      if Entry.isError entry then entries
      else placeEntry places (d.unansweredEntry state query) entries
    | none => entries) entries

def complete (d : Dispatcher σ τ) (state : RetryState τ) (entries : List Json) :
    Run σ τ (List Json) := do
  if state.isDone then return entries
  log .warning (Text.ofNat state.pending.length ++ lit " request(s) still failing after " ++
    Text.ofNat state.rounds ++ lit " round(s)")
  return d.completeEntries state entries

def strictFailure? (requests : List Request) (entries : List Json) : Option Failure :=
  match (requests.zip entries).filter fun (_, entry) => Entry.isError entry with
  | [] => none
  | [(request, entry)] =>
    some (.requestFailed request.method request.params (Entry.message entry).plain)
  | failures => some (.requestsFailed failures.length)

def dispatch (d : Dispatcher σ τ) (requests : List Request) (options : FetchOptions) :
    Run σ τ (List Json) := do
  let target ← d.target options
  d.checkQueries requests
  let queries := requests.map (Request.query d.settings.sourceName)
  log .debug (lit "making requests to matomo: " ++
    (Json.array (queries.map Json.string)).inspect)
  let state := RetryState.initial queries d.settings.initialWait (← Run.now)
  let entries := List.replicate requests.length Json.null
  let (state, entries) ← d.rounds options target d.maxRounds state entries
  let entries ← d.complete state entries
  if options.strict then
    match strictFailure? requests entries with
    | some failure => throw failure
    | none => pure ()
  match options.storeKey? with
  | some key => d.writeEntries key entries options.cacheTtl
  | none => pure ()
  return entries

def fetchAll (d : Dispatcher σ τ) (requests : List Request) (options : FetchOptions) :
    Run σ τ (List Json) := do
  match options.storeKey? with
  | none => d.dispatch requests options
  | some key => match ← d.readEntries key with
    | some entries => return entries
    | none => d.dispatch requests options

def fetch (d : Dispatcher σ τ) (request : Request) (options : FetchOptions) : Run σ τ Json := do
  match ← d.fetchAll [request] { options with strict := true } with
  | entry :: _ => return entry
  | [] => throw .noEntry

end Dispatcher
end MetricBridge
