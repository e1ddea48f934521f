import MetricBridge.Dispatch.Basic
import MetricBridge.Store.Disk
import MetricBridge.Store.Memory

namespace MetricBridge

abbrev Environment := Entries Text Text

structure Settings where
  dispatch : DispatchSettings Float
  /-- The seconds after which an outbound request is given up. -/
  timeout : Float
  configTtl : Int
  cacheFolder : Option Text
  cacheCapacity : Int
  logLevel : Text
  logFormat : Text
  logFile : Option Text
  quiet : Bool

structure SettingsOverrides where
  retryLimit : Option Float := none
  runtimeLimit : Option Float := none
  cacheFolder : Option Text := none
  logLevel : Option Text := none
  logFormat : Option Text := none
  logFile : Option Text := none
  quiet : Bool := false

namespace Settings

def initial : Settings where
  dispatch :=
    { retryLimit := 60.0
      initialWait := 1.0
      longestWait := 32.0
      runtimeLimit := 0.0
      userAgent :=
        "Mozilla/5.0 (X11; Ubuntu; Linux x86_64; rv:130.0) Gecko/20100101 Firefox/130.0"
      extraHeaders := []
      sourceName := "trigger" }
  timeout := 60.0
  configTtl := 0
  cacheFolder := none
  cacheCapacity := 1000
  logLevel := "INFO"
  logFormat := "text"
  logFile := none
  quiet := false

def warning (message : Text) : LogEntry := ⟨.warning, .settings, message⟩

/-- A number that is not negative from the environment; the default stands for a variable that is
missing or holds something else. -/
def number {α : Type} (read : Text → Option α) (isNegative : α → Bool) (show_ : α → Text)
    (env : Environment) (name : Text) (default : α) : α × List LogEntry :=
  match Entries.find? name env with
  | none => (default, [])
  | some value => match (read value).filter (! isNegative ·) with
    | some n => (n, [])
    | none => (default, [warning (lit "Ignoring invalid " ++ name ++ lit "=" ++
        value.inSingleQuotes ++ lit "; using default " ++ show_ default)])

def finite? (t : Text) : Option Float :=
  match Text.readFloat t.trim with
  | .ok x => if x.isFinite then some x else none
  | .error _ => none

def seconds (env : Environment) (name : Text) (default : Float) : Float × List LogEntry :=
  number finite? (· < 0.0) Text.ofFloat env name default

def count (env : Environment) (name : Text) (default : Int) : Int × List LogEntry :=
  number (fun t => (Text.readInt t.trim).toOption) (· < 0) Text.ofInt env name default

def headers (env : Environment) (name : Text) :
    Except NumberFault (Entries Text Text) × List LogEntry :=
  match Entries.find? name env with
  | none | some [] => (.ok [], [])
  | some value => match Json.parse value with
    | .ok (.object fields) => (.ok (fields.map fun (name, value) => (name, value.plain)), [])
    | .ok _ => (.ok [], [warning (lit "Ignoring " ++ name ++ lit ": expected a JSON object")])
    | .error (.malformed ..) =>
      (.ok [], [warning (lit "Ignoring " ++ name ++ lit ": value is not valid JSON")])
    | .error .integerTooLong => (.error .tooLong, [])

def text? (env : Environment) (name : Text) : Option Text :=
  (Entries.find? name env).filter (! ·.isEmpty)

def ofEnvironment (env : Environment) : Except NumberFault Settings × List LogEntry :=
  let base := initial.dispatch
  let (retryLimit, log₁) := seconds env "API_REQUEST_RETRY_LIMIT_IN_SECS" base.retryLimit
  let (runtimeLimit, log₂) := seconds env "SCRIPT_RUNTIME_LIMIT" base.runtimeLimit
  match headers env "API_REQUEST_EXTRA_HEADERS" with
  | (.error fault, log₃) => (.error fault, log₁ ++ log₂ ++ log₃)
  | (.ok extraHeaders, log₃) =>
    let (configTtl, log₄) := count env "CONFIG_REQUEST_CACHE_TTL_SECS" initial.configTtl
    let dispatch :=
      { base with
        retryLimit
        runtimeLimit
        extraHeaders
        userAgent := (text? env "API_REQUEST_USER_AGENT").getD base.userAgent
        sourceName := (text? env "API_REQUEST_SOURCE_IDENTIFIER").getD base.sourceName }
    let settings :=
      { initial with
        dispatch
        configTtl
        cacheFolder := text? env "MATOMO_CONNECTOR_CACHE_DIR"
        logLevel := (Entries.find? (lit "LOG_LEVEL") env).getD initial.logLevel }
    (.ok settings, log₁ ++ log₂ ++ log₃ ++ log₄)

/-- What is given takes the place of a setting. Empty texts count as not given. -/
def override (o : SettingsOverrides) (s : Settings) : Settings :=
  let given := fun t : Option Text => t.filter (! ·.isEmpty)
  { s with
    dispatch := { s.dispatch with
      retryLimit := o.retryLimit.getD s.dispatch.retryLimit
      runtimeLimit := o.runtimeLimit.getD s.dispatch.runtimeLimit }
    cacheFolder := (given o.cacheFolder).or s.cacheFolder
    logLevel := (given o.logLevel).getD s.logLevel
    logFormat := (given o.logFormat).getD s.logFormat
    logFile := (given o.logFile).or s.logFile
    quiet := o.quiet }

end Settings

inductive StoreChoice where
  | disk (folder : Path)
  | memory (capacity : Int)
deriving DecidableEq, Repr

def StoreChoice.ofFolder (folder : Option Text) (capacity : Int) : StoreChoice :=
  match folder with
  | none | some [] => .memory capacity
  | some t => .disk (.ofText t)

def DiskStore.homeFolder (home : Text) : Path :=
  ((Path.ofText home).child ".matomo_connector").child "cache"

end MetricBridge
