import MetricBridge.Command.Switch
import MetricBridge.Settings

namespace MetricBridge.Command

def version : Text := "1.4.0"

def programName : Text := "matomo-connector"

inductive Task where
  | translate (formula : Text) (asJson : Bool)
  | fetch (method : Text) (params : List (Text × Text)) (options : FetchOptions)
  | sites
  | reports (site : Int) (language : Option Text)

def Task.name : Task → Text
  | translate .. => "translate"
  | fetch .. => "fetch"
  | sites => "sites"
  | reports .. => "reports"

structure Invocation where
  overrides : SettingsOverrides
  configFile : Option Text
  task : Task

def help : Switch := ⟨["-h", "--help"], .help, false⟩

def textSwitch (name : Text) : Switch := ⟨[name], .value .text, false⟩

def mainTable : Table where
  program := programName
  word := some "COMMAND"
  takesRest := true
  switches :=
    [help, ⟨["--version"], .version, false⟩,
      ⟨["--log-level"], .value (.oneOf (Severity.all.map fun s => lit s.name)), false⟩,
      ⟨["--log-format"], .value (.oneOf ["text", "json"]), false⟩,
      textSwitch "--log-file", ⟨["--quiet", "-q"], .mark, false⟩, textSwitch "--config-file",
      ⟨["--retry-limit"], .value .float, false⟩, ⟨["--runtime-limit"], .value .float, false⟩,
      textSwitch "--cache-dir"]

def subTable (command : Text) (word : Option Text) (switches : List Switch) : Table where
  program := programName ++ lit " " ++ command
  word := word
  switches := help :: switches

def translateTable : Table :=
  subTable "translate" (some "formula") [⟨["--json"], .mark, false⟩]

def fetchTable : Table :=
  subTable "fetch" (some "method")
    [⟨["-p", "--param"], .value .assignment, false⟩, textSwitch "--url", textSwitch "--token",
      textSwitch "--cache-key", ⟨["--cache-ttl"], .value .int, false⟩, ⟨["--strict"], .mark, false⟩]

def sitesTable : Table := subTable "sites" none []

def reportsTable : Table :=
  subTable "reports" none [⟨["--idsite"], .value .int, true⟩, textSwitch "--language"]

def overridesOf (r : Table.Reading) : SettingsOverrides where
  retryLimit := r.float? "--retry-limit"
  runtimeLimit := r.float? "--runtime-limit"
  cacheFolder := r.text? "--cache-dir"
  logLevel := r.text? "--log-level"
  logFormat := r.text? "--log-format"
  logFile := r.text? "--log-file"
  quiet := r.has "--quiet"

def wordOf (r : Table.Reading) : Text := r.words.head?.getD []

def translateOf (r : Table.Reading) : Task := .translate (wordOf r) (r.has "--json")

def fetchOf (r : Table.Reading) : Task :=
  .fetch (wordOf r)
    ((r.values "-p").filterMap fun
      | .assignment name value => some (name, value)
      | _ => none)
    { address := r.text? "--url"
      token := r.text? "--token"
      cacheKey := r.text? "--cache-key"
      cacheTtl := (r.int? "--cache-ttl").getD 0
      checkRuntime := true
      strict := r.has "--strict" }

def reportsOf (r : Table.Reading) : Task :=
  .reports ((r.int? "--idsite").getD 0) (r.text? "--language")

def commands : List (Text × Table × (Table.Reading → Task)) :=
  [("translate", translateTable, translateOf), ("fetch", fetchTable, fetchOf),
    ("sites", sitesTable, fun _ => .sites), ("reports", reportsTable, reportsOf)]

/-- Reads the command line of the program. Extras are refused after all else was read. -/
def Invocation.read (args : List Text) : Except Stop Invocation := do
  let outer ← mainTable.read args
  match Entries.find? (wordOf outer) commands with
  | none => match (ValueKind.oneOf (Entries.keys commands)).read (wordOf outer) with
    | .error reason => mainTable.wrong "COMMAND" reason
    | .ok _ => mainTable.misuse []
  | some (table, task) =>
    let inner ← table.read (outer.words.drop 1)
    match outer.extras ++ inner.extras with
    | [] => return ⟨overridesOf outer, outer.text? "--config-file", task inner⟩
    | extras => mainTable.misuse (lit "unrecognized arguments: " ++ Text.joinWith " " extras)

end MetricBridge.Command
