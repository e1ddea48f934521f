import MetricBridge.Command.Arguments
import MetricBridge.Credential.Source
import MetricBridge.Credential.Startup
import MetricBridge.Dispatch.Advice
import MetricBridge.Log.Sink
import MetricBridge.Problem.Faults
import MetricBridge.Report.Client

namespace MetricBridge.Command

structure Host where
  /-- How deep the formulas are that its stack allows. -/
  depths : Formula.Depths
  env : Environment
  reader : DotenvReader
  /-- The file of variables that a search from the folder of the program finds. -/
  startupFile : Option Path := none
  folder : Path
  files : Files
  fetcher : Fetcher Float
  fetches : Nat
  now : Float
  /-- The time by which stored responses expire. -/
  storeTime : Float
  stamp : Text

inductive Fault where
  | startup (fault : StartupFault)
  | settings (fault : NumberFault)
  | formula (fault : Formula.CalculatedFieldFault)
  | call (failure : MetricBridge.Failure)

inductive Ending where
  | exit (status : Nat)
  | fault (f : Fault)

structure Outcome where
  ending : Ending
  output : List Text := []
  errors : List Text := []
  /-- What was done, in order. -/
  trace : List (Event Float) := []
  files : Files
  fetches : Nat

structure Report where
  output : List Text
  errors : List Text := []

namespace Report

def ofCalculatedField (asJson : Bool) (t : Formula.CalculatedField) : Report :=
  if asJson then
    ⟨[(Json.object [("translated_formula", (t.formula.map Json.string).getD .null),
      ("temporary_metrics", .array (t.metrics.map Json.string))]).print], []⟩
  else
    let metrics := if t.metrics.isEmpty then lit "(none)" else Text.joinWith ", " t.metrics
    ⟨[lit "Translated formula: " ++ t.formula.getD [], lit "Temporary metrics:  " ++ metrics], []⟩

def row (id currency name : Text) : Text :=
  Text.padLeft ' ' 6 id ++ lit "  " ++ Text.padRight ' ' 8 currency ++ lit "  " ++ name

def ofSites (sites : List Site) : Report :=
  let rule : Text := List.replicate 60 (.scalar '=')
  ⟨[rule, row "ID" "Currency" "Name", rule] ++
    sites.map (fun s => row (Text.ofInt s.id) s.currency s.name) ++
    [[], Text.ofNat sites.length ++ lit " site(s)"], []⟩

def noMetricTypes : Text :=
  lit "Warning: this Matomo does not report metric types; some metrics may display incorrectly. " ++
    lit "Please consider updating Matomo to version 4.14 or later."

def ofListing (l : ReportListing) : Report :=
  ⟨l.reports.map (fun r => r.category ++ lit " > " ++ r.name ++ lit "  [" ++ r.id ++ lit "]") ++
      [[], Text.ofNat l.reports.length ++ lit " report(s)"],
    if l.hasMetricTypes then [] else [noMetricTypes]⟩

end Report

def perform {σ : Type} (client : ReportClient σ Float) : Task → Run σ Float Report
  | .translate .. => return ⟨[], []⟩
  | .fetch method params options => do
    let request : Request :=
      ⟨method, Entries.ofPairs (params.map fun (name, value) => (name, Scalar.text value))⟩
    let entry ← if options.strict then client.dispatcher.fetch request options
      else do match ← client.dispatcher.fetchAll [request] options with
        | entry :: _ => pure entry
        | [] => throw .noEntry
    return ⟨[entry.printIndented 0], []⟩
  | .sites => return .ofSites (← client.sites)
  | .reports site language => return .ofListing (← client.listing (Text.ofInt site) language)

def maxRounds : Nat := 1000000

structure Done where
  result : Except MetricBridge.Failure Report
  trace : List (Event Float)
  files : Files
  fetches : Nat

def performWith {σ : Type} (host : Host) (settings : Settings) (i : Invocation)
    (store : Store σ Float) (state : σ) (filesOf : σ → Files) (files : Files) : Done :=
  let dispatcher : Dispatcher σ Float :=
    { settings := settings.dispatch
      fetcher := host.fetcher
      store := some (store.withClock fun _ => host.storeTime)
      credentials := some (.find host.reader host.env files i.configFile)
      maxRounds := maxRounds }
  let (result, w) :=
    (perform ⟨dispatcher, settings.configTtl⟩ i.task).run.run
      ⟨host.now, host.now, host.fetches, state, []⟩
  ⟨result, w.events.reverse, filesOf w.store, w.fetches⟩

def performTask (host : Host) (settings : Settings) (i : Invocation) (files : Files) : Done :=
  match StoreChoice.ofFolder settings.cacheFolder settings.cacheCapacity with
  | .disk folder => performWith host settings i (DiskStore.store folder) files id files
  | .memory capacity =>
    performWith host settings i MemoryStore.store (MemoryStore.empty capacity)
      (fun _ => files) files

structure Conclusion where
  ending : Ending
  report : Report
  problem? : Option Problem := none

namespace Conclusion

def done (r : Report) : Conclusion := ⟨.exit 0, r, none⟩

def failed (message : Text) : Report := ⟨[], [lit "ERROR: " ++ message]⟩

def ofProblem (p : Problem) : Conclusion := ⟨.exit 1, failed p.text, some p⟩

def ofFault (f : Fault) : Conclusion := ⟨.fault f, ⟨[], []⟩, none⟩

def ofCalculatedField (depths : Formula.Depths) (formula : Text) (asJson : Bool) : Conclusion :=
  match Formula.translate depths formula with
  | .ok t => done (.ofCalculatedField asJson t)
  | .error fault => match fault.problem? formula with
    | some p => ofProblem p
    | none => ofFault (.formula fault)

def ofFailure (task : Task) (f : MetricBridge.Failure) : Conclusion :=
  match f.problem?, f with
  | some p, _ => ofProblem p
  | none, .fetch fault =>
    if fault.isNetwork then ⟨.exit 1, failed (lit "\n" ++ fault.advice task.name), none⟩
    else ofFault (.call f)
  | none, f => ofFault (.call f)

def entries (c : Conclusion) : List LogEntry :=
  c.problem?.toList.map fun p => ⟨.debug, .application, p.kind.name ++ lit ": " ++ p.text⟩

end Conclusion

namespace Host

def runWith (host : Host) (settings : Settings) (i : Invocation) (opening : LogOpening) : Outcome :=
  let (conclusion, trace, files, fetches) := match i.task with
    | .translate formula asJson =>
      (Conclusion.ofCalculatedField host.depths formula asJson, [], opening.files, host.fetches)
    | task =>
      let done := performTask host settings i opening.files
      let conclusion := match done.result with
        | .ok report => Conclusion.done report
        | .error failure => Conclusion.ofFailure task failure
      (conclusion, done.trace, done.files, done.fetches)
  let logged := trace.filterMap fun
    | .log entry => some entry
    | _ => none
  let lines := (opening.first :: logged ++ conclusion.entries).flatMap fun entry =>
    opening.sink.lines host.stamp (.ofEntry entry)
  { ending := conclusion.ending
    output := lines ++ conclusion.report.output
    errors := opening.warnings ++ conclusion.report.errors
    trace
    files := opening.sink.append lines files
    fetches }

def ended (host : Host) (ending : Ending) (output errors : List Text) : Outcome :=
  { ending, output, errors, files := host.files, fetches := host.fetches }

def helpLines (program : Text) : List Text :=
  [lit "usage: " ++ program ++ lit " [-h] ...", lit "commands: " ++
    Text.joinWith ", " (Entries.keys commands)]

/-- The variables of the start-up file added to the environment, and the messages that this leaves
before the log is open. -/
def start (host : Host) : Host × Except StartupFault Bool × List Text :=
  let node := host.startupFile.bind fun file => host.files.node? file
  let started := Startup.run host.reader .application node host.env
  ({ host with env := started.env }, started.loaded,
    (started.log.filter fun entry => Severity.warning.rank ≤ entry.severity.rank).map LogEntry.message)

/-- The run of a command line. Warnings about the environment come before the log is open. -/
def run (host : Host) (args : List Text) : Outcome :=
  match Invocation.read args with
  | .error (.help program) => host.ended (.exit 0) (helpLines program) []
  | .error .version => host.ended (.exit 0) [programName ++ lit " " ++ version] []
  | .error (.misuse program message) =>
    host.ended (.exit 2) [] [program ++ lit ": error: " ++ message]
  | .ok i => match host.start with
    | (host, .error fault, remarks) => host.ended (.fault (.startup fault)) [] remarks
    | (host, .ok _, remarks) =>
      let (settings, warnings) := Settings.ofEnvironment host.env
      let warnings := remarks ++ warnings.map LogEntry.message
      match settings with
      | .error fault => host.ended (.fault (.settings fault)) [] warnings
      | .ok settings =>
        let settings := settings.override i.overrides
        let opening := LogOpening.ofSettings host.folder settings.logLevel settings.logFormat
          (settings.logFile.map Path.ofText) host.files
        let outcome := host.runWith settings i opening
        { outcome with errors := warnings ++ outcome.errors }

def runAll (host : Host) : List (List Text) → List Outcome × Host
  | [] => ([], host)
  | args :: more =>
    let outcome := host.run args
    let (outcomes, host) :=
      runAll { host with files := outcome.files, fetches := outcome.fetches } more
    (outcome :: outcomes, host)

end Host
end MetricBridge.Command
