import MetricBridge.Credential.Basic
import MetricBridge.Credential.Dotenv
import MetricBridge.Files
import MetricBridge.Json.Plain
import MetricBridge.Json.Reader

namespace MetricBridge

abbrev CredentialFields := Entries Text Text

namespace CredentialFields

def variableNames : List (Text × Text) :=
  [("instance_url", "MATOMO_URL"), ("token_auth", "MATOMO_TOKEN")]

def names : List Text := variableNames.map Prod.fst

/-- A value without the blanks around it and without one pair of quotes. -/
def normalize : Json → Text
  | .null => []
  | value =>
    let t := value.plain.trim
    let isQuote := fun c : CodePoint => c == .scalar '"' || c == .scalar '\''
    if 2 ≤ t.length ∧ t.head? = t.getLast? ∧ t.head?.any isQuote then (t.drop 1).dropLast else t

def ofFields (fields : Entries Text Json) : CredentialFields :=
  (fields.filterMap fun (name, value) =>
    if names.contains name then some (name, normalize value) else none).filter
      fun (_, value) => !value.isEmpty

def missing (c : CredentialFields) : List Text := names.filter fun name => !Entries.has name c

def toCredentials (c : CredentialFields) : Credentials :=
  ⟨Entries.find? (lit "instance_url") c, Entries.find? (lit "token_auth") c⟩

end CredentialFields

inductive CredentialSource where
  | environment
  | config (file : Path)
  | dotenv (file : Path)
deriving DecidableEq, Repr

namespace CredentialSource

def name : CredentialSource → Text
  | environment => "environment"
  | config file => lit "config:" ++ file.name
  | dotenv file => lit "dotenv:" ++ file.name

def file? : CredentialSource → Option Path
  | environment => none
  | config file | dotenv file => some file

def debug (message : Text) : LogEntry := ⟨.debug, .credentials, message⟩

def unreadable (s : CredentialSource) (reason : Text) : LogEntry :=
  debug (lit "Failed to load credentials from " ++ s.name ++ lit ": " ++ reason)

def environmentFields (env : Entries Text Text) : Entries Text Json :=
  CredentialFields.variableNames.filterMap fun (field, name) =>
    match (Entries.find? name env).map Text.trim with
    | none | some [] => none
    | some value => some (field, .string value)

/-- The fields of a JSON file; none if it is missing, malformed, or no object. -/
def configFields (file : Path) (files : Files) :
    Except CredentialFault (Entries Text Json) × List LogEntry :=
  match files.node? file with
  | none => (.ok [], [])
  | some .folder => (.ok [], [unreadable (.config file) (FileFault.isAFolder.message file)])
  | some (.file content) => match Text.ofFile? content with
    | none => (.error .notText, [])
    | some text => match Json.parse text with
      | .ok (.object fields) => (.ok fields, [])
      | .ok _ => (.ok [], [])
      | .error (.malformed defect remaining) =>
        (.ok [], [unreadable (.config file) (Json.defectMessage text defect remaining)])
      | .error .integerTooLong => (.error .integerTooLong, [])

def dotenvFields (reader : DotenvReader) (file : Path) (env : Entries Text Text) (files : Files) :
    Except CredentialFault (Entries Text Json) × List LogEntry :=
  match files.node? file with
  | none => (.ok [], [])
  | some node => match reader.values env node with
    | (.error (.inaccessible reason), log) => (.ok [], log ++ [unreadable (.dotenv file) reason])
    | (.error .notText, log) => (.error .notText, log)
    | (.ok values, log) =>
      (.ok (CredentialFields.variableNames.filterMap fun (field, name) =>
        match Entries.find? name values with
        | none | some none | some (some []) => none
        | some (some value) => some (field, .string value)), log)

def load (reader : DotenvReader) (env : Entries Text Text) (files : Files) (s : CredentialSource) :
    Except CredentialFault CredentialFields × List LogEntry :=
  let (fields, log) : Except CredentialFault (Entries Text Json) × List LogEntry := match s with
    | .environment => (.ok (environmentFields env), [])
    | .config file => configFields file files
    | .dotenv file => dotenvFields reader file env files
  (fields.map CredentialFields.ofFields, log)

def choose (reader : DotenvReader) (env : Entries Text Text) (files : Files) : List CredentialSource →
    Except CredentialFault (CredentialFields × CredentialSource) × List LogEntry
  | [] => (.error .notFound, [])
  | s :: sources => match s.load reader env files with
    | (.error fault, log) => (.error fault, log)
    | (.ok [], log) =>
      let (result, more) := choose reader env files sources
      (result, log ++ more)
    | (.ok fields, log) =>
      if fields.missing.isEmpty then
        (.ok (fields, s), log ++ [debug (lit "Using credentials from " ++ s.name)])
      else
        let (result, more) := choose reader env files sources
        (result, log ++ [debug (lit "Skipping " ++ s.name ++ lit ": missing " ++
          Text.joinWith ", " fields.missing)] ++ more)

def order (configFile : Option Text) (dotenvFile : Text) : List CredentialSource :=
  let config : Text := match configFile with
    | none | some [] => "matomo.json"
    | some file => file
  [.environment, .config (.ofText config), .dotenv (.ofText dotenvFile)]

def resolve (reader : DotenvReader) (env : Entries Text Text) (files : Files)
    (configFile : Option Text) (dotenvFile : Text) :
    Except CredentialFault (CredentialFields × CredentialSource) × List LogEntry :=
  choose reader env files (order configFile dotenvFile)

end CredentialSource

def CredentialLookup.find (reader : DotenvReader) (env : Entries Text Text) (files : Files)
    (configFile : Option Text) : CredentialLookup :=
  let (result, log) := CredentialSource.resolve reader env files configFile ".env"
  ⟨result.map fun (fields, _) => fields.toCredentials, log⟩

structure KeptCredentials where
  configFile : Option Text
  found : Option (CredentialFields × CredentialSource) := none

namespace KeptCredentials

def use (reader : DotenvReader) (env : Entries Text Text) (files : Files) (k : KeptCredentials) :
    Except CredentialFault (CredentialFields × CredentialSource) × KeptCredentials :=
  match k.found with
  | some found => (.ok found, k)
  | none => match (CredentialSource.resolve reader env files k.configFile ".env").1 with
    | .ok found => (.ok found, { k with found := some found })
    | .error fault => (.error fault, k)

end KeptCredentials
end MetricBridge
