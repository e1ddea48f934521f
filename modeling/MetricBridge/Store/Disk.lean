import MetricBridge.Json.Printer
import MetricBridge.Json.Reader
import MetricBridge.Store.Basic

namespace MetricBridge.DiskStore

variable {τ : Type} [Seconds τ]

def file (folder : Path) : Path := folder.child "api_responses.json"

def unreadable (folder : Path) (reason : Text) : LogEntry :=
  ⟨.warning, .cache,
    lit "Failed to load API cache from " ++ (file folder).text ++ lit ": " ++ reason⟩

/-- The entries in the file; none if it is missing, malformed, or no object. -/
def load (folder : Path) (files : Files) :
    Except StoreFault (Entries Text Json) × List LogEntry :=
  match files.node? (file folder) with
  | none => (.ok [], [])
  | some .folder => (.ok [], [unreadable folder (FileFault.isAFolder.message (file folder))])
  | some (.file content) => match Text.ofFile? content with
    | none => (.error .notText, [])
    | some text => match Json.parse text with
      | .ok (.object fields) => (.ok fields, [])
      | .ok _ => (.ok [], [])
      | .error (.malformed defect remaining) =>
        (.ok [], [unreadable folder (Json.defectMessage text defect remaining)])
      | .error .integerTooLong => (.error .integerTooLong, [])

def liveValue? (now : τ) (entry : Json) : Option Text := do
  let expired ← Seconds.reached? now (← entry.field? "expires_at")
  if expired then none else (← entry.field? "value").text?

def isKept (now : τ) (entry : Json) : Bool :=
  ((entry.field? "expires_at").bind (Seconds.ahead? now)).getD false

def get (folder : Path) (now : τ) (key : Text) (files : Files) :
    StoreAnswer Files (Option Text) :=
  match load folder files with
  | (.error fault, log) => ⟨.error fault, files, log⟩
  | (.ok entries, log) => ⟨.ok ((Entries.find? key entries).bind (liveValue? now)), files, log⟩

def save (folder : Path) (entries : Entries Text Json) (files : Files) :
    Except StoreFault Files :=
  match files.makeFolders folder with
  | .error fault => .error (.file fault folder)
  | .ok files => match files.write (file folder) (Json.object entries).print.utf8 with
    | .error fault => .error (.file fault (file folder))
    | .ok files => .ok files

def put (folder : Path) (now : τ) (key value : Text) (ttl : Int) (files : Files) :
    StoreAnswer Files Unit :=
  if ttl ≤ 0 then ⟨.ok (), files, []⟩
  else match load folder files with
    | (.error fault, log) => ⟨.error fault, files, log⟩
    | (.ok entries, log) => match Seconds.ofInt? ttl with
      | none => ⟨.error .timeOutOfRange, files, log⟩
      | some (seconds : τ) =>
        let kept := entries.filter fun (_, entry) => isKept now entry
        let entry := Json.object
          [("value", .string value), ("expires_at", Seconds.toJson (Seconds.add now seconds))]
        match save folder (Entries.set key entry kept) files with
        | .error fault => ⟨.error fault, files, log⟩
        | .ok files => ⟨.ok (), files, log⟩

def clear (folder : Path) (files : Files) : Except StoreFault Files :=
  match files.node? (file folder) with
  | some .folder => .error (.file .isAFolder (file folder))
  | some (.file _) => .ok (Entries.erase (file folder).resolve files)
  | none =>
    if files.isBlocked (file folder) then .error (.file .notAFolder (file folder)) else .ok files

def store (folder : Path) : Store Files τ := ⟨get folder, put folder⟩

end MetricBridge.DiskStore
