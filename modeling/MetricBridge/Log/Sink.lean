import MetricBridge.Files
import MetricBridge.Log.Record

namespace MetricBridge

inductive LogFormat where
  | text
  | json
deriving DecidableEq, Repr

/-- Any other word than `json` stands for text. -/
def LogFormat.ofText (t : Text) : LogFormat := if t.lowerLatin = lit "json" then json else text

structure LogLevel where
  threshold : Severity
  name : Text
deriving DecidableEq, Repr

/-- The level with the name in any case; a warning if there is none. -/
def LogLevel.ofText (t : Text) : LogLevel × List Text :=
  match Severity.ofName? t.upperLatin with
  | some s => (⟨s, t.upperLatin⟩, [])
  | none => (⟨.info, "INFO"⟩,
      [lit "Warning: Invalid log level '" ++ t ++ lit "', using INFO"])

structure LogSink where
  threshold : Severity
  format : LogFormat
  file : Option Path
deriving DecidableEq, Repr

namespace LogSink

def line (time : Text) (s : LogSink) (r : LogRecord) : Text :=
  match s.format with
  | .text => r.redact.line time
  | .json => r.redact.toJson.print

def lines (time : Text) (s : LogSink) (r : LogRecord) : List Text :=
  if s.threshold.rank ≤ r.severity.rank then [s.line time r] else []

def endLine (t : Text) : Text := t ++ [.scalar '\n']

def append (s : LogSink) (lines : List Text) (files : Files) : Files :=
  match s.file with
  | none => files
  | some file => match files.node? file with
    | some (.file content) =>
      let more := Text.utf8 (lines.flatMap endLine)
      (files.write file (content ++ more)).toOption.getD files
    | _ => files

end LogSink

structure LogOpening where
  sink : LogSink
  files : Files
  warnings : List Text
  first : LogEntry

namespace LogOpening

def absolute (folder : Path) (p : Path) : Path := (folder.join p).resolve

def openFile (folder file : Path) (files : Files) : Except Text Files :=
  match files.makeFolders file.parent with
  | .error fault => .error (fault.message file.parent)
  | .ok files => match files.node? file with
    | some (.file _) => .ok files
    | _ => match files.write file [] with
      | .ok files => .ok files
      | .error fault => .error (fault.message (absolute folder file))

/-- Opens the log. Without its file it goes to the console only. -/
def ofSettings (folder : Path) (level format : Text) (file : Option Path) (files : Files) :
    LogOpening :=
  let (level, warnings) := LogLevel.ofText level
  let first : LogEntry := ⟨.debug, .application,
    lit "Logging initialized at " ++ level.name ++ lit " (" ++ format ++ lit ")"⟩
  let sink : LogSink := ⟨level.threshold, .ofText format, none⟩
  match file with
  | none => ⟨sink, files, warnings, first⟩
  | some file => match openFile folder file files with
    | .ok files => ⟨{ sink with file := some file }, files, warnings, first⟩
    | .error reason =>
      ⟨sink, files, warnings ++ [lit "Warning: Cannot open log file " ++ file.text ++ lit ": " ++
        reason ++ lit ". Logging to console only."], first⟩

end LogOpening
end MetricBridge
