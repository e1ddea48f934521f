import MetricBridge.Entries
import MetricBridge.Files
import MetricBridge.Log.Basic
import MetricBridge.Text.Blank

namespace MetricBridge

inductive DotenvFault where
  /-- The file cannot be opened or read. -/
  | inaccessible (reason : Text)
  | notText
deriving DecidableEq, Repr

inductive StartupFault where
  | unreadable (fault : DotenvFault)
  /-- The environment cannot hold a variable of the file. -/
  | notSettable
deriving DecidableEq, Repr

structure Startup where
  env : Entries Text Text
  /-- Whether there are variables in the file. -/
  loaded : Except StartupFault Bool
  log : List LogEntry

/-- A library that reads files of environment variables. The syntax of these files is up to it. -/
structure DotenvReader where
  /-- The variables that a file gives, with references to itself before those to the environment. A
  name alone has no value. -/
  values (env : Entries Text Text) (node : FileNode) :
    Except DotenvFault (Entries Text (Option Text)) × List LogEntry
  /-- The variables of a file that are to be added, with references to the environment before those
  to the file. -/
  assigned (env : Entries Text Text) (node : Option FileNode) : Entries Text (Option Text)
  load (env : Entries Text Text) (node : Option FileNode) : Startup

namespace DotenvReader

/-- What a file says that has nothing but assignments in it, each on its own line and without quotes,
comments and references. -/
def plainValues : Option FileNode → Except DotenvFault (Entries Text Text)
  | some (.file content) => match Text.ofFile? content with
    | none => .error .notText
    | some text => .ok (Entries.ofPairs ((Text.pieces (.scalar '\n') text).filterMap fun line =>
        (Text.cutAt (.scalar '=') line).map fun (name, value) => (name.trim, value.trim)))
  | _ => .ok []

def settable (values : Entries Text Text) : Entries Text (Option Text) :=
  values.map fun (name, value) => (name, some value)

def plain : DotenvReader where
  values _ node := ((plainValues (some node)).map settable, [])
  assigned _ node := settable ((plainValues node).toOption.getD [])
  load env node := match plainValues node with
    | .error fault => ⟨env, .error (.unreadable fault), []⟩
    | .ok values =>
      ⟨env ++ values.filter fun (name, _) => !Entries.has name env, .ok (!values.isEmpty), []⟩

end DotenvReader

end MetricBridge
