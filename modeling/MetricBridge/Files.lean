import MetricBridge.Entries
import MetricBridge.Text.Printable
import MetricBridge.Text.Utf8

namespace MetricBridge

/-- A path: one or two slashes in front, or none, and the names of its parts. -/
structure Path where
  root : Text
  parts : List Text
deriving DecidableEq, Repr

namespace Path

/-- Empty parts and single dots do not count. Exactly two slashes in front are kept. -/
def ofText (t : Text) : Path :=
  let slashes := (t.takeWhile (· == .scalar '/')).length
  ⟨if slashes = 0 then [] else if slashes = 2 then lit "//" else lit "/",
    (Text.pieces (.scalar '/') t).filter fun part => !part.isEmpty && part != lit "."⟩

def text (p : Path) : Text :=
  if p.root.isEmpty && p.parts.isEmpty then "." else p.root ++ Text.joinWith "/" p.parts

def child (p : Path) (name : Text) : Path := { p with parts := p.parts ++ [name] }

def name (p : Path) : Text := p.parts.getLast?.getD []

def parent (p : Path) : Path := { p with parts := p.parts.dropLast }

/-- The path with another one below it; a path with slashes in front stays as it is. -/
def join (p q : Path) : Path := if q.root.isEmpty then { p with parts := p.parts ++ q.parts } else q

def resolve (p : Path) : Path :=
  { p with parts := p.parts.foldl (fun parts part =>
      if part = lit ".." ∧ !parts.isEmpty ∧ parts.getLast? ≠ some (lit "..") then parts.dropLast
      else parts ++ [part]) [] }

def steps (p : Path) : List Path :=
  (List.range p.parts.length).map fun n => { p with parts := p.parts.take (n + 1) }

end Path

inductive FileNode where
  | file (content : Bytes)
  | folder
deriving Repr

inductive FileFault where
  | notFound
  | alreadyExists
  | notAFolder
  | isAFolder
deriving DecidableEq, Repr

def FileFault.message (p : Path) : FileFault → Text
  | notFound => lit "[Errno 2] No such file or directory: " ++ p.text.inSingleQuotes
  | alreadyExists => lit "[Errno 17] File exists: " ++ p.text.inSingleQuotes
  | notAFolder => lit "[Errno 20] Not a directory: " ++ p.text.inSingleQuotes
  | isAFolder => lit "[Errno 21] Is a directory: " ++ p.text.inSingleQuotes

/-- The files and folders. The starting points of paths are folders that always exist. -/
abbrev Files := Entries Path FileNode

namespace Files

def node? (p : Path) (files : Files) : Option FileNode :=
  let p := p.resolve
  if p.parts.isEmpty then some .folder else Entries.find? p files

def isBlocked (p : Path) (files : Files) : Bool :=
  p.resolve.steps.dropLast.any fun q => match files.node? q with
    | some (.file _) => true
    | _ => false

def read (p : Path) (files : Files) : Except FileFault Bytes :=
  match files.node? p with
  | some (.file content) => .ok content
  | some .folder => .error .isAFolder
  | none => .error (if files.isBlocked p then .notAFolder else .notFound)

def makeFolders (p : Path) (files : Files) : Except FileFault Files :=
  match files.node? p with
  | some .folder => .ok files
  | some (.file _) => .error .alreadyExists
  | none =>
    if files.isBlocked p then .error .notAFolder
    else .ok (p.resolve.steps.foldl (fun files q => Entries.set q .folder files) files)

def write (p : Path) (content : Bytes) (files : Files) : Except FileFault Files :=
  match files.node? p with
  | some .folder => .error .isAFolder
  | some (.file _) => .ok (Entries.set p.resolve (.file content) files)
  | none => match files.node? p.parent with
    | some .folder => .ok (Entries.set p.resolve (.file content) files)
    | some (.file _) => .error .notAFolder
    | none => .error (if files.isBlocked p then .notAFolder else .notFound)

def names (p : Path) (files : Files) : List Text :=
  files.filterMap fun (q, _) => if q.parent = p.resolve then some q.name else none

end Files

namespace Text

def unifyLines : Text → Text
  | [] => []
  | .scalar '\r' :: .scalar '\n' :: t => .scalar '\n' :: unifyLines t
  | .scalar '\r' :: t => .scalar '\n' :: unifyLines t
  | c :: t => c :: unifyLines t

def ofFile? (content : Bytes) : Option Text := (ofUtf8? content).map unifyLines

end Text
end MetricBridge
