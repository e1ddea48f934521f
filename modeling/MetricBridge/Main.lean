import MetricBridge.Command.Surroundings

open MetricBridge MetricBridge.Command

def environment : IO Environment := do
  let mut env : Environment := []
  for name in variableNames do
    match ← IO.getEnv name.toString with
    | some value => env := Entries.set name (lit value) env
    | none => pure ()
  return env

def readFiles (paths : List Path) : IO Files := do
  let mut files : Files := []
  for path in paths do
    try
      let content ← IO.FS.readBinFile path.text.toString
      files := Entries.set path.resolve (.file content.toList)
        ((files.makeFolders path.parent).toOption.getD files)
    catch _ => pure ()
  return files

def writeFile (path : Path) (content : Bytes) : IO Unit := do
  IO.FS.createDirAll path.parent.text.toString
  IO.FS.writeBinFile path.text.toString (ByteArray.mk content.toArray)

def unreachable : Fetcher Float := fun _ _ =>
  ⟨0.0, .error ⟨"ConnectionError", "no network is available"⟩⟩

def main (args : List String) : IO UInt32 := do
  let args := args.map lit
  let env ← environment
  let files ← readFiles (paths env args)
  let now := (← IO.monoMsNow).toFloat / 1000.0
  let host : Host :=
    { depths := .least, env, reader := .plain
      folder := Path.ofText (lit (← IO.currentDir).toString), files, fetcher := unreachable
      fetches := 0, now, storeTime := now, stamp := Text.ofFloat now }
  let outcome := host.run args
  for line in outcome.output do
    IO.println line.toString
  for line in outcome.errors do
    IO.eprintln line.toString
  for (path, content) in changed files outcome.files do
    writeFile path content
  match outcome.ending with
  | .exit status => return status.toUInt32
  | .fault _ =>
    IO.eprintln "unexpected failure"
    return 1
