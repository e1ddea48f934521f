import MetricBridge.Credential.Dotenv

namespace MetricBridge

/-- Adds the variables of a file to the environment at start-up. A file that cannot be opened is no
failure. The log says that `caller` does it. -/
def Startup.run (reader : DotenvReader) (caller : Origin) (node : Option FileNode)
    (env : Entries Text Text) : Startup :=
  let started := reader.load env node
  let remark (message : Text) : List LogEntry := started.log ++ [⟨.debug, caller, message⟩]
  match started.loaded with
  | .ok true => { started with log := remark ".env file found and loaded" }
  | .ok false => { started with log := remark ".env file not found" }
  | .error (.unreadable (.inaccessible reason)) =>
    { started with loaded := .ok false, log := remark (lit "Failed to load .env file: " ++ reason) }
  | .error _ => started

end MetricBridge
