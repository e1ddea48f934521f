import MetricBridge.Command.Run

namespace MetricBridge.Command

def variableNames : List Text :=
  let settings : List Text :=
    ["API_REQUEST_RETRY_LIMIT_IN_SECS", "SCRIPT_RUNTIME_LIMIT", "API_REQUEST_EXTRA_HEADERS",
      "CONFIG_REQUEST_CACHE_TTL_SECS", "API_REQUEST_USER_AGENT", "API_REQUEST_SOURCE_IDENTIFIER",
      "MATOMO_CONNECTOR_CACHE_DIR", "LOG_LEVEL"]
  Entries.values CredentialFields.variableNames ++ settings

def paths (env : Environment) (args : List Text) : List Path :=
  match Invocation.read args, (Settings.ofEnvironment env).1 with
  | .ok i, .ok settings =>
    let settings := settings.override i.overrides
    let stored := match StoreChoice.ofFolder settings.cacheFolder settings.cacheCapacity with
      | .disk folder => [DiskStore.file folder]
      | .memory _ => []
    (CredentialSource.order i.configFile ".env").filterMap CredentialSource.file? ++
      (settings.logFile.map Path.ofText).toList ++ stored
  | _, _ => []

def changed (before after : Files) : List (Path × Bytes) :=
  after.filterMap fun (path, node) => match node, Entries.find? path before with
    | .folder, _ => none
    | .file content, some (.file old) => if content = old then none else some (path, content)
    | .file content, _ => some (path, content)

end MetricBridge.Command
