import MetricBridge.Text.Basic

namespace MetricBridge

structure Package where
  name : Text
  offered : List Text
  /-- The offered names that are not looked up on first use. -/
  loaded : List Text

inductive Export where
  | text
  | object (name : Text)
deriving DecidableEq, Repr

namespace Package

def versionName : Text := "__version__"

def connector : Package where
  name := "matomo_connector"
  offered := [versionName, "BatchDispatcher", "FetchOptions", "ReportingClient", "Request",
    "TranslationResult", "translate"]
  loaded := [versionName]

def api : Package where
  name := "matomo_connector.api"
  offered := ["BatchDispatcher", "FetchOptions", "FileCache", "InMemoryCache", "ReportingClient",
    "Request", "RequestsBatchFetcher", "RetryState", "create_cache", "extract_basic_auth_from_url",
    "is_api_error_non_random", "is_probably_temporary", "is_quota_error"]
  loaded := ["extract_basic_auth_from_url", "is_api_error_non_random", "is_probably_temporary",
    "is_quota_error"]

def ofName? (name : Text) : Option Package := [connector, api].find? fun p => p.name == name

def lookedUp (p : Package) : List Text :=
  (p.offered.filter (! p.loaded.contains ·)).mergeSort Text.le

def find? (p : Package) (name : Text) : Option Export :=
  if name = versionName && p.offered.contains name then some .text
  else if p.offered.contains name then some (.object name)
  else none

end Package
end MetricBridge
