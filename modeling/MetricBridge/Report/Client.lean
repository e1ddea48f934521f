import MetricBridge.Dispatch.Basic
import MetricBridge.Report.Basic
import MetricBridge.Report.Listing
import MetricBridge.Report.Processed

namespace MetricBridge

structure ReportClient (σ τ : Type) where
  dispatcher : Dispatcher σ τ
  /-- The number of seconds for which sites and segments are kept. -/
  configTtl : Int

namespace ReportClient

variable {σ τ : Type} [Seconds τ]

def log (message : Text) : Run σ τ Unit := Run.log .info .reporting message

def expect {α : Type} : Except ShapeFault α → Run σ τ α
  | .ok a => pure a
  | .error fault => throw (.shape fault)

def call (c : ReportClient σ τ) (method : Text) (params : List (Text × Scalar))
    (options : FetchOptions) : Run σ τ Json :=
  c.dispatcher.fetch ⟨method, Entries.ofPairs params⟩ options

def keptUnder (c : ReportClient σ τ) (key : Text) : FetchOptions :=
  { cacheKey := some key, cacheTtl := c.configTtl }

def allRows : Text × Scalar := ("filter_limit", .text "-1")

def sites (c : ReportClient σ τ) : Run σ τ (List Site) := do
  let response ← c.call "SitesManager.getSitesWithAtLeastViewAccess" [allRows]
    (c.keptUnder "getConfig.SitesManager.getSitesWithAtLeastViewAccess")
  expect do (← response.elementsOrNone).mapM Site.ofJson

def version (c : ReportClient σ τ) : Run σ τ ServerVersion := do
  let response ← c.call "API.getMatomoVersion" [] {}
  expect do ServerVersion.ofText (← response.required "value").plain

def segments (c : ReportClient σ τ) (site : Text) : Run σ τ (List Segment) := do
  let response ← c.call "SegmentEditor.getAll" [("idSite", .text site), allRows]
    (c.keptUnder (lit "getConfig.SegmentEditor.getAll." ++ site))
  expect do (← response.elementsOrNone).mapM Segment.ofJson

def languages (c : ReportClient σ τ) : Run σ τ (List Language) := do
  let response ← c.call "LanguagesManager.getAvailableLanguageNames" [] {}
  expect do (← response.elements).mapM Language.ofJson

/-- The goals of a site, which some servers list under their identifiers. -/
def goals (c : ReportClient σ τ) (site : Text) : Run σ τ (List Goal) := do
  let response ← c.call "Goals.getGoals" [("idSite", .text site)] {}
  expect do
    let goals ← match response with
      | .object fields => pure (Entries.values fields)
      | response => response.elementsOrNone
    goals.mapM Goal.ofJson

def listingKey (site : Text) : Text := lit "getConfig.API.getReportMetadata." ++ site

def listingTtl : Int := 600

inductive StoredListing where
  | listing (l : ReportListing)
  | unreadable (reason : Text)
  | failed (failure : Failure)

/-- Reads a stored text. Text that is no JSON, and missing or misplaced fields, make it
unreadable. -/
def StoredListing.ofText (t : Text) : StoredListing :=
  match Json.parse t with
  | .error (.malformed defect remaining) =>
    unreadable (Json.defectMessage t defect remaining)
  | .error .integerTooLong => failed .integerTooLong
  | .ok j => match ReportListing.ofJson j with
    | .ok l => listing l
    | .error .noFields => failed (.shape .noFields)
    | .error fault => unreadable fault.message

def storedListing (c : ReportClient σ τ) (site : Text) : Run σ τ (Option ReportListing) := do
  match ← Run.readStore c.dispatcher.store (listingKey site) with
  | none => return none
  | some t => match StoredListing.ofText t with
    | .listing l => return some l
    | .failed failure => throw failure
    | .unreadable reason =>
      log (lit "unable to parse cache value for " ++ listingKey site ++
        lit ", making actual request (" ++ reason ++ lit ")")
      return none

def keepListing (c : ReportClient σ τ) (site : Text) (l : ReportListing) : Run σ τ Unit := do
  match c.dispatcher.store with
  | none => return
  | some store =>
    match ← Run.writeStore store (listingKey site) l.toJson.print listingTtl with
    | none => return
    | some fault =>
      if fault.isRefusal then
        log (lit "unable to save cache value for " ++ listingKey site ++ lit ": " ++ fault.message)
      else throw (.store fault)

def listing (c : ReportClient σ τ) (site : Text) (language : Option Text) :
    Run σ τ ReportListing := do
  match ← c.storedListing site with
  | some l => return l
  | none =>
    let params : List (Text × Scalar) :=
      [("idSite", .text site), ("period", .text "day"), ("date", .text "yesterday"), allRows]
    let language : List (Text × Scalar) := match language with
      | none | some [] => []
      | some code => [("language", .text code)]
    let response ← c.call "API.getReportMetadata" (params ++ language) {}
    let l ← expect (ReportListing.ofResponse response)
    c.keepListing site l
    return l

structure ReportQuery where
  site : Text
  module : Text
  action : Text
  period : Text
  date : Text
  segment : Option Text
  extra : Entries Text Scalar

def ReportQuery.params (q : ReportQuery) : Entries Text Scalar :=
  let params : Entries Text Scalar :=
    [("idSite", .text q.site), ("period", .text q.period), ("date", .text q.date),
      ("apiModule", .text q.module), ("apiAction", .text q.action),
      ("format_metrics", .text "0"), ("flat", .text "1")]
  let segment : Entries Text Scalar := match q.segment with
    | none | some [] => []
    | some t => [("segment", .text t)]
  Entries.merge (params ++ segment) q.extra

def report (c : ReportClient σ τ) (q : ReportQuery) (options : FetchOptions) :
    Run σ τ ProcessedReport := do
  let response ← c.call "API.getProcessedReport" q.params options
  expect (ProcessedReport.ofJson response)

end ReportClient
end MetricBridge
