import MetricBridge.Proofs.Dispatch.Query
import MetricBridge.Proofs.Dispatch.Storing
import MetricBridge.Proofs.Dispatch.Wire

namespace MetricBridge

open Run

variable {σ τ : Type} [Seconds τ] {w w' : World σ τ}

omit [Seconds τ] in
theorem Sends.unique {sent sent' : List (List FetchRequest)} (h : Sends w sent w')
    (h' : Sends w sent' w') : sent = sent' := by
  obtain ⟨new, he, -, rfl⟩ := h
  obtain ⟨new', he', -, rfl⟩ := h'
  rw [List.append_cancel_right (he.symm.trans he')]

namespace Dispatcher

variable {d : Dispatcher σ τ} {requests : List Request} {options : FetchOptions}
  {entries : List Json}

/-- The query is that of some of the requests, and all of these have the same fields. -/
structure StandsFor (source : Text) (requests : List Request) (query : Text) : Prop where
  request : ∃ r ∈ requests, r.query source = query
  same : ∀ r ∈ requests, ∀ r' ∈ requests, r.query source = query → r'.query source = query →
    r.fields source = r'.fields source

theorem returns_dispatch_entries (h : Returns (d.dispatch requests options) w entries w') :
    ∃ sent, Sends w sent w' ∧ entries = requests.map fun request =>
      referenceEntry d.settings.retryLimit (repliesTo (request.query d.settings.sourceName)
        (conversation d.fetcher w.fetches sent)) := by
  obtain ⟨target, _, w₁, state, entries₁, w₂, -, hstill, hrounds, rfl, hrest⟩ := returns_dispatch h
  have htracks := Stage.tracks_first d requests w.now w₁
  obtain ⟨sent, hsends, htracks, -, -⟩ := tracks_rounds hrounds htracks
  rw [List.nil_append, hstill.fetches] at htracks
  have hall := hstill.sends.trans (hsends.trans hrest.sends)
  rw [List.nil_append, List.append_nil] at hall
  refine ⟨sent, hall, ?_⟩
  rw [completeEntries_eq htracks, queries, List.map_map]
  rfl

theorem asksOpen_fetchAll {result : Except Failure (List Json)}
    (h : Ends (d.fetchAll requests options) w result w') : ∃ sent, Sends w sent w' ∧
      AsksOpen d.fetcher (d.queries requests) w.fetches [] sent := by
  have hlooked : Idle (d.lookUp options) := within_lookUp d options
  rw [fetchAll_eq] at h
  obtain ⟨_, -, hlookUp⟩ | ⟨found, w₁, hlookUp, h⟩ := ends_bind h
  · exact ⟨[], (hlooked hlookUp).sends, .nil⟩
  cases found with
  | none => exact asksOpen_dispatch (hlooked hlookUp) h
  | some entries =>
      cases h
      exact ⟨[], (hlooked hlookUp).sends, .nil⟩

theorem returns_fetchAll_entries (h : Returns (d.fetchAll requests options) w entries w') :
    (∃ v, Returns (d.lookUp options) w (some entries) v) ∨
      ∃ sent, Sends w sent w' ∧ entries = requests.map fun request =>
        referenceEntry d.settings.retryLimit (repliesTo (request.query d.settings.sourceName)
          (conversation d.fetcher w.fetches sent)) := by
  have hlooked : Idle (d.lookUp options) := within_lookUp d options
  rw [fetchAll_eq] at h
  obtain ⟨found, w₁, hlookUp, h⟩ := returns_bind.mp h
  cases found with
  | some stored =>
      obtain ⟨rfl, -⟩ := returns_pure.mp h
      exact .inl ⟨w₁, hlookUp⟩
  | none =>
      obtain ⟨sent, hsends, hentries⟩ := returns_dispatch_entries h
      have hall := (hlooked hlookUp).sends.trans hsends
      rw [(hlooked hlookUp).fetches] at hentries
      exact .inr ⟨sent, hall, hentries⟩

theorem standsFor_of_mem {source : Text} (hnames : ∀ r ∈ requests, r.HasFieldNames) {query : Text}
    (h : query ∈ requests.map (Request.query source)) : StandsFor source requests query where
  request := List.mem_map.mp h
  same r hr r' hr' hquery hquery' :=
    Request.fields_of_query_eq (hnames r hr) (hnames r' hr') (hquery.trans hquery'.symm)

/-- Requests in which no ampersand follows an equals sign in the name of a parameter have the same
query only if they have the same fields. If their parameters take the place of no other field, they
then have the same method and the same parameters. No request on the wire stands for requests with
different fields, and each request gets the entry of the replies to its own query, unless the entries
come from the store. -/
theorem requests_kept_apart (d : Dispatcher σ τ) :
    let source := d.settings.sourceName
    (∀ r r' : Request, r.HasFieldNames → r'.HasFieldNames →
      (r.query source = r'.query source ↔ r.fields source = r'.fields source) ∧
      (r.AddsParams source → r'.AddsParams source → source ≠ lit "method" → r.Differs r' →
        r.query source ≠ r'.query source)) ∧
    ∀ requests options w result w', (∀ r ∈ requests, r.HasFieldNames) →
      Ends (d.fetchAll requests options) w result w' → ∃ sent, Sends w sent w' ∧
        (∀ batch ∈ sent, (batch.map (·.query)).Nodup ∧
          ∀ asked ∈ batch, StandsFor source requests asked.query) ∧
        ∀ entries, result = .ok entries → (∃ v, Returns (d.lookUp options) w (some entries) v) ∨
          entries = requests.map fun request => referenceEntry d.settings.retryLimit
            (repliesTo (request.query source) (conversation d.fetcher w.fetches sent)) := by
  intro source
  refine ⟨fun r r' hr hr' => ⟨⟨Request.fields_of_query_eq hr hr', fun h => ?_⟩,
    Request.query_ne_of_differs hr hr'⟩, fun requests options w result w' hnames h => ?_⟩
  · rw [Request.query_eq, Request.query_eq, h]
  obtain ⟨sent, hsends, hasks⟩ := asksOpen_fetchAll h
  refine ⟨sent, hsends, fun batch hbatch => ?_, ?_⟩
  · obtain ⟨n, hn⟩ := List.mem_iff_getElem?.mp hbatch
    have hopen := hasks n batch hn
    refine ⟨hopen ▸ (nodup_eraseDups _).filter _, fun asked hasked => ?_⟩
    have hquery : asked.query ∈ batch.map (·.query) := List.mem_map_of_mem hasked
    rw [hopen, mem_openQueries] at hquery
    exact standsFor_of_mem hnames hquery.1
  · rintro entries rfl
    refine (returns_fetchAll_entries h).imp id ?_
    rintro ⟨sent', hsends', hentries⟩
    rw [hsends.unique hsends']
    exact hentries

def countingDispatcher : Dispatcher Unit Int where
  settings := ⟨30, 2, 6, 0, "agent", [], "source"⟩
  fetcher _ _ := ⟨1, .ok [⟨200, some "1"⟩, ⟨200, some "2"⟩, ⟨200, some "3"⟩]⟩
  store := none
  credentials := none
  maxRounds := 10

/-- Marks in values and in names do not make requests alike. -/
theorem requests_kept_apart_marked :
    let joined : Request := ⟨"A.a", [("a", .text "1&b=2")]⟩
    let split : Request := ⟨"A.a", [("a", .text "1"), ("b", .text "2")]⟩
    let named : Request := ⟨"A.a", [("a&b", .text "1"), ("c", .null)]⟩
    let requests := [joined, split, named]
    let options : FetchOptions := { address := some "https://matomo.example.com" }
    let world : World Unit Int := ⟨0, 0, 0, (), []⟩
    (∀ r ∈ requests, r.HasFieldNames) ∧ joined.AddsParams "source" ∧ split.AddsParams "source" ∧
      joined.Differs split ∧ joined.query "source" ≠ split.query "source" ∧
      ∃ entries w', Returns (countingDispatcher.fetchAll requests options) world entries w' ∧
        ∃ sent, Sends world sent w' ∧ (∀ batch ∈ sent, (batch.map (·.query)).Nodup ∧
          ∀ asked ∈ batch, StandsFor "source" requests asked.query) ∧
          entries = requests.map fun request => referenceEntry (30 : Int)
            (repliesTo (request.query "source") (conversation countingDispatcher.fetcher 0 sent)) := by
  intro joined split named requests options world
  have hnames : ∀ r ∈ requests, r.HasFieldNames := by
    have hequals : ∀ r ∈ requests, ∀ name ∈ Entries.keys r.params, CodePoint.scalar '=' ∉ name := by
      decide
    exact fun r hr name hname => Text.isFieldName_of_equals (hequals r hr name hname)
  have hjoined : joined.AddsParams "source" := ⟨by decide, by decide⟩
  have hsplit : split.AddsParams "source" := ⟨by decide, by decide⟩
  have hdiffers : joined.Differs split := .inr ⟨"b", by decide +kernel⟩
  have hok : (StateT.run (ExceptT.run (countingDispatcher.fetchAll requests options))
      world).1.isOk = true := by decide +kernel
  obtain ⟨entries, w', h⟩ := exists_returns hok
  obtain ⟨hqueries, hcalls⟩ := requests_kept_apart countingDispatcher
  have hne := (hqueries joined split (hnames _ (by simp [requests])) (hnames _ (by simp [requests]))).2
    hjoined hsplit (by decide) hdiffers
  obtain ⟨sent, hsends, hbatches, hentries⟩ := hcalls requests options world _ w' hnames h
  rcases hentries entries rfl with ⟨v, hlookUp⟩ | hentries
  · cases hlookUp
  · exact ⟨hnames, hjoined, hsplit, hdiffers, hne, entries, w', h, sent, hsends, hbatches, hentries⟩

end Dispatcher

/-- A parameter may take the place of the method, so that requests with different methods have the same
query. -/
theorem Request.query_eq_of_method_param :
    let overridden : Request := ⟨"A.a", [("method", .text "B.b")]⟩
    let plain : Request := ⟨"B.b", []⟩
    overridden.Differs plain ∧ overridden.query "trigger" = plain.query "trigger" := by
  intro overridden plain
  have hmethod : overridden.method ≠ plain.method := by decide
  exact ⟨.inl hmethod, by decide +kernel⟩

end MetricBridge
