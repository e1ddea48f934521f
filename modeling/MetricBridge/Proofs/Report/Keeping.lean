import MetricBridge.Proofs.Dispatch.Recalling
import MetricBridge.Proofs.Json.Inspecting
import MetricBridge.Proofs.Report.Histories

namespace MetricBridge

open Run

namespace ReportInfo

structure IsJoined (r : ReportInfo) : Prop where
  module : r.module.IsJoined
  action : r.action.IsJoined
  category : r.category.IsJoined
  name : r.name.IsJoined
  parameters : ∀ ps ∈ r.parameters, ∀ p ∈ ps, p.1.IsJoined ∧ p.2.IsJoined

def HasKeys (r : ReportInfo) : Prop := ∀ ps ∈ r.parameters, (Entries.keys ps).Nodup

def NamesApart (r : ReportInfo) : Prop :=
  ∀ ps ∈ r.parameters, ((Entries.keys ps).map Text.quote).Nodup

variable {r : ReportInfo}

theorem IsJoined.reread_eq (h : r.IsJoined) (hkeys : r.HasKeys) : r.reread = r := by
  obtain ⟨module, action, category, name, parameters⟩ := r
  rw [reread, Text.joined_eq_self h.module, Text.joined_eq_self h.action,
    Text.joined_eq_self h.category, Text.joined_eq_self h.name]
  cases parameters with
  | none => rfl
  | some ps =>
      have hsame : ps.map (fun p => (Text.joined p.1, Text.joined p.2)) = ps := by
        refine (List.map_congr_left fun p hp => ?_).trans (List.map_id ps)
        obtain ⟨hname, hvalue⟩ := h.parameters ps rfl p hp
        exact Prod.ext (Text.joined_eq_self hname) (Text.joined_eq_self hvalue)
      have hps : Entries.ofPairs (ps.map fun p => (Text.joined p.1, Text.joined p.2)) = ps := by
        rw [hsame, Entries.ofPairs_eq_self (hkeys ps rfl)]
      exact congrArg (fun ps => ReportInfo.mk module action category name (some ps)) hps

theorem isJoined_reread (r : ReportInfo) : r.reread.IsJoined where
  module := Text.isJoined_joined _
  action := Text.isJoined_joined _
  category := Text.isJoined_joined _
  name := Text.isJoined_joined _
  parameters := by
    intro ps hps p hp
    obtain ⟨pairs, -, rfl⟩ := Option.mem_map.mp hps
    obtain ⟨q, -, rfl⟩ := List.mem_map.mp (Entries.mem_of_mem_ofPairs hp)
    exact ⟨Text.isJoined_joined _, Text.isJoined_joined _⟩

theorem reread_eq_iff (hkeys : r.HasKeys) : r.reread = r ↔ r.IsJoined :=
  ⟨fun h => h ▸ r.isJoined_reread, fun h => h.reread_eq hkeys⟩

theorem float_notMem_parts (r : ReportInfo) (x : Float) : .float x ∉ r.toJson.parts := by
  intro hx
  obtain ⟨module, action, category, name, parameters⟩ := r
  cases parameters with
  | none => simp [toJson, Json.parts, Json.partsOfFields] at hx
  | some ps => simp [toJson, Json.parts, Json.partsOfFields, Json.partsOfFields_eq] at hx

theorem NamesApart.of_parts (h : r.NamesApart) {fields : List (Text × Json)}
    (hfields : .object fields ∈ r.toJson.parts) : Json.NamesApart fields := by
  obtain ⟨module, action, category, name, parameters⟩ := r
  have hfixed : ∀ j, Json.NamesApart [(lit "module", .string module), (lit "action", .string action),
      (lit "category", .string category), (lit "name", .string name), (lit "parameters", j)] := by
    intro j
    have hnames : ([lit "module", lit "action", lit "category", lit "name", lit "parameters"].map
        Text.quote).Nodup := by decide
    exact hnames
  cases parameters with
  | none =>
      simp only [toJson, Json.parts, Json.partsOfFields, List.append_nil, List.cons_append,
        List.nil_append, List.mem_cons, Json.object.injEq, reduceCtorEq, List.not_mem_nil, or_self,
        or_false] at hfields
      rw [hfields]
      exact hfixed _
  | some ps =>
      simp only [toJson, Json.parts, Json.partsOfFields, Json.partsOfFields_eq, List.append_nil,
        List.cons_append, List.nil_append, List.mem_cons, Json.object.injEq, reduceCtorEq,
        List.mem_flatMap, List.mem_map, Prod.exists, Prod.mk.injEq, ↓existsAndEq, true_and,
        exists_exists_and_eq_and, List.not_mem_nil, or_self, and_false, exists_const, or_false,
        false_or] at hfields
      rcases hfields with rfl | rfl
      · exact hfixed _
      · have hkeys : Entries.keys (ps.map fun e => (e.1, Json.string e.2)) = Entries.keys ps := by
          simp [Entries.keys]
        rw [Json.NamesApart, hkeys]
        exact h ps rfl

end ReportInfo

namespace ReportListing

def IsJoined (l : ReportListing) : Prop := ∀ r ∈ l.reports, r.IsJoined

variable {l : ReportListing}

theorem reread_eq_iff (hkeys : ∀ r ∈ l.reports, r.HasKeys) : l.reread = l ↔ l.IsJoined := by
  constructor
  · intro h r hr
    rw [← h] at hr
    obtain ⟨r', -, rfl⟩ := List.mem_map.mp hr
    exact r'.isJoined_reread
  · intro h
    have hreports : l.reports.map ReportInfo.reread = l.reports :=
      (List.map_congr_left fun r hr => (h r hr).reread_eq (hkeys r hr)).trans (List.map_id _)
    rw [reread, hreports]

def NamesApart (l : ReportListing) : Prop := ∀ r ∈ l.reports, r.NamesApart

theorem print_reread (h : l.NamesApart) : l.reread.toJson.print = l.toJson.print := by
  have hnames : Json.NamesApart [(lit "reportMetadata", .array (l.reports.map ReportInfo.toJson)),
      (lit "hasMetricTypes", .bool l.hasMetricTypes)] := by
    have hnames : ([lit "reportMetadata", lit "hasMetricTypes"].map Text.quote).Nodup := by decide
    exact hnames
  have hparts : ∀ j ∈ l.toJson.parts, j = l.toJson ∨ j = .array (l.reports.map ReportInfo.toJson) ∨
      (∃ r ∈ l.reports, j ∈ r.toJson.parts) ∨ j = .bool l.hasMetricTypes := by
    intro j hj
    simp only [toJson, Json.parts, Json.partsOfFields, Json.partsOfItems_eq, List.append_nil,
      List.cons_append, List.mem_cons, List.mem_append, List.not_mem_nil, or_false, List.mem_flatMap,
      List.mem_map, exists_exists_and_eq_and] at hj
    exact hj
  rw [← reread_toJson]
  refine Json.print_reread (fun x hx => ?_) fun fields hfields => ?_
  · rcases hparts _ hx with h | h | ⟨r, -, hx⟩ | h
    · cases h
    · cases h
    · exact absurd hx (r.float_notMem_parts x)
    · cases h
  · rcases hparts _ hfields with h | h | ⟨r, hr, hfields⟩ | h
    · cases h
      exact hnames
    · cases h
    · exact (h r hr).of_parts hfields
    · cases h

end ReportListing

namespace ReportInfo

variable {source : Text} {j : Json} {r : ReportInfo}

/-- The parameters of a report are the fields of an object. -/
theorem parameters_of_ofJson (h : ofJson j = .ok r) : ∀ ps ∈ r.parameters, ∃ fields,
    j.optional "parameters" = .ok (some (.object fields)) ∧
      ps = fields.map fun (name, value) => (name, value.plain) := by
  obtain ⟨value?, hvalue, h⟩ := bind_eq_ok.mp h
  obtain ⟨module, -, h⟩ := bind_eq_ok.mp h
  obtain ⟨action, -, h⟩ := bind_eq_ok.mp h
  obtain ⟨category, -, h⟩ := bind_eq_ok.mp h
  obtain ⟨name, -, h⟩ := bind_eq_ok.mp h
  cases h
  intro ps hps
  dsimp only at hps
  split at hps
  · cases hps
    exact ⟨_, hvalue, rfl⟩
  · cases hps

theorem hasKeys_of_ofJson (hj : Json.ReadFrom source j) (h : ofJson j = .ok r) : r.HasKeys := by
  intro ps hps
  obtain ⟨fields, hfields, rfl⟩ := parameters_of_ofJson h ps hps
  cases hj.optional hfields with
  | object _ hnodup _ _ =>
      have hkeys : Entries.keys (fields.map fun (name, value) => (name, value.plain)) =
          Entries.keys fields := by simp [Entries.keys]
      rw [hkeys]
      exact hnodup

theorem isJoined_of_ofJson (hj : Json.ReadFrom source j) (hsource : source.NoSurrogate)
    (h : ofJson j = .ok r) : r.IsJoined := by
  have hparameters := parameters_of_ofJson h
  obtain ⟨value?, -, h⟩ := bind_eq_ok.mp h
  obtain ⟨module, hmodule, h⟩ := bind_eq_ok.mp h
  obtain ⟨action, haction, h⟩ := bind_eq_ok.mp h
  obtain ⟨category, hcategory, h⟩ := bind_eq_ok.mp h
  obtain ⟨name, hname, h⟩ := bind_eq_ok.mp h
  cases h
  refine ⟨hj.isJoined_optionalText hsource hmodule, hj.isJoined_optionalText hsource haction,
    hj.isJoined_optionalText hsource hcategory, hj.isJoined_optionalText hsource hname, ?_⟩
  intro ps hps p hp
  obtain ⟨fields, hfields, rfl⟩ := hparameters ps hps
  obtain ⟨field, hfield, rfl⟩ := List.mem_map.mp hp
  cases hj.optional hfields with
  | object _ _ hnames hvalues =>
      exact ⟨hnames field hfield hsource, (hvalues field hfield).isJoined_plain hsource⟩

end ReportInfo

namespace ReportListing

variable {source : Text} {response : Json} {l : ReportListing}

theorem exists_of_usable {reports : List Json} {infos : List ReportInfo}
    (h : usable reports = .ok infos) :
    ∀ r ∈ infos, ∃ report ∈ reports, ReportInfo.ofJson report = .ok r := by
  induction reports generalizing infos with
  | nil =>
      cases h
      exact nofun
  | cons report reports ih =>
      obtain ⟨usable?, -, h⟩ := bind_eq_ok.mp h
      have hlater : ∀ {infos}, usable reports = .ok infos →
          ∀ r ∈ infos, ∃ report' ∈ report :: reports, ReportInfo.ofJson report' = .ok r := by
        intro infos h r hr
        obtain ⟨report', hreport, hr⟩ := ih h r hr
        exact ⟨report', List.mem_cons_of_mem report hreport, hr⟩
      split at h
      · obtain ⟨info, hinfo, h⟩ := bind_eq_ok.mp h
        obtain ⟨infos, hinfos, h⟩ := bind_eq_ok.mp h
        cases h
        exact List.forall_mem_cons.mpr ⟨⟨report, List.mem_cons_self, hinfo⟩, hlater hinfos⟩
      · exact hlater h

/-- The reports of a listing are elements of the response. -/
theorem exists_of_ofResponse (h : ofResponse response = .ok l) : ∀ r ∈ l.reports,
    ∃ items, response.elements = .ok items ∧ ∃ report ∈ items, ReportInfo.ofJson report = .ok r := by
  obtain ⟨items, hitems, h⟩ := bind_eq_ok.mp h
  obtain ⟨types, -, h⟩ := bind_eq_ok.mp h
  obtain ⟨infos, hinfos, h⟩ := bind_eq_ok.mp h
  cases h
  intro r hr
  obtain ⟨report, hreport, hr⟩ := exists_of_usable hinfos r hr
  unfold Json.elementsOrNone at hitems
  split at hitems
  · cases hitems
    cases hreport
  · exact ⟨items, hitems, report, hreport, hr⟩

theorem exists_readFrom (hparse : Json.parse source = .ok response)
    (h : ofResponse response = .ok l) :
    ∀ r ∈ l.reports, ∃ report, Json.ReadFrom source report ∧ ReportInfo.ofJson report = .ok r := by
  intro r hr
  obtain ⟨items, hitems, report, hreport, hr⟩ := exists_of_ofResponse h r hr
  exact ⟨report, (Json.readFrom_of_parse hparse).elements hitems report hreport, hr⟩

theorem hasKeys_of_ofResponse (hparse : Json.parse source = .ok response)
    (h : ofResponse response = .ok l) : ∀ r ∈ l.reports, r.HasKeys := by
  intro r hr
  obtain ⟨report, hreport, hr⟩ := exists_readFrom hparse h r hr
  exact ReportInfo.hasKeys_of_ofJson hreport hr

/-- From a response without surrogates come texts without pairs of them. -/
theorem isJoined_of_ofResponse (hparse : Json.parse source = .ok response)
    (h : ofResponse response = .ok l) (hsource : source.NoSurrogate) : l.IsJoined := by
  intro r hr
  obtain ⟨report, hreport, hr⟩ := exists_readFrom hparse h r hr
  exact ReportInfo.isJoined_of_ofJson hreport hsource hr

/-- An error of the dispatcher lists no reports. -/
theorem ofResponse_failed (message : Text) :
    ofResponse (Entry.failed message) = .error .noFields := rfl

end ReportListing

/-- Without a key in the store, a payload is what one of the replies says, or an error of the
dispatcher. -/
theorem Dispatcher.returns_fetch_origin {σ τ : Type} [Seconds τ] {d : Dispatcher σ τ} {request : Request}
    {options : FetchOptions} {w w' : World σ τ} {response : Json} (hkey : options.storeKey? = none)
    (h : Returns (d.fetch request options) w response w') : ∃ sent, Sends w sent w' ∧
      ((∃ query reply, (query, reply) ∈ conversation d.fetcher w.fetches sent ∧
        Json.parse reply.content = .ok response) ∨ ∃ message, response = Entry.failed message) := by
  obtain ⟨entries, w₁, hfetch, hentry⟩ := returns_bind.mp h
  have hstrict : FetchOptions.storeKey? { options with strict := true } = none := hkey
  unfold fetchAll at hfetch
  rw [hstrict] at hfetch
  obtain ⟨sent, hsends, rfl⟩ := returns_dispatch_entries hfetch
  obtain ⟨rfl, rfl⟩ := returns_pure.mp hentry
  refine ⟨sent, hsends, (referenceEntry_origin _ _).imp_left ?_⟩
  rintro ⟨reply, hreply, hparse⟩
  obtain ⟨⟨query, _⟩, hmem, rfl⟩ := List.mem_map.mp hreply
  exact ⟨query, _, List.mem_of_mem_filter hmem, hparse⟩

namespace ReportClient

variable {σ τ : Type} [Seconds τ] {c : ReportClient σ τ} {site : Text} {language : Option Text}
  {s : Store σ τ} {w w' w₁ : World σ τ} {l : ReportListing}

theorem Encodes.unique {text : Text} {l' : ReportListing} (h : Encodes text l)
    (h' : Encodes text l') : l = l' := by
  obtain ⟨j, hparse, hl⟩ := h
  obtain ⟨j', hparse', hl'⟩ := h'
  cases hparse.symm.trans hparse'
  exact Except.ok.inj (hl.symm.trans hl')

theorem written_keepListing (hstore : c.dispatcher.store = some s)
    (h : Returns (c.keepListing site l) w () w') :
    Written s (listingKey site) l.toJson.print listingTtl w w' := by
  have hwrite : Returns (writeStore s (listingKey site) l.toJson.print listingTtl) w _ _ :=
    returns_writeStore rfl
  unfold keepListing at h
  rw [hstore] at h
  replace h := hwrite.ends.mp h
  let logs := (s.put w.now (listingKey site) l.toJson.print listingTtl w.store).log.reverse
  have hlogs : logs.map (Event.log : LogEntry → Event τ) = _ := List.map_reverse
  cases hput : (s.put w.now (listingKey site) l.toJson.print listingTtl w.store).result with
  | ok =>
      rw [hput] at h
      cases h
      exact ⟨⟨logs, by rw [hlogs]⟩, rfl, rfl⟩
  | error fault =>
      rw [hput] at h
      dsimp only at h
      split at h
      · cases h
        exact ⟨⟨_ :: logs, by rw [List.map_cons, hlogs]; rfl⟩, rfl, rfl⟩
      · cases h

theorem returns_freshListing (h : Returns (c.freshListing site language) w l w') :
    ∃ sent query reply response, Sends w sent w' ∧
      (query, reply) ∈ conversation c.dispatcher.fetcher w.fetches sent ∧
      Json.parse reply.content = .ok response ∧ ReportListing.ofResponse response = .ok l := by
  obtain ⟨response, w₁, hcall, hexpect⟩ := returns_bind.mp h
  obtain ⟨sent, hsends, horigin⟩ := Dispatcher.returns_fetch_origin rfl hcall
  cases hlisting : ReportListing.ofResponse response with
  | error fault =>
      rw [hlisting] at hexpect
      exact absurd hexpect not_returns_throw
  | ok l' =>
      rw [hlisting] at hexpect
      obtain ⟨rfl, rfl⟩ := returns_pure.mp hexpect
      rcases horigin with ⟨query, reply, hreply, hparse⟩ | ⟨message, rfl⟩
      · exact ⟨sent, query, reply, response, hsends, hreply, hparse, hlisting⟩
      · rw [ReportListing.ofResponse_failed] at hlisting
        cases hlisting

/-- What a call for a listing keeps of it, if it has to ask the server: the call puts a text into the store,
from which the listing is read back with all pairs of surrogates joined. It is the same listing if its texts
have no such pairs, as those of a response without surrogates; and it is kept as the same text unless two of
its parameters become one. -/
theorem listing_kept (hstore : c.dispatcher.store = some s)
    (hmissing : Returns (c.storedListing site) w none w₁)
    (h : Returns (c.listing site language) w l w') :
    ∃ w₂ sent query reply response, Sends w sent w₂ ∧
      (query, reply) ∈ conversation c.dispatcher.fetcher w.fetches sent ∧
      Json.parse reply.content = .ok response ∧ ReportListing.ofResponse response = .ok l ∧
      Written s (listingKey site) l.toJson.print listingTtl w₂ w' ∧
      (∀ l', Encodes l.toJson.print l' ↔ l' = l.reread) ∧
      (l.reread = l ↔ l.IsJoined) ∧ (reply.content.NoSurrogate → l.IsJoined) ∧
      (l.NamesApart → l.reread.toJson.print = l.toJson.print) := by
  have hidle : Idle (c.storedListing site) := within_storedListing
  have hstill := hidle hmissing
  rw [listing_eq] at h
  have hasked : Returns (do
      let l ← c.freshListing site language
      c.keepListing site l
      return l) w₁ l w' := hmissing.ends.mp h
  obtain ⟨l, w₂, hfresh, hrest⟩ := returns_bind.mp hasked
  obtain ⟨_, w₃, hkeep, hreturn⟩ := returns_bind.mp hrest
  obtain ⟨rfl, rfl⟩ := returns_pure.mp hreturn
  obtain ⟨sent, query, reply, response, hsends, hreply, hparse, hresponse⟩ :=
    returns_freshListing hfresh
  rw [hstill.fetches] at hreply
  have hfound := encodes_print l
  have hread : ∀ l', Encodes l.toJson.print l' ↔ l' = l.reread :=
    fun l' => ⟨fun hl' => hl'.unique hfound, fun hl' => hl' ▸ hfound⟩
  have hkeys := ReportListing.hasKeys_of_ofResponse hparse hresponse
  exact ⟨w₂, sent, query, reply, response, hstill.sends.trans hsends, hreply, hparse, hresponse,
    written_keepListing hstore hkeep, hread, ReportListing.reread_eq_iff hkeys,
    ReportListing.isJoined_of_ofResponse hparse hresponse, ReportListing.print_reread⟩

def answeredClient (text : Text) : ReportClient (MemoryStore Float) Float where
  dispatcher := { Dispatcher.replyingDispatcher (.memory 100) text with
    credentials := some (.fixed (some "https://matomo.example.com") none) }
  configTtl := 60

/-- A report without a category, with a name that is no text and with a parameter that is a number. -/
theorem listing_kept_goals :
    let text : Text := lit "[\x7b\"module\": \"Goals\", \"action\": \"get\", \"name\": null, " ++
      lit "\"metrics\": [1], \"parameters\": \x7b\"idGoal\": 3\x7d\x7d]"
    let c := answeredClient text
    let w : World (MemoryStore Float) Float := ⟨1000, 1000, 0, .empty 100, []⟩
    let l : ReportListing := ⟨[⟨"Goals", "get", "", "None", some [("idGoal", "3")]⟩], false⟩
    ∃ w₁ w', c.dispatcher.store = some MemoryStore.store ∧ Returns (c.storedListing "1") w none w₁ ∧
    Returns (c.listing "1" none) w l w' ∧
    ∃ w₂ sent query reply response, Sends w sent w₂ ∧
      (query, reply) ∈ conversation c.dispatcher.fetcher w.fetches sent ∧
      Json.parse reply.content = .ok response ∧ ReportListing.ofResponse response = .ok l ∧
      Written MemoryStore.store (listingKey "1") l.toJson.print listingTtl w₂ w' ∧
      (∀ l', Encodes l.toJson.print l' ↔ l' = l.reread) ∧
      (l.reread = l ↔ l.IsJoined) ∧ (reply.content.NoSurrogate → l.IsJoined) ∧
      (l.NamesApart → l.reread.toJson.print = l.toJson.print) := by
  intro text c w l
  obtain ⟨_, w', h, hl⟩ := returns_of_check (x := c.listing "1" none) (w := w)
    (p := fun l' _ => decide (l' = l)) (by decide +kernel)
  obtain rfl := of_decide_eq_true hl
  have hmissing : Returns (c.storedListing "1") w none _ :=
    returns_storedListing_none (s := MemoryStore.store) rfl (by decide +kernel)
  exact ⟨_, w', rfl, hmissing, h, listing_kept rfl hmissing h⟩

/-- Two parameters of a report become one if a pair of surrogates and the character that it encodes are
their names. -/
theorem listing_kept_otherwise :
    let half : Text := [.surrogate 0x3D]
    let text : Text := lit "[\x7b\"module\": \"Goals\", \"action\": \"get\", \"metrics\": [1], " ++
      lit "\"parameters\": \x7b\"" ++ half ++ lit "\\ude00\": \"1\", \"\\ud83d\\ude00\": \"2\"\x7d\x7d]"
    let c := answeredClient text
    let w : World (MemoryStore Float) Float := ⟨1000, 1000, 0, .empty 100, []⟩
    ∃ l w' l' w'', Returns (c.listing "1" none) w l w' ∧ Encodes l.toJson.print l' ∧
      Returns (c.listing "1" none) w' l' w'' ∧ l' ≠ l ∧ l'.toJson.print ≠ l.toJson.print := by
  intro half text c w
  obtain ⟨l, w', h, hagain⟩ := returns_of_check (x := c.listing "1" none) (w := w)
    (p := fun l w' => check (c.listing "1" none) w' fun l' _ =>
      decide (l' = l.reread ∧ l' ≠ l ∧ l'.toJson.print ≠ l.toJson.print)) (by decide +kernel)
  obtain ⟨l', w'', hagain, hdiffers⟩ := returns_of_check hagain
  obtain ⟨rfl, hne, hprint⟩ := of_decide_eq_true hdiffers
  exact ⟨l, w', _, w'', h, encodes_print l, hagain, hne, hprint⟩

end ReportClient

end MetricBridge
