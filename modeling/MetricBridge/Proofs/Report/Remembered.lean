import MetricBridge.Proofs.Dispatch.Found
import MetricBridge.Proofs.Json.ReadBack
import MetricBridge.Report.Client

namespace MetricBridge

open Run

namespace ReportListing

def HasStray (j : Json) : Prop :=
  ∃ reports items, j.required "reportMetadata" = .ok reports ∧ reports.elements = .ok items ∧
    ∃ item ∈ items, ∀ fields, item ≠ .object fields

end ReportListing

namespace Json

variable {name : Text} {j : Json}

theorem required_ne_noFields : j.required name ≠ .error .noFields := by
  unfold required
  split
  · split <;> exact nofun
  · exact nofun

theorem elements_ne_noFields : j.elements ≠ .error .noFields := by
  cases j <;> exact nofun

end Json

namespace ReportInfo

theorem ofJson_eq_noFields {j : Json} :
    ofJson j = .error .noFields ↔ ∀ fields, j ≠ .object fields := by
  cases j with
  | object fields => exact iff_of_false nofun fun h => h fields rfl
  | null | bool | int | float | string | array => exact iff_of_true rfl fun _ => nofun

theorem mapM_ofJson_eq_noFields {items : List Json} : items.mapM ofJson = .error .noFields ↔
    ∃ item ∈ items, ∀ fields, item ≠ .object fields := by
  induction items with
  | nil => exact iff_of_false nofun nofun
  | cons item items ih =>
      rw [List.mapM_cons, bind_eq_error, ofJson_eq_noFields]
      constructor
      · rintro (hstray | ⟨r, -, h⟩)
        · exact ⟨item, List.mem_cons_self, hstray⟩
        · rcases bind_eq_error.mp h with h | ⟨_, -, hpure⟩
          · obtain ⟨stray, hmem, hstray⟩ := ih.mp h
            exact ⟨stray, List.mem_cons_of_mem item hmem, hstray⟩
          · cases hpure
      · rintro ⟨stray, hmem, hstray⟩
        by_cases hobject : ∀ fields, item ≠ .object fields
        · exact .inl hobject
        · obtain ⟨fields, hfields⟩ := not_forall_not.mp hobject
          rcases List.mem_cons.mp hmem with rfl | hlater
          · exact absurd hfields (hstray fields)
          · subst hfields
            have hitems : ∃ item ∈ items, ∀ fields, item ≠ .object fields :=
              ⟨stray, hlater, hstray⟩
            exact .inr ⟨_, rfl, bind_eq_error.mpr (.inl (ih.mpr hitems))⟩

end ReportInfo

namespace ReportListing

/-- The value is no listing because of a report that is no object, whatever else is wrong with it. -/
theorem ofJson_eq_noFields {j : Json} : ofJson j = .error .noFields ↔ HasStray j := by
  unfold ofJson HasStray
  simp only [bind_eq_error, Json.required_ne_noFields, Json.elements_ne_noFields, false_or,
    ReportInfo.mapM_ofJson_eq_noFields]
  constructor
  · rintro ⟨reports, hreports, items, hitems, hstray | ⟨infos, -, types, -, hpure⟩⟩
    · exact ⟨reports, items, hreports, hitems, hstray⟩
    · cases hpure
  · rintro ⟨reports, items, hreports, hitems, hstray⟩
    exact ⟨reports, hreports, items, hitems, .inl hstray⟩

end ReportListing

namespace ReportClient

variable {σ τ : Type} {c : ReportClient σ τ} {site text : Text} {language : Option Text}
  {s : Store σ τ} {w w' : World σ τ}

def Encodes (text : Text) (l : ReportListing) : Prop :=
  ∃ j, Json.parse text = .ok j ∧ ReportListing.ofJson j = .ok l

inductive Breaks (text : Text) : Failure → Prop
  | long (h : Json.parse text = .error .integerTooLong) : Breaks text .integerTooLong
  | stray {j : Json} (hparse : Json.parse text = .ok j) (hstray : ReportListing.HasStray j) :
      Breaks text (.shape .noFields)

theorem ofText_eq_listing {l : ReportListing} :
    StoredListing.ofText text = .listing l ↔ Encodes text l := by
  unfold StoredListing.ofText Encodes
  cases Json.parse text with
  | error fault => cases fault <;> exact iff_of_false nofun fun ⟨_, hparse, _⟩ => nomatch hparse
  | ok j =>
      simp only [Except.ok.injEq, exists_eq_left']
      cases ReportListing.ofJson j with
      | ok l' => simp
      | error fault => cases fault <;> simp

theorem ofText_eq_failed {failure : Failure} :
    StoredListing.ofText text = .failed failure ↔ Breaks text failure := by
  unfold StoredListing.ofText
  constructor
  · intro h
    cases hparse : Json.parse text with
    | error fault => cases fault with
        | malformed => simp [hparse] at h
        | integerTooLong =>
            simp only [hparse, StoredListing.failed.injEq] at h
            exact h ▸ .long hparse
    | ok j =>
        simp only [hparse] at h
        cases hlisting : ReportListing.ofJson j with
        | ok l => simp [hlisting] at h
        | error fault =>
            rw [hlisting] at h
            cases fault <;> cases h
            exact .stray hparse (ReportListing.ofJson_eq_noFields.mp hlisting)
  · rintro (hlong | ⟨hparse, hstray⟩)
    · rw [hlong]
    · rw [hparse]
      dsimp only
      rw [ReportListing.ofJson_eq_noFields.mpr hstray]

theorem ends_storedListing (hstore : c.dispatcher.store = some s)
    (hget : (s.get w.now (listingKey site) w.store).result = .ok (some text)) :
    match StoredListing.ofText text with
    | .listing l => Returns (c.storedListing site) w (some l) (w.asked s (listingKey site))
    | .failed failure => Ends (c.storedListing site) w (.error failure) (w.asked s (listingKey site))
    | .unreadable reason => Returns (c.storedListing site) w none
        { w.asked s (listingKey site) with
          events := .log ⟨.info, .reporting, lit "unable to parse cache value for " ++ listingKey site ++
              lit ", making actual request (" ++ reason ++ lit ")"⟩ ::
            (w.asked s (listingKey site)).events } := by
  have hread : Returns (readStore c.dispatcher.store (listingKey site)) w (some text)
      (w.asked s (listingKey site)) := hstore ▸ returns_readStore hget
  cases htext : StoredListing.ofText text with
  | listing l =>
      refine hread.ends.mpr ?_
      dsimp only
      rw [htext]
      rfl
  | failed failure =>
      refine hread.ends.mpr ?_
      dsimp only
      rw [htext]
      rfl
  | unreadable reason =>
      refine hread.ends.mpr ?_
      dsimp only
      rw [htext]
      rfl

theorem returns_storedListing_none (hstore : c.dispatcher.store = some s)
    (hget : (s.get w.now (listingKey site) w.store).result = .ok none) :
    Returns (c.storedListing site) w none (w.asked s (listingKey site)) := by
  have hread : Returns (readStore c.dispatcher.store (listingKey site)) w none
      (w.asked s (listingKey site)) := hstore ▸ returns_readStore hget
  exact hread.ends.mpr rfl

theorem within_storedListing {R : World σ τ → World σ τ → Prop} [Overlooking R] :
    Within R (c.storedListing site) := by
  refine (Within.readStore c.dispatcher.store (listingKey site)).bind fun text? => ?_
  cases text? with
  | none => exact .pure
  | some text =>
      dsimp only
      cases StoredListing.ofText text with
      | listing => exact .pure
      | failed => exact .throw
      | unreadable => exact (Within.logged _).bind fun _ => .pure

def withStore (c : ReportClient σ τ) (store : Option (Store σ τ)) : ReportClient σ τ :=
  { c with dispatcher := { c.dispatcher with store := store } }

theorem keepListing_without (c : ReportClient σ τ) (key site : Text) (l : ReportListing) :
    (c.withStore (c.dispatcher.store.map (Store.without key))).keepListing site l =
      c.keepListing site l := by
  obtain ⟨⟨settings, fetcher, store, credentials, maxRounds⟩, configTtl⟩ := c
  cases store <;> rfl

variable [Seconds τ] {result : Except Failure ReportListing}

def freshListing (c : ReportClient σ τ) (site : Text) (language : Option Text) :
    Run σ τ ReportListing := do
  let params : List (Text × Scalar) :=
    [("idSite", .text site), ("period", .text "day"), ("date", .text "yesterday"), allRows]
  let language : List (Text × Scalar) := match language with
    | none | some [] => []
    | some code => [("language", .text code)]
  let response ← c.call "API.getReportMetadata" (params ++ language) {}
  expect (ReportListing.ofResponse response)

theorem listing_eq (c : ReportClient σ τ) (site : Text) (language : Option Text) :
    c.listing site language = (do
      match ← c.storedListing site with
      | some l => return l
      | none =>
        let l ← c.freshListing site language
        c.keepListing site l
        return l) := by
  refine bind_congr fun found => ?_
  cases found with
  | some l => rfl
  | none => exact (bind_assoc _ _ _).symm

theorem freshListing_withStore (c : ReportClient σ τ) (store : Option (Store σ τ)) (site : Text)
    (language : Option Text) :
    (c.withStore store).freshListing site language = c.freshListing site language := by
  have hkey : FetchOptions.storeKey? {} = none := rfl
  unfold freshListing call
  dsimp only [withStore]
  simp only [Dispatcher.fetch_withStore hkey]

theorem listing_withoutStore (c : ReportClient σ τ) (site : Text) (language : Option Text) :
    (c.withStore none).listing site language = c.freshListing site language := by
  rw [← c.freshListing_withStore none, listing_eq]
  exact bind_pure ((c.withStore none).freshListing site language)

theorem mirrors_freshListing {S : σ → σ → Prop} {past past' : List (Event τ)} :
    Mirrors (Shadows S past past') (c.freshListing site language) := by
  rw [← c.freshListing_withStore none]
  unfold freshListing call Dispatcher.fetch Dispatcher.fetchAll
  refine Pairs.andThen (Pairs.andThen ?_ fun entries => ?_) fun response => ?_
  · exact Dispatcher.mirrors_dispatch nofun _
  · cases entries with
    | nil => exact .throw
    | cons => exact .pure rfl
  · cases ReportListing.ofResponse response with
    | error => exact .throw
    | ok => exact .pure rfl

theorem mirrors_keepListing {past past' : List (Event τ)} (l : ReportListing) :
    Mirrors (Shadows Eq past past') (c.keepListing site l) := by
  unfold keepListing
  split
  · exact .pure rfl
  · rename_i store hstore
    refine (mirrors_writeStore store.takes_eq _ _ _).andThen fun fault? => ?_
    cases fault? with
    | none => exact .pure rfl
    | some fault =>
        dsimp only
        split
        · exact Mirrors.logged _
        · exact .throw

/-- After a stored text that is not readable, the call is as it is without one. -/
theorem asWithout_of_unreadable (hstore : c.dispatcher.store = some s) {entry : LogEntry}
    (hunreadable : Returns (c.storedListing site) w none
      { w.asked s (listingKey site) with
        events := .log entry :: (w.asked s (listingKey site)).events })
    (h : Ends (c.listing site language) w result w') :
    c.dispatcher.AsWithout (listingKey site)
      (fun d => listing { c with dispatcher := d } site language) w result w' := by
  let without := c.withStore (c.dispatcher.store.map (Store.without (listingKey site)))
  have hnothing : Returns (without.storedListing site) w none (w.asked s (listingKey site)) := by
    have hstore' : without.dispatcher.store = some (s.without (listingKey site)) := by
      simp [without, withStore, hstore]
    have hasked : w.asked (s.without (listingKey site)) (listingKey site) =
        w.asked s (listingKey site) := by
      simp [World.asked, Store.without]
    rw [← hasked]
    exact returns_storedListing_none hstore' (by simp [Store.without])
  have hshadows : Shadows Eq w.events w.events
      { w.asked s (listingKey site) with
        events := .log entry :: (w.asked s (listingKey site)).events }
      (w.asked s (listingKey site)) := by
    let logged : List (Event τ) :=
      ((s.get w.now (listingKey site) w.store).log.map Event.log).reverse
    refine ⟨rfl, rfl, rfl, rfl, [.log entry] ++ logged, logged, rfl, rfl, ?_⟩
    rw [deeds_append, deeds_logs]
    rfl
  have hmirrors : Mirrors (Shadows Eq w.events w.events) (do
      let l ← c.freshListing site language
      c.keepListing site l
      return l) :=
    mirrors_freshListing.andThen fun l => (mirrors_keepListing l).andThen fun _ => .pure rfl
  obtain ⟨result', w₁, v', hw, hv, hafter⟩ := hmirrors.ends hshadows
  rw [listing_eq, hunreadable.ends] at h
  obtain ⟨rfl, rfl⟩ := Prod.mk.inj (hw.symm.trans h)
  refine ⟨v', ?_, hafter⟩
  change Ends (without.listing site language) w result' v'
  rw [listing_eq, hnothing.ends]
  dsimp only [without]
  simp only [freshListing_withStore, keepListing_without]
  exact hv

/-- Whatever text a store holds for the listing of a site: a listing that it encodes is returned; the
call fails without asking the server if an integer in it is too long, or if it lists a report that is no
object; and with all other texts the call is as it is without them. The reader of JSON is assumed to have
no limit for the nesting of values. -/
theorem listing_with_stored_text (hstore : c.dispatcher.store = some s)
    (hget : (s.get w.now (listingKey site) w.store).result = .ok (some text))
    (h : Ends (c.listing site language) w result w') :
    (∀ l, Encodes text l → result = .ok l ∧ Still w w' ∧ Quiet w w') ∧
    (∀ failure, Breaks text failure → result = .error failure ∧ Still w w' ∧ Quiet w w') ∧
    ((∀ l, ¬Encodes text l) → (∀ failure, ¬Breaks text failure) →
      c.dispatcher.AsWithout (listingKey site)
        (fun d => listing { c with dispatcher := d } site language) w result w') := by
  have hidle : Idle (c.storedListing site) := within_storedListing
  have hquiet : Within Quiet (c.storedListing site) := within_storedListing
  have hread := ends_storedListing hstore hget
  rw [listing_eq] at h
  refine ⟨fun l hl => ?_, fun failure hfailure => ?_, fun hnone hunbroken => ?_⟩
  · rw [ofText_eq_listing.mpr hl] at hread
    obtain ⟨rfl, rfl⟩ := Prod.mk.inj ((hread.ends.mp h).symm)
    exact ⟨rfl, hidle hread, hquiet hread⟩
  · rw [ofText_eq_failed.mpr hfailure] at hread
    obtain ⟨rfl, rfl⟩ := Prod.mk.inj (h.symm.trans hread.failed)
    exact ⟨rfl, hidle hread, hquiet hread⟩
  · cases htext : StoredListing.ofText text with
    | listing l => exact absurd (ofText_eq_listing.mp htext) (hnone l)
    | failed failure => exact absurd (ofText_eq_failed.mp htext) (hunbroken failure)
    | unreadable reason =>
        rw [htext] at hread
        rw [← listing_eq] at h
        exact asWithout_of_unreadable hstore hread h

def strayClient : ReportClient (MemoryStore Int) Int := ⟨Dispatcher.missingDispatcher, 60⟩

/-- The call for the listing fails because of the number. -/
theorem listing_with_stored_text_stray :
    let key := lit "getConfig.API.getReportMetadata.1"
    let text := lit "\x7b\"reportMetadata\": [1], \"hasMetricTypes\": true\x7d"
    let w : World (MemoryStore Int) Int :=
      ⟨5, 0, 0, ⟨100, [(key, text, 90)], [(key, 0)], 0, 0, 0⟩, []⟩
    strayClient.dispatcher.store = some MemoryStore.store ∧
    (MemoryStore.store.get w.now (listingKey "1") w.store).result = .ok (some text) ∧
    ∃ w', Ends (strayClient.listing "1" none) w (.error (.shape .noFields)) w' := by
  intro key text w
  have hstore : strayClient.dispatcher.store = some MemoryStore.store := rfl
  have hget : (MemoryStore.store.get w.now (listingKey "1") w.store).result = .ok (some text) := by
    decide +kernel
  let stored := Json.object [("reportMetadata", .array [.int 1]), ("hasMetricTypes", .bool true)]
  have hprint : text = stored.print := by decide +kernel
  have hshort : stored.HasShortInts := by
    intro n hn
    have hone : n = 1 := by simpa [stored, Json.parts, Json.partsOfFields, Json.partsOfItems] using hn
    rw [hone]
    exact Nat.one_lt_pow (by decide) (by decide)
  have hbreaks : Breaks text (.shape .noFields) := by
    rw [hprint]
    refine .stray (Json.parse_print hshort) ⟨.array [.int 1], [.int 1], rfl, rfl, ?_⟩
    exact ⟨.int 1, List.mem_singleton_self _, fun _ hint => by cases hint⟩
  obtain ⟨result, w', h⟩ := exists_ends (strayClient.listing "1" none) w
  obtain ⟨rfl, -⟩ := (listing_with_stored_text hstore hget h).2.1 _ hbreaks
  exact ⟨hstore, hget, w', h⟩

end ReportClient
end MetricBridge
