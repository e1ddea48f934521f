import MetricBridge.Proofs.Report.ReadBack
import MetricBridge.Proofs.Store.Origins

namespace MetricBridge

open Run

namespace StoreChoice

theorem exists_get {choice : StoreChoice} {y : choice.State} (h : choice.InOrder y) (now : Float)
    (key : Text) : ∃ found, (choice.store.get now key y).result = .ok found := by
  cases choice with
  | disk folder =>
      obtain ⟨entries, log, hload⟩ := h.loads
      exact ⟨_, (DiskStore.get_eq now key y).2 entries log hload⟩
  | memory capacity => exact ⟨_, MemoryStore.result_get now key y⟩

end StoreChoice

namespace ReportClient

section Step

variable {σ τ : Type} [Seconds τ] {c : ReportClient σ τ} {site : Text} {language : Option Text}
  {s : Store σ τ} {w w' : World σ τ} {result : Except Failure ReportListing}

theorem ends_freshListing_asked (s : Store σ τ) (key : Text)
    (h : Ends (c.freshListing site language) w result w') : ∃ w₁,
      Ends (c.freshListing site language) (w.asked s key) result w₁ ∧
        w₁.store = (w.asked s key).store := by
  -- the relation between the stores of the two runs may be any, so it may be this one
  have hstart : Shadows (fun y _ => y = (w.asked s key).store) w.events w.events (w.asked s key) w := by
    refine ⟨rfl, rfl, rfl, rfl, ((s.get w.now key w.store).log.map Event.log).reverse, [], rfl, rfl, ?_⟩
    rw [deeds_logs]
    rfl
  obtain ⟨_, w₁, _, hasked, hplain, hafter⟩ := (mirrors_freshListing (c := c)).ends hstart
  obtain ⟨rfl, -⟩ := Prod.mk.inj (h.symm.trans hplain)
  exact ⟨w₁, hasked, hafter.store⟩

theorem returns_keepListing (hstore : c.dispatcher.store = some s) {l : ReportListing}
    (hput : (s.put w.now (listingKey site) l.toJson.print listingTtl w.store).result = .ok ()) :
    ∃ w', Returns (c.keepListing site l) w () w' ∧
      w'.store = (s.put w.now (listingKey site) l.toJson.print listingTtl w.store).state := by
  have hwrite : Returns (writeStore s (listingKey site) l.toJson.print listingTtl) w _ _ :=
    returns_writeStore rfl
  rw [hput] at hwrite
  unfold keepListing
  rw [hstore]
  exact ⟨_, hwrite.ends.mpr rfl, rfl⟩

end Step

structure Asking (σ τ : Type) where
  site : Text
  language : Option Text
  world : World σ τ

/-- Calls one after the other, the last one first. Between them anything may change but the store. -/
inductive Calls {σ τ : Type} [Seconds τ] (c : ReportClient σ τ) (start : World σ τ) :
    List (Asking σ τ) → World σ τ → Prop
  | none : Calls c start [] start
  | call {past : List (Asking σ τ)} {w w' : World σ τ} {a : Asking σ τ}
      {result : Except Failure ReportListing} (before : Calls c start past w)
      (kept : a.world.store = w.store) (ends : Ends (c.listing a.site a.language) a.world result w') :
      Calls c start (a :: past) w'

/-- Without a store the call has the result that belongs to its site and language. -/
def Asking.Told {σ τ : Type} [Seconds τ] (c : ReportClient σ τ)
    (fresh : Text → Option Text → Except Failure ReportListing) (a : Asking σ τ) : Prop :=
  ∃ w', Ends ((c.withStore none).listing a.site a.language) a.world (fresh a.site a.language) w'

def Kept {σ τ : Type} (fresh : Text → Option Text → Except Failure ReportListing)
    (past : List (Asking σ τ)) (key text : Text) : Prop :=
  ∃ a ∈ past, key = listingKey a.site ∧ ∃ l, fresh a.site a.language = .ok l ∧ text = l.toJson.print

section Choice

variable {choice : StoreChoice} {c : ReportClient choice.State Float}
  {fresh : Text → Option Text → Except Failure ReportListing}
  {past : List (Asking choice.State Float)} {a : Asking choice.State Float}
  {start w w' : World choice.State Float} {result : Except Failure ReportListing}

theorem returns_keepListing_kept {site : Text} {l : ReportListing} {P : Text → Text → Prop}
    (hstore : c.dispatcher.store = some choice.store) (hadmits : choice.Admits (listingKey site))
    (horder : choice.InOrder w.store) (honly : choice.Only P w.store)
    (hkept : P (listingKey site) l.toJson.print) :
    ∃ w', Returns (c.keepListing site l) w () w' ∧ choice.InOrder w'.store ∧ choice.Only P w'.store := by
  have hkeeps := StoreChoice.keeps hadmits
  have hput : (choice.store.put w.now (listingKey site) l.toJson.print listingTtl w.store).result =
      .ok () := by
    refine (hkeeps.result_put horder).trans (if_pos (.inr ?_))
    decide +kernel
  obtain ⟨w', hkeep, hstored⟩ := returns_keepListing hstore hput
  have hjoined : l.toJson.print.IsJoined := (Json.isPlain_print _).noSurrogate.isJoined
  refine ⟨w', hkeep, ?_, ?_⟩ <;> rw [hstored]
  · exact hkeeps.inOrder_put horder
  · exact StoreChoice.only_put honly horder hadmits hjoined hkept _ _

/-- While the store holds listings of earlier calls, the next one returns one of them or asks the server,
and the store holds such listings afterwards. -/
theorem ends_listing_kept (hstore : c.dispatcher.store = some choice.store) (htold : a.Told c fresh)
    (hadmits : choice.Admits (listingKey a.site)) (horder : choice.InOrder a.world.store)
    (honly : choice.Only (Kept fresh past) a.world.store)
    (h : Ends (c.listing a.site a.language) a.world result w') :
    (match (choice.store.get a.world.now (listingKey a.site) a.world.store).result with
      | .ok (some _) => ∃ b ∈ past, b.site = a.site ∧ ∃ l,
          fresh a.site b.language = .ok l ∧ result = .ok l.reread ∧ Still a.world w'
      | _ => result = fresh a.site a.language) ∧
    choice.InOrder w'.store ∧ choice.Only (Kept fresh (a :: past)) w'.store := by
  have hmono : ∀ key text, Kept fresh past key text → Kept fresh (a :: past) key text :=
    fun _ _ ⟨b, hb, hkept⟩ => ⟨b, List.mem_cons_of_mem _ hb, hkept⟩
  have horder' : choice.InOrder (a.world.asked choice.store (listingKey a.site)).store :=
    (StoreChoice.keeps hadmits).inOrder_get horder
  have honly' : choice.Only (Kept fresh (a :: past))
      (a.world.asked choice.store (listingKey a.site)).store :=
    (StoreChoice.only_get honly _ _).mono hmono
  obtain ⟨found, hget⟩ := StoreChoice.exists_get horder a.world.now (listingKey a.site)
  rw [hget]
  rw [listing_eq] at h
  cases found with
  | some text =>
      obtain ⟨b, hb, hkey, l, hl, rfl⟩ := honly.found hget
      have hsite : a.site = b.site := List.append_cancel_left hkey
      have hread := ends_storedListing hstore hget
      rw [ofText_eq_listing.mpr (encodes_print l)] at hread
      have hidle : Idle (c.storedListing a.site) := within_storedListing
      obtain ⟨rfl, rfl⟩ := Prod.mk.inj ((hread.ends.mp h).symm)
      exact ⟨⟨b, hb, hsite.symm, l, hsite ▸ hl, rfl, hidle hread⟩, horder', honly'⟩
  | none =>
      dsimp only
      rw [(returns_storedListing_none hstore hget).ends] at h
      obtain ⟨v, hfresh⟩ := htold
      rw [listing_withoutStore] at hfresh
      obtain ⟨w₁, hasked, hretained⟩ :=
        ends_freshListing_asked choice.store (listingKey a.site) hfresh
      rw [← hretained] at horder' honly'
      cases hlisting : fresh a.site a.language with
      | error failure =>
          rw [hlisting] at hasked
          obtain ⟨rfl, rfl⟩ := Prod.mk.inj (h.symm.trans hasked.failed)
          exact ⟨rfl, horder', honly'⟩
      | ok l =>
          rw [hlisting] at hasked
          have hreturns : Returns (c.freshListing a.site a.language) _ l w₁ := hasked
          have hkept : Kept fresh (a :: past) (listingKey a.site) l.toJson.print :=
            ⟨a, List.mem_cons_self, rfl, l, hlisting, rfl⟩
          obtain ⟨w₂, hkeep, hheld⟩ := returns_keepListing_kept hstore hadmits horder' honly' hkept
          rw [hreturns.ends, hkeep.ends] at h
          cases h
          exact ⟨rfl, hheld⟩

theorem Calls.kept (h : Calls c start past w) (hstore : c.dispatcher.store = some choice.store)
    (hadmits : ∀ b ∈ past, choice.Admits (listingKey b.site)) (htold : ∀ b ∈ past, b.Told c fresh)
    (horder : choice.InOrder start.store) (hempty : choice.Only (fun _ _ => False) start.store) :
    choice.InOrder w.store ∧ choice.Only (Kept fresh past) w.store := by
  induction h with
  | none => exact ⟨horder, hempty.mono fun _ _ => False.elim⟩
  | call before kept ends ih =>
      obtain ⟨hadmits, hpast⟩ := List.forall_mem_cons.mp hadmits
      obtain ⟨htold, htoldPast⟩ := List.forall_mem_cons.mp htold
      obtain ⟨horder, honly⟩ := ih hpast htoldPast
      rw [← kept] at horder honly
      exact (ends_listing_kept hstore htold hadmits horder honly ends).2

/-- After any calls that began with an empty store, a call for a listing returns what the server has for
its site and language if the store finds nothing for the site. If it finds something, the call returns
what the server had for the site and the language of an earlier call. So it returns the listing that it
would without a store if the site was asked in one language only. -/
theorem listing_after_calls (hstore : c.dispatcher.store = some choice.store)
    (horder : choice.InOrder start.store) (hempty : choice.Only (fun _ _ => False) start.store)
    (hcalls : Calls c start past w) (hkept : a.world.store = w.store)
    (hadmits : ∀ b ∈ a :: past, choice.Admits (listingKey b.site))
    (htold : ∀ b ∈ a :: past, b.Told c fresh)
    (h : Ends (c.listing a.site a.language) a.world result w') :
    (match (choice.store.get a.world.now (listingKey a.site) a.world.store).result with
      | .ok (some _) => ∃ b ∈ past, b.site = a.site ∧ ∃ l,
          fresh a.site b.language = .ok l ∧ result = .ok l.reread ∧ Still a.world w'
      | _ => result = fresh a.site a.language) ∧
    ((∀ b ∈ past, b.site = a.site → fresh a.site b.language = fresh a.site a.language) →
      (∀ l, fresh a.site a.language = .ok l → l.reread = l) →
      result = fresh a.site a.language) := by
  obtain ⟨hadmits, hpast⟩ := List.forall_mem_cons.mp hadmits
  obtain ⟨htold, htoldPast⟩ := List.forall_mem_cons.mp htold
  obtain ⟨horder, honly⟩ := hcalls.kept hstore hpast htoldPast horder hempty
  rw [← hkept] at horder honly
  have hresult := (ends_listing_kept hstore htold hadmits horder honly h).1
  refine ⟨hresult, fun hlanguage hjoined => ?_⟩
  split at hresult
  · obtain ⟨b, hb, hsite, l, hl, hreread, -⟩ := hresult
    rw [hlanguage b hb hsite] at hl
    rw [hreread, hjoined l hl, hl]
  · exact hresult

end Choice

def visits (name : Text) : ReportListing := ⟨[⟨"VisitsSummary", "get", "", name, none⟩], false⟩

def bilingualClient : ReportClient (MemoryStore Float) Float where
  dispatcher := {
    settings := ⟨30, 2, 6, 0, "agent", [], "source"⟩
    fetcher := fun _ batch => ⟨0, .ok (batch.map fun request => ⟨200, some (
      lit "[\x7b\"module\": \"VisitsSummary\", \"action\": \"get\", \"metrics\": [1], \"name\": \"" ++
      (if lit "language=de" <:+: request.query then "Besuche" else "Visits") ++ lit "\"\x7d]")⟩)⟩
    store := some MemoryStore.store
    credentials := some (.fixed (some "https://matomo.example.com") none)
    maxRounds := 10 }
  configTtl := 60

/-- The call in another language gets the listing of the first call. -/
theorem listing_after_calls_bilingual :
    let w : World (MemoryStore Float) Float := ⟨1000, 1000, 0, .empty 100, []⟩
    ∃ w' w₁ w'', Ends (bilingualClient.listing "1" (some "en")) w (.ok (visits "Visits")) w' ∧
      Ends ((bilingualClient.withStore none).listing "1" (some "de")) w' (.ok (visits "Besuche")) w₁ ∧
      Ends (bilingualClient.listing "1" (some "de")) w' (.ok (visits "Visits")) w'' := by
  intro w
  let fresh : Text → Option Text → Except Failure ReportListing := fun _ language =>
    .ok (visits (if language = some (lit "de") then "Besuche" else "Visits"))
  obtain ⟨_, w', hfirst, hchecked⟩ := returns_of_check (x := bilingualClient.listing "1" (some "en"))
    (w := w) (p := fun l w' => decide (l = visits "Visits") &&
      check ((bilingualClient.withStore none).listing "1" (some "de")) w'
        (fun l _ => decide (l = visits "Besuche")) &&
      ((StoreChoice.memory 100).store.get w'.now (listingKey "1") w'.store).result.toOption.join.isSome)
    (by decide +kernel)
  rw [Bool.and_eq_true, Bool.and_eq_true, decide_eq_true_eq] at hchecked
  obtain ⟨⟨rfl, hgerman⟩, hfound⟩ := hchecked
  obtain ⟨_, w₁, hgerman, hl⟩ := returns_of_check hgerman
  obtain rfl := of_decide_eq_true hl
  obtain ⟨_, w₂, henglish, hl⟩ := returns_of_check
    (x := (bilingualClient.withStore none).listing "1" (some "en")) (w := w)
    (p := fun l _ => decide (l = visits "Visits")) (by decide +kernel)
  obtain rfl := of_decide_eq_true hl
  let first : Asking (MemoryStore Float) Float := ⟨"1", some "en", w⟩
  let second : Asking (MemoryStore Float) Float := ⟨"1", some "de", w'⟩
  have htold : ∀ b ∈ [second, first], b.Told bilingualClient fresh :=
    List.forall_mem_cons.mpr ⟨⟨w₁, hgerman⟩, List.forall_mem_singleton.mpr ⟨w₂, henglish⟩⟩
  obtain ⟨result, w'', hsecond⟩ := exists_ends (bilingualClient.listing "1" (some "de")) w'
  have horder : (StoreChoice.memory 100).InOrder w.store := List.nodup_nil
  have hempty : (StoreChoice.memory 100).Only (fun _ _ => False) w.store :=
    fun _ he => absurd he List.not_mem_nil
  obtain ⟨hresult, -⟩ := @listing_after_calls (.memory 100) bilingualClient fresh _ second _ _ _ _
    rfl horder hempty (.call (a := first) .none rfl hfirst) rfl (fun _ _ => trivial) htold hsecond
  rcases hstored : ((StoreChoice.memory 100).store.get w'.now (listingKey "1") w'.store).result
    with fault | _ | text
  · rw [hstored] at hfound
    cases hfound
  · rw [hstored] at hfound
    cases hfound
  · rw [hstored] at hresult
    obtain ⟨b, hb, -, l, hl, rfl, -⟩ := hresult
    obtain rfl := List.mem_singleton.mp hb
    cases hl
    exact ⟨w', w₁, w'', hfirst, hgerman, hsecond⟩

end ReportClient
end MetricBridge
