import MetricBridge.Proofs.Dispatch.Dispatching
import MetricBridge.Proofs.Seconds

namespace MetricBridge

open Run

variable {σ τ : Type} {queries : List Text} {query q : Text} {places : List Nat}
  {replies : List (Text × Reply)} {state : RetryState τ} {entries entries' : List Json}
  {w w' : World σ τ}

section Standing

variable [Seconds τ] {received : List Reply}

theorem standingEntry_answered (limit : τ) (h : Answered received) :
    standingEntry received = referenceEntry limit received := by
  obtain ⟨earlier, last, rfl, hlast, hearlier⟩ := h
  obtain ⟨entry, hentry⟩ := Reply.exists_entry hlast
  have hfind : (earlier ++ [last]).find? Reply.isTerminal = some last := by
    rw [List.find?_append, List.find?_eq_none.mpr fun r hr => by simp [hearlier r hr]]
    simp [hlast]
  unfold referenceEntry
  rw [standingEntry_snoc, hfind, hentry]
  simp [hentry]

/-- Without a terminal reply, an error stands and only what is missing is filled in. -/
theorem standingEntry_unanswered (limit : τ) (h : ∀ r ∈ received, r.isTerminal = false) :
    (if Entry.isError (standingEntry received) = false then
        unanswered limit (received.getLast?.map Reply.status)
      else standingEntry received) = referenceEntry limit received := by
  have hfind : received.find? Reply.isTerminal = none :=
    List.find?_eq_none.mpr fun r hr => by simp [h r hr]
  unfold referenceEntry standingEntry
  rw [hfind]
  cases hlast : (received.filterMap Reply.entry?).getLast? with
  | none => exact if_pos rfl
  | some entry =>
      obtain ⟨r, hr, hentry⟩ := List.mem_filterMap.mp (List.mem_of_getLast? hlast)
      have herror : Entry.isError entry = true := Reply.isError_of_not_terminal (h r hr) hentry
      exact if_neg (by simp [herror])

end Standing

namespace Dispatcher

variable [Seconds τ] {d : Dispatcher σ τ}

theorem completeEntries_cons (d : Dispatcher σ τ) (state : RetryState τ)
    (pending : Entries Text (List Nat)) (hplaces : PlacesOf queries query places)
    (hquery : query ∈ queries) (f : Text → Json) :
    d.completeEntries { state with pending := (query, places) :: pending } (queries.map f) =
      d.completeEntries { state with pending := pending } (queries.map fun q =>
        if q = query ∧ Entry.isError (f q) = false then d.unansweredEntry state q else f q) := by
  obtain ⟨i, hhead, hi⟩ := hplaces.exists_head hquery
  have hfound : (places.head?.bind fun place => (queries.map f)[place]?) = some (f query) := by
    rw [hhead, Option.bind_some, List.getElem?_map, hi]
    rfl
  unfold completeEntries
  rw [List.foldl_cons]
  dsimp only
  rw [hfound]
  congr 1
  dsimp only
  split
  · rename_i herror
    refine List.map_congr_left fun q _ => (if_neg ?_).symm
    rintro ⟨rfl, hnone⟩
    rw [herror] at hnone
    cases hnone
  · rename_i herror
    rw [placeEntry_map hplaces]
    refine List.map_congr_left fun q _ => ?_
    by_cases hq : q = query
    · subst hq
      rw [if_pos rfl, if_pos ⟨rfl, Bool.eq_false_iff.mpr herror⟩]
      rfl
    · rw [if_neg hq, if_neg fun h => hq h.1]

theorem completeEntries_map (hnodup : (Entries.keys state.pending).Nodup)
    (hplaces : ∀ p ∈ state.pending, p.1 ∈ queries ∧ PlacesOf queries p.1 p.2) (f : Text → Json) :
    d.completeEntries state (queries.map f) = queries.map fun q =>
      if q ∈ Entries.keys state.pending ∧ Entry.isError (f q) = false then
        d.unansweredEntry state q
      else f q := by
  -- the entry of a query depends on the last statuses only, so the others may be taken away
  obtain ⟨pending, wait, start, rounds, lastStatus⟩ := state
  induction pending generalizing f with
  | nil => exact List.map_congr_left fun q _ => (if_neg fun h => nomatch h.1).symm
  | cons p pending ih =>
      obtain ⟨query, places⟩ := p
      obtain ⟨hquery, hnodup⟩ := List.nodup_cons.mp hnodup
      obtain ⟨hhead, htail⟩ := List.forall_mem_cons.mp hplaces
      have hcons := completeEntries_cons d ⟨pending, wait, start, rounds, lastStatus⟩ pending
        hhead.2 hhead.1 f
      refine hcons.trans ((ih _ hnodup htail).trans (List.map_congr_left fun q _ => ?_))
      dsimp only
      by_cases hq : q = query
      · subst hq
        rw [if_neg fun h => hquery h.1]
        have hmem : q ∈ Entries.keys ((q, places) :: pending) := List.mem_cons_self
        simp only [true_and, hmem]
        rfl
      · have hmem : q ∈ Entries.keys ((query, places) :: pending) ↔ q ∈ Entries.keys pending :=
          ⟨fun h => (List.mem_cons.mp h).resolve_left hq, List.mem_cons_of_mem query⟩
        simp only [hq, false_and, if_false, hmem]
        rfl

theorem unansweredEntry_eq (h : Tracks queries replies state entries) (query : Text) :
    d.unansweredEntry state query = unanswered d.settings.retryLimit
      ((repliesTo query replies).getLast?.map Reply.status) := by
  unfold unansweredEntry unanswered
  rw [h.status]
  cases (repliesTo query replies).getLast? <;> rfl

theorem completeEntries_eq (h : Tracks queries replies state entries) :
    d.completeEntries state entries =
      queries.map fun q => referenceEntry d.settings.retryLimit (repliesTo q replies) := by
  have hplaces : ∀ p ∈ state.pending, p.1 ∈ queries ∧ PlacesOf queries p.1 p.2 := fun p hp =>
    ⟨h.mem (List.mem_map_of_mem hp), h.places (Entries.find?_of_mem h.nodup hp)⟩
  rw [h.entries_eq, completeEntries_map h.nodup hplaces]
  refine List.map_congr_left fun q hq => ?_
  by_cases hkey : q ∈ Entries.keys state.pending
  · rw [← standingEntry_unanswered d.settings.retryLimit (h.unanswered hkey), unansweredEntry_eq h]
    simp only [hkey, true_and]
  · rw [if_neg fun h => hkey h.1, standingEntry_answered d.settings.retryLimit (h.answered hq hkey)]

variable {requests : List Request} {options : FetchOptions}

theorem length_completeEntries {target : Target} {start : τ}
    (h : Returns (d.allRounds requests options target start) w (state, entries) w') :
    (d.completeEntries state entries).length = requests.length := by
  unfold allRounds queries at h
  rw [← List.length_map (Request.query d.settings.sourceName)] at h
  obtain ⟨sent, -, htracks, -, -⟩ := tracks_rounds h (tracks_initial _ _ _)
  rw [completeEntries_eq htracks, List.length_map, List.length_map]

theorem length_gather (h : Returns (d.gather requests options) w entries w') :
    entries.length = requests.length := by
  obtain ⟨target, _, w₁, state, entries₁, w₂, -, -, hrounds, rfl, -⟩ := returns_gather h
  exact length_completeEntries hrounds

theorem length_dispatch (h : Returns (d.dispatch requests options) w entries w') :
    entries.length = requests.length := by
  obtain ⟨target, _, w₁, state, entries₁, w₂, -, -, hrounds, rfl, -⟩ := returns_dispatch h
  exact length_completeEntries hrounds

/-- The entries that a call fetches are those of the reference: one for each request, in order, that
depends only on the replies to its query. No reply to a query follows a terminal one, and a query
without a terminal one is asked in every batch, of which there is one at least. -/
theorem fetchAll_meets_reference (hstore : options.storeKey? = none)
    (h : Returns (d.fetchAll requests options) w entries w') :
    ∃ sent replies, Sends w sent w' ∧ replies = conversation d.fetcher w.fetches sent ∧
      entries.length = requests.length ∧
      (entries = requests.map fun request => referenceEntry d.settings.retryLimit
        (repliesTo (request.query d.settings.sourceName) replies)) ∧
      (requests ≠ [] → sent ≠ []) ∧
      ∀ query ∈ requests.map (Request.query d.settings.sourceName),
        (∀ r ∈ (repliesTo query replies).dropLast, r.isTerminal = false) ∧
        ((∀ r ∈ repliesTo query replies, r.isTerminal = false) →
          ∀ batch ∈ sent, query ∈ batch.map (·.query)) := by
  have hdispatch : Returns (d.dispatch requests options) w entries w' := by
    unfold fetchAll at h
    rwa [hstore] at h
  obtain ⟨target, _, w₁, state, entries₁, w₂, -, hstill, hrounds, rfl, hrest⟩ :=
    returns_dispatch hdispatch
  have hstart : Sends w [] w₁ := hstill.sends
  have hend : Sends w₂ [] w' := hrest.sends
  unfold allRounds queries at hrounds
  rw [← List.length_map (Request.query d.settings.sourceName)] at hrounds
  obtain ⟨sent, hsends, htracks, hround, hasked⟩ := tracks_rounds hrounds (tracks_initial _ _ _)
  rw [List.nil_append, hstart.fetches_eq] at htracks
  have hentries := completeEntries_eq htracks (d := d)
  rw [List.map_map] at hentries
  have hall := hstart.trans (hsends.trans hend)
  rw [List.append_nil] at hall
  refine ⟨sent, _, hall, rfl, ?_, hentries, fun hrequests hsent => ?_, fun query hquery => ?_⟩
  · rw [hentries, List.length_map]
  · rcases hround hsent with hdone | hrounds
    · exact hrequests (List.map_eq_nil_iff.mp (eq_nil_of_isDone_initial hdone))
    · exact absurd hrounds (Nat.lt_irrefl 0)
  · exact ⟨htracks.terminal_last hquery,
      fun hopen => hasked query (htracks.mem_keys_of_open hquery hopen)⟩

def unsteadyFetcher : Fetcher Int
  | 0, _ => ⟨10, .error ⟨"Exception", "DNS error"⟩⟩
  | 1, _ => ⟨10, .ok [⟨503, none⟩,
      ⟨200, some "\x7b\"result\": \"error\", \"message\": \"busy\"\x7d"⟩, ⟨503, none⟩]⟩
  | _, _ => ⟨10, .ok [⟨200, some "[]"⟩, ⟨503, none⟩, ⟨404, none⟩, ⟨503, none⟩, ⟨200, none⟩]⟩

def unsteadyDispatcher : Dispatcher Unit Int where
  settings := ⟨30, 1, 8, 0, "agent", [], "source"⟩
  fetcher := unsteadyFetcher
  store := none
  credentials := none
  maxRounds := 10

def visitsOf (site : Text) : Request := ⟨"VisitsSummary.get", [(lit "idSite", .text site)]⟩

/-- Two requests share a query; one is answered late, one gets an error that stands, one fails and
one gets no entry. -/
theorem fetchAll_meets_reference_unsteady :
    let requests := [visitsOf "1", visitsOf "2", visitsOf "1", visitsOf "3", visitsOf "4"]
    let options : FetchOptions := { address := some "https://matomo.example.com" }
    let world : World Unit Int := ⟨0, 0, 0, (), []⟩
    ∃ entries w', Returns (unsteadyDispatcher.fetchAll requests options) world entries w' ∧
      ∃ sent replies, Sends world sent w' ∧ replies = conversation unsteadyFetcher 0 sent ∧
        entries.length = 5 ∧
        (entries = requests.map fun request => referenceEntry (30 : Int)
          (repliesTo (request.query "source") replies)) ∧
        (requests ≠ [] → sent ≠ []) ∧
        ∀ query ∈ requests.map (Request.query "source"),
          (∀ r ∈ (repliesTo query replies).dropLast, r.isTerminal = false) ∧
          ((∀ r ∈ repliesTo query replies, r.isTerminal = false) →
            ∀ batch ∈ sent, query ∈ batch.map (·.query)) := by
  intro requests options world
  have hok : (StateT.run (ExceptT.run (unsteadyDispatcher.fetchAll requests options))
      world).1.isOk = true := by decide +kernel
  obtain ⟨entries, w', h⟩ := exists_returns hok
  exact ⟨entries, w', h, fetchAll_meets_reference rfl h⟩

end Dispatcher
end MetricBridge
