import MetricBridge.Proofs.Dispatch.Stages
import MetricBridge.Proofs.Seconds

namespace MetricBridge

open Run

variable {σ τ : Type} {queries : List Text} {query q : Text} {reply : Reply}
  {replies pairs : List (Text × Reply)} {state state' : RetryState τ} {entries entries' : List Json}
  {places : List Nat} {w w' : World σ τ}

/-- The queries without a terminal reply, each once, in the order in which they first occur. -/
def openQueries (queries : List Text) (replies : List (Text × Reply)) : List Text :=
  queries.eraseDups.filter (IsOpen replies)

theorem mem_openQueries : q ∈ openQueries queries replies ↔ q ∈ queries ∧ IsOpen replies q := by
  simp [openQueries]

theorem isOpen_singleton :
    IsOpen [(query, reply)] q ↔ (query = q → reply.isTerminal = false) := by
  unfold IsOpen repliesTo
  by_cases hq : query = q <;> simp [hq]

theorem openQueries_append (more : List (Text × Reply)) : openQueries queries (replies ++ more) =
    (openQueries queries replies).filter (IsOpen more) := by
  unfold openQueries
  rw [List.filter_filter]
  refine List.filter_congr fun q _ => ?_
  simp only [isOpen_append, Bool.decide_and, Bool.and_comm]

structure Keeps (queries : List Text) (replies : List (Text × Reply)) (state : RetryState τ) :
    Prop where
  keys : Entries.keys state.pending = openQueries queries replies
  places : ∀ {q places}, Entries.find? q state.pending = some places →
    Entries.find? q (RetryState.placesFrom 0 [] queries) = some places

theorem keeps_initial (queries : List Text) (wait start : τ) :
    Keeps queries [] (RetryState.initial queries wait start) where
  keys := by
    have hopen : openQueries queries [] = queries.eraseDups := List.filter_eq_self.mpr fun q _ =>
      decide_eq_true (nofun : IsOpen [] q)
    rw [hopen]
    exact keys_placesFrom_nil queries
  places := id

namespace Keeps

theorem nodup (h : Keeps queries replies state) : (Entries.keys state.pending).Nodup := by
  rw [h.keys]
  exact (nodup_eraseDups queries).filter _

theorem after (h : Keeps queries replies state) (query : Text) (reply : Reply) :
    Keeps queries (replies ++ [(query, reply)]) (state.after query reply) := by
  have hopen : openQueries queries (replies ++ [(query, reply)]) = _ := openQueries_append _
  unfold RetryState.after
  by_cases ht : reply.isTerminal = true
  · simp only [ht, if_true]
    constructor
    · rw [Entries.keys_erase_eq_filter h.nodup, h.keys, hopen]
      refine List.filter_congr fun q _ => ?_
      simp [isOpen_singleton, ht, eq_comm]
    · intro q places hfind
      have hq := (Entries.mem_keys_erase h.nodup).mp (Entries.mem_keys_iff.mpr ⟨places, hfind⟩)
      rw [Entries.find?_erase_of_ne (Ne.symm hq.1)] at hfind
      exact h.places hfind
  · simp only [ht]
    refine ⟨h.keys.trans ?_, h.places⟩
    rw [hopen]
    refine (List.filter_eq_self.mpr fun q _ => ?_).symm
    simp [isOpen_singleton, ht]

theorem afterAll (h : Keeps queries replies state) (pairs : List (Text × Reply)) :
    Keeps queries (replies ++ pairs) (state.afterAll pairs) := by
  induction pairs generalizing replies state with
  | nil => rwa [List.append_nil]
  | cons pair pairs ih =>
      rw [List.append_cons]
      exact ih (h.after pair.1 pair.2)

theorem congr (h : Keeps queries replies state) (hpending : state'.pending = state.pending) :
    Keeps queries replies state' := by
  constructor
  · rw [hpending]
    exact h.keys
  · rw [hpending]
    exact h.places

end Keeps

/-- Each batch asks what the replies to the batches before it leave open. -/
def AsksOpen (fetcher : Fetcher τ) (queries : List Text) (number : Nat)
    (replies : List (Text × Reply)) (sent : List (List FetchRequest)) : Prop :=
  ∀ n batch, sent[n]? = some batch → batch.map (·.query) =
    openQueries queries (replies ++ conversation fetcher number (sent.take n))

namespace AsksOpen

variable {fetcher : Fetcher τ} {number : Nat} {batch : List FetchRequest}
  {sent more : List (List FetchRequest)}

theorem nil : AsksOpen fetcher queries number replies [] := nofun

theorem cons (hbatch : batch.map (·.query) = openQueries queries replies)
    (h : AsksOpen fetcher queries (number + 1) (replies ++ answers fetcher number batch) more) :
    AsksOpen fetcher queries number replies (batch :: more) := by
  intro n asked hasked
  cases n with
  | zero =>
      cases hasked
      exact hbatch.trans (congrArg _ (List.append_nil replies).symm)
  | succ n =>
      rw [h n asked hasked, List.append_assoc]
      rfl

end AsksOpen

variable [Seconds τ] {d : Dispatcher σ τ} {options : FetchOptions} {target : Dispatcher.Target}

open Dispatcher

theorem asksOpen_rounds {fuel : Nat} {result : Except Failure (RetryState τ × List Json)}
    (h : Ends (d.rounds options target fuel state entries) w result w')
    (hkeeps : Keeps queries replies state) :
    ∃ sent, Sends w sent w' ∧ AsksOpen d.fetcher queries w.fetches replies sent := by
  induction fuel generalizing state entries replies w with
  | zero =>
      cases h
      exact ⟨[], (Still.refl _).sends, .nil⟩
  | succ fuel ih =>
      have hbatch : (target.batch state).map (·.query) = openQueries queries replies := by
        rw [batch_queries, hkeeps.keys]
      obtain hstill | ⟨failure, hround⟩ | ⟨state₁, entries₁, w₁, hround, h⟩ := ends_rounds h
      · exact ⟨[], hstill.sends, .nil⟩
      · obtain hstill | hsent := round_fails hround
        · exact ⟨[], hstill.sends, .nil⟩
        · exact ⟨_, hsent.sends, .cons hbatch .nil⟩
      · obtain ⟨-, -, rfl, helapses⟩ := returns_round hround
        have hsends := helapses.sends
        rw [batchesOf_pause] at hsends
        obtain ⟨more, hmore, hasks⟩ := ih h ((hkeeps.afterAll _).congr rfl)
        rw [hsends.fetches_eq] at hasks
        exact ⟨_, hsends.trans hmore, .cons hbatch hasks⟩

structure OnTheWire (fetcher : Fetcher τ) (number : Nat) (queries : List Text)
    (sent : List (List FetchRequest)) : Prop where
  first : ∀ batch, sent.head? = some batch → batch.map (·.query) = queries.eraseDups
  shrinks : sent.IsChain fun batch next => (next.map (·.query)).Sublist (batch.map (·.query))
  nodup : ∀ batch ∈ sent, (batch.map (·.query)).Nodup
  asked : ∀ n batch, sent[n]? = some batch → ∀ query, query ∈ batch.map (·.query) ↔
    query ∈ queries ∧ IsOpen (conversation fetcher number (sent.take n)) query

omit [Seconds τ] in
theorem AsksOpen.onTheWire {fetcher : Fetcher τ} {number : Nat} {sent : List (List FetchRequest)}
    (h : AsksOpen fetcher queries number [] sent) : OnTheWire fetcher number queries sent where
  first batch hbatch := by
    rw [List.head?_eq_getElem?] at hbatch
    rw [h 0 batch hbatch]
    exact List.filter_eq_self.mpr fun q _ => decide_eq_true (nofun : IsOpen [] q)
  shrinks := by
    rw [List.isChain_iff_getElem]
    intro n hn
    rw [h n _ (List.getElem?_eq_getElem (Nat.lt_of_succ_lt hn)),
      h (n + 1) _ (List.getElem?_eq_getElem hn), List.take_succ_eq_append_getElem
        (Nat.lt_of_succ_lt hn), conversation_append, ← List.append_assoc, openQueries_append]
    exact List.filter_sublist
  nodup batch hbatch := by
    obtain ⟨n, hn⟩ := List.mem_iff_getElem?.mp hbatch
    rw [h n batch hn]
    exact (nodup_eraseDups queries).filter _
  asked n batch hbatch query := by
    rw [h n batch hbatch]
    exact mem_openQueries

structure Allotted (queries : List Text) (replies : List (Text × Reply)) (state : RetryState τ) :
    Prop where
  pending : ∀ q, q ∈ Entries.keys state.pending ↔ q ∈ queries ∧ IsOpen replies q
  original : ∀ {q places}, Entries.find? q state.pending = some places →
    Entries.find? q (RetryState.initial queries state.wait state.start).pending = some places
  nonempty : ∀ {q places}, Entries.find? q state.pending = some places → places ≠ []
  disjoint : ∀ {q places q' places'}, Entries.find? q state.pending = some places →
    Entries.find? q' state.pending = some places' → q ≠ q' → places.Disjoint places'
  covers : ∀ {i q}, queries[i]? = some q → IsOpen replies q →
    ∃ places, Entries.find? q state.pending = some places ∧ i ∈ places

namespace Keeps

omit [Seconds τ]

theorem placesOf (h : Keeps queries replies state)
    (hfind : Entries.find? q state.pending = some places) : PlacesOf queries q places :=
  (placed_initial queries state.wait state.start).places (h.places hfind)

theorem exists_places (h : Keeps queries replies state) (hq : q ∈ queries)
    (hopen : IsOpen replies q) : ∃ place places,
      Entries.find? q state.pending = some (place :: places) ∧ queries[place]? = some q := by
  have hkey : q ∈ Entries.keys state.pending := by
    rw [h.keys]
    exact mem_openQueries.mpr ⟨hq, hopen⟩
  obtain ⟨places, hfind⟩ := Entries.mem_keys_iff.mp hkey
  obtain ⟨place, hhead, hplace⟩ := (h.placesOf hfind).exists_head hq
  cases places with
  | nil => cases hhead
  | cons first places =>
      cases hhead
      exact ⟨place, places, hfind, hplace⟩

theorem allotted (h : Keeps queries replies state) : Allotted queries replies state where
  pending q := by rw [h.keys, mem_openQueries]
  original := h.places
  nonempty := by
    rintro q places hfind rfl
    have hkey : q ∈ Entries.keys state.pending := Entries.mem_keys_iff.mpr ⟨[], hfind⟩
    rw [h.keys, mem_openQueries] at hkey
    obtain ⟨i, hi⟩ := List.mem_iff_getElem?.mp hkey.1
    exact absurd ((h.placesOf hfind i).mpr hi) List.not_mem_nil
  disjoint := by
    intro q places q' places' hfind hfind' hne i hi hi'
    have hq := (h.placesOf hfind i).mp hi
    have hq' := (h.placesOf hfind' i).mp hi'
    exact hne (Option.some.inj (hq.symm.trans hq'))
  covers := by
    intro i q hi hopen
    obtain ⟨place, places, hfind, -⟩ := h.exists_places (List.mem_of_getElem? hi) hopen
    exact ⟨_, hfind, (h.placesOf hfind i).mpr hi⟩

end Keeps

namespace Dispatcher

variable {requests : List Request} {w₀ : World σ τ} {a b : Stage σ τ}

inductive Passes (d : Dispatcher σ τ) (requests : List Request) (options : FetchOptions)
    (target : Target) (w₀ : World σ τ) : Stage σ τ → Prop
  | first {w : World σ τ} (still : Still w₀ w) :
      Passes d requests options target w₀ (.first d requests w₀.now w)
  | turn {a b : Stage σ τ} (passes : Passes d requests options target w₀ a)
      (turns : a.Turns d options target b) : Passes d requests options target w₀ b

theorem Passes.runs {fuel : Nat} (h : Passes d requests options target w₀ a)
    (hruns : a.Runs d options target fuel b) : Passes d requests options target w₀ b := by
  induction hruns with
  | stop => exact h
  | turn turns _ ih => exact ih (h.turn turns)

theorem Passes.keeps (h : Passes d requests options target w₀ a) :
    Keeps (d.queries requests) a.replies a.state := by
  induction h with
  | first => exact keeps_initial _ _ _
  | turn _ turns ih =>
      obtain ⟨-, -, hstate, -⟩ := returns_round turns.returns
      rw [turns.replies, hstate]
      exact (ih.afterAll _).congr rfl

theorem Passes.tracks (h : Passes d requests options target w₀ a) :
    Tracks (d.queries requests) a.replies a.state a.entries := by
  induction h with
  | first => exact Stage.tracks_first _ _ _ _
  | turn _ turns ih => exact turns.tracks ih

/-- What is looked up in a round and after the last one is there. -/
structure LooksUp (d : Dispatcher σ τ) (target : Target) (queries : List Text) (a : Stage σ τ) :
    Prop where
  reply : ∀ taken query reply rest,
    answers d.fetcher a.world.fetches (target.batch a.state) = taken ++ (query, reply) :: rest →
      Allotted queries (a.replies ++ taken) (a.state.afterAll taken) ∧
      ∃ place places, Entries.find? query (a.state.afterAll taken).pending = some (place :: places)
  entry : ∀ p ∈ a.state.pending,
    ∃ place entry, p.2.head? = some place ∧ a.entries[place]? = some entry

theorem Passes.looksUp (h : Passes d requests options target w₀ a) :
    LooksUp d target (d.queries requests) a where
  reply taken query reply rest hanswers := by
    have hkeeps := h.keeps.afterAll taken
    refine ⟨hkeeps.allotted, ?_⟩
    have hasked := answers_sublist d.fetcher a.world.fetches (target.batch a.state)
    rw [hanswers, batch_queries, List.map_append, List.map_cons] at hasked
    have hkey : query ∈ Entries.keys a.state.pending :=
      hasked.subset (List.mem_append_right _ List.mem_cons_self)
    rw [h.keeps.keys, mem_openQueries] at hkey
    -- no query is answered twice in a round
    have hnew : query ∉ taken.map Prod.fst := fun htaken =>
      (List.nodup_append.mp (h.keeps.nodup.sublist hasked)).2.2 query htaken query
        List.mem_cons_self rfl
    have hopen : IsOpen (a.replies ++ taken) query := by
      refine isOpen_append.mpr ⟨hkey.2, ?_⟩
      unfold IsOpen
      rw [repliesTo_eq_nil hnew]
      nofun
    obtain ⟨place, places, hfind, -⟩ := hkeeps.exists_places hkey.1 hopen
    exact ⟨place, places, hfind⟩
  entry p hp := by
    have hfind := Entries.find?_of_mem h.keeps.nodup hp
    have hkey : p.1 ∈ Entries.keys a.state.pending := List.mem_map_of_mem hp
    rw [h.keeps.keys, mem_openQueries] at hkey
    obtain ⟨place, hhead, hplace⟩ := (h.keeps.placesOf hfind).exists_head hkey.1
    refine ⟨place, standingEntry (repliesTo p.1 a.replies), hhead, ?_⟩
    rw [h.tracks.entries_eq, List.getElem?_map, hplace]
    rfl

theorem asksOpen_dispatch {result : Except Failure (List Json)} (hstill : Still w₀ w)
    (h : Ends (d.dispatch requests options) w result w') : ∃ sent, Sends w₀ sent w' ∧
      AsksOpen d.fetcher (d.queries requests) w₀.fetches [] sent := by
  obtain hend | ⟨target, ending, w₁, w₂, hstart, hrounds, hend⟩ := ends_dispatch h
  · exact ⟨[], (hstill.trans hend).sends, .nil⟩
  · obtain ⟨sent, hsends, hasks⟩ := asksOpen_rounds hrounds (keeps_initial _ _ _)
    have hall := (hstill.trans hstart).sends.trans (hsends.trans hend.sends)
    rw [List.append_nil] at hall
    rw [(hstill.trans hstart).fetches] at hasks
    exact ⟨sent, hall, hasks⟩

/-- However a call ends, it asks what is open, and looks up what is there. -/
theorem fetchAll_onTheWire {result : Except Failure (List Json)}
    (h : Ends (d.fetchAll requests options) w result w') :
    (∃ sent, Sends w sent w' ∧ OnTheWire d.fetcher w.fetches (d.queries requests) sent) ∧
      ∀ target stage, Passes d requests options target w stage →
        Allotted (d.queries requests) stage.replies stage.state ∧
        LooksUp d target (d.queries requests) stage := by
  refine ⟨?_, fun target stage hpasses => ⟨hpasses.keeps.allotted, hpasses.looksUp⟩⟩
  unfold fetchAll at h
  cases hkey : options.storeKey? with
  | none =>
      rw [hkey] at h
      obtain ⟨sent, hsends, hasks⟩ := asksOpen_dispatch (.refl w) h
      exact ⟨sent, hsends, hasks.onTheWire⟩
  | some key =>
      rw [hkey] at h
      have hnothing : ∀ {w'}, Still w w' → ∃ sent, Sends w sent w' ∧
          OnTheWire d.fetcher w.fetches (d.queries requests) sent := fun hstill =>
        ⟨[], hstill.sends, AsksOpen.nil.onTheWire⟩
      obtain ⟨failure, -, hread⟩ | ⟨found, w₁, hread, h⟩ := ends_bind h
      · exact hnothing (idle_readEntries d key hread)
      have hstill : Still w w₁ := idle_readEntries d key hread
      cases found with
      | some stored => exact hnothing (hstill.trans (Idle.pure h))
      | none =>
          obtain ⟨sent, hsends, hasks⟩ := asksOpen_dispatch hstill h
          exact ⟨sent, hsends, hasks.onTheWire⟩

def falteringFetcher : Fetcher Int
  | 0, _ => ⟨1, .ok [⟨200, some "[]"⟩, ⟨503, none⟩]⟩
  | 1, _ => ⟨1, .error ⟨"Exception", "DNS error"⟩⟩
  | 2, _ => ⟨1, .ok [⟨503, none⟩, ⟨404, none⟩, ⟨200, some "[]"⟩]⟩
  | _, _ => ⟨1, .error ⟨"Exception", "no route to host"⟩⟩

def falteringDispatcher : Dispatcher Unit Int where
  settings := ⟨60, 1, 8, 0, "agent", [], "source"⟩
  fetcher := falteringFetcher
  store := none
  credentials := none
  maxRounds := 10

/-- Four batches are sent before the call fails. -/
theorem fetchAll_onTheWire_faltering :
    let requests : List Request :=
      ["1", "2", "1", "3"].map fun site => ⟨"VisitsSummary.get", [("idSite", .text site)]⟩
    let options : FetchOptions := { address := some "https://matomo.example.com" }
    let world : World Unit Int := ⟨0, 0, 0, (), []⟩
    ∃ result w', Ends (falteringDispatcher.fetchAll requests options) world result w' ∧
      result.isOk = false ∧ w'.fetches = 4 ∧
      (∃ sent, Sends world sent w' ∧
        OnTheWire falteringFetcher 0 (falteringDispatcher.queries requests) sent) ∧
      ∀ target stage, Passes falteringDispatcher requests options target world stage →
        Allotted (falteringDispatcher.queries requests) stage.replies stage.state ∧
        LooksUp falteringDispatcher target (falteringDispatcher.queries requests) stage := by
  intro requests options world
  obtain ⟨result, w', h⟩ := exists_ends (falteringDispatcher.fetchAll requests options) world
  have hresult : result.isOk = false ∧ w'.fetches = 4 := by
    have hrun : (StateT.run (ExceptT.run (falteringDispatcher.fetchAll requests options))
        world).1.isOk = false ∧ (StateT.run (ExceptT.run
          (falteringDispatcher.fetchAll requests options)) world).2.fetches = 4 := by
      decide +kernel
    rwa [show StateT.run _ world = _ from h] at hrun
  exact ⟨result, w', h, hresult.1, hresult.2, fetchAll_onTheWire h⟩

end Dispatcher
end MetricBridge
