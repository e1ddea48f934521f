import MetricBridge.Proofs.Dispatch.Mirroring
import MetricBridge.Proofs.Dispatch.Strict

namespace MetricBridge

open Run

variable {σ τ : Type}

def Store.without (key : Text) (s : Store σ τ) : Store σ τ where
  get now other y :=
    let answer := s.get now other y
    if other = key then { answer with result := .ok none } else answer
  put := s.put

def Dispatcher.without (d : Dispatcher σ τ) (key : Text) : Dispatcher σ τ :=
  { d with store := d.store.map (Store.without key) }

variable {w w' : World σ τ} {key text : Text}

def World.asked (w : World σ τ) (s : Store σ τ) (key : Text) : World σ τ :=
  let answer := s.get w.now key w.store
  { w with
    store := answer.state
    events := (answer.log.map Event.log).reverse ++ w.events }

theorem Run.returns_readStore {s : Store σ τ} {value : Option Text}
    (h : (s.get w.now key w.store).result = .ok value) :
    Returns (readStore (some s) key) w value (w.asked s key) := by
  have hanswer := returns_takeAnswer (s.get w.now key w.store) w
  rw [h] at hanswer
  exact returns_bind.mpr ⟨w, w, rfl, returns_bind.mpr ⟨_, _, hanswer, rfl⟩⟩

theorem Run.ends_readStore {s : Store σ τ} {result : Except Failure (Option Text)}
    (h : Ends (readStore (some s) key) w result w') : w' = w.asked s key := by
  have hanswer := returns_takeAnswer (s.get w.now key w.store) w
  have hworld : Returns (get : Run σ τ (World σ τ)) w w w := rfl
  unfold readStore at h
  rw [hworld.ends, hanswer.ends] at h
  cases hresult : (s.get w.now key w.store).result with
  | ok value =>
      rw [hresult] at h
      cases h
      rfl
  | error fault =>
      rw [hresult] at h
      cases h
      rfl

namespace Dispatcher

variable [Seconds τ] {d : Dispatcher σ τ} {requests : List Request} {options : FetchOptions} {s : Store σ τ}

def noted (w : World σ τ) (severity : Severity) (message : Text) : World σ τ :=
  { w with events := .log ⟨severity, .dispatch, message⟩ :: w.events }

theorem lookUp_eq (hkey : options.storeKey? = some key) : d.lookUp options = d.readEntries key := by
  rw [lookUp, hkey]

theorem ends_readEntries (hstore : d.store = some s)
    (hget : (s.get w.now key w.store).result = .ok (some text)) :
    match Json.parse text with
    | .ok (.array entries) => Returns (d.readEntries key) w (some entries)
        (noted (w.asked s key) .debug (lit "Using cached responses for " ++ key))
    | .error .integerTooLong =>
        Ends (d.readEntries key) w (.error .integerTooLong) (w.asked s key)
    | _ => Returns (d.readEntries key) w none
        (noted (w.asked s key) .error (lit "failed to parse cache data for " ++ key)) := by
  have hread : Returns (readStore d.store key) w (some text) (w.asked s key) :=
    hstore ▸ returns_readStore hget
  have hrun : ∀ {result w'}, Ends (decoded key (some text)) (w.asked s key) result w' →
      Ends (d.readEntries key) w result w' := fun h => by
    rw [readEntries_eq]
    exact hread.ends.mpr h
  unfold decoded at hrun
  dsimp only at hrun
  split
  · rename_i entries hparse
    rw [hparse] at hrun
    exact hrun rfl
  · rename_i hparse
    rw [hparse] at hrun
    exact hrun rfl
  · rename_i hnolist hshort
    refine hrun ?_
    split
    · rename_i entries hparse
      exact absurd hparse (hnolist entries)
    · rename_i hparse
      exact absurd hparse hshort
    · rfl

theorem returns_lookUp_none (hkey : options.storeKey? = some key) (hstore : d.store = some s)
    (hget : (s.get w.now key w.store).result = .ok none) :
    Returns (d.lookUp options) w none (w.asked s key) := by
  have hread : Returns (readStore d.store key) w none (w.asked s key) :=
    hstore ▸ returns_readStore hget
  rw [lookUp_eq hkey]
  exact returns_bind.mpr ⟨none, _, hread, rfl⟩

theorem gather_withStore (d : Dispatcher σ τ) (store : Option (Store σ τ)) (requests : List Request)
    (options : FetchOptions) :
    ({ d with store := store } : Dispatcher σ τ).gather requests options = d.gather requests options := by
  have hrounds : ∀ target start,
      ({ d with store := store } : Dispatcher σ τ).allRounds requests options target start =
        d.allRounds requests options target start := fun target _ =>
    rounds_congr d { d with store := store } options options rfl rfl rfl rfl rfl target _ _ _
  unfold gather
  simp only [hrounds]
  rfl

theorem writeEntries_without (d : Dispatcher σ τ) (key other : Text) (entries : List Json)
    (ttl : Int) : (d.without key).writeEntries other entries ttl = d.writeEntries other entries ttl := by
  obtain ⟨settings, fetcher, store, credentials, maxRounds⟩ := d
  cases store <;> rfl

theorem dispatch_without (d : Dispatcher σ τ) (key : Text) (requests : List Request)
    (options : FetchOptions) : (d.without key).dispatch requests options =
      d.dispatch requests options := by
  have hgather : (d.without key).gather requests options = d.gather requests options :=
    gather_withStore d _ requests options
  have hfinish : ∀ entries, (d.without key).finish requests options entries =
      d.finish requests options entries := by
    intro entries
    rw [finish_eq, finish_eq]
    unfold keep
    simp only [writeEntries_without]
  rw [dispatch_eq_gather, dispatch_eq_gather, hgather]
  simp only [hfinish]

/-- Without a key, a call does not depend on the store. -/
theorem fetch_withStore (hkey : options.storeKey? = none) (store : Option (Store σ τ))
    (request : Request) :
    ({ d with store := store } : Dispatcher σ τ).fetch request options = d.fetch request options := by
  have hkey' : FetchOptions.storeKey? { options with strict := true } = none := hkey
  unfold fetch fetchAll
  rw [hkey']
  dsimp only
  rw [dispatch_eq_gather, dispatch_eq_gather, gather_withStore]
  unfold finish
  rw [hkey']

theorem lookUp_without (hkey : options.storeKey? = some key) (hstore : d.store = some s) :
    Returns ((d.without key).lookUp options) w none (w.asked s key) := by
  have hwithout : (d.without key).store = some (s.without key) := by
    rw [without, hstore]
    rfl
  have hasked : w.asked (s.without key) key = w.asked s key := by
    simp [World.asked, Store.without]
  rw [← hasked]
  exact returns_lookUp_none hkey hwithout (by simp [Store.without])

/-- The computation ends as it does when the key has no value in the store: it does the same in the same
time, and leaves the store behind in the same state. Only the log differs. -/
def AsWithout {α : Type} (d : Dispatcher σ τ) (key : Text) (x : Dispatcher σ τ → Run σ τ α)
    (w : World σ τ) (result : Except Failure α) (w' : World σ τ) : Prop :=
  ∃ v', Ends (x (d.without key)) w result v' ∧ Shadows Eq w.events w.events w' v'

/-- After a look-up that finds nothing, the call is as it is when the key has no value. -/
theorem asWithout_of_missed (hkey : options.storeKey? = some key) (hstore : d.store = some s)
    {severity : Severity} {message : Text} {result : Except Failure (List Json)}
    (hmissed : Returns (d.lookUp options) w none (noted (w.asked s key) severity message))
    (h : Ends (d.fetchAll requests options) w result w') :
    AsWithout d key (fun d => d.fetchAll requests options) w result w' ∧
      ∀ entries, result = .ok entries → entries.length = requests.length := by
  rw [fetchAll_eq, hmissed.ends] at h
  have hshadows : Shadows Eq w.events w.events (noted (w.asked s key) severity message)
      (w.asked s key) := by
    let logged : List (Event τ) := ((s.get w.now key w.store).log.map Event.log).reverse
    refine ⟨rfl, rfl, rfl, rfl, [.log ⟨severity, .dispatch, message⟩] ++ logged, logged, rfl, rfl, ?_⟩
    rw [deeds_append, deeds_logs]
    rfl
  obtain ⟨result', w₁, v', hw, hv, hafter⟩ :=
    (mirrors_dispatch (fun s _ => s.takes_eq) requests).ends hshadows
  obtain ⟨rfl, rfl⟩ := Prod.mk.inj (hw.symm.trans h)
  refine ⟨⟨v', ?_, hafter⟩, ?_⟩
  · dsimp only
    rw [fetchAll_eq, (lookUp_without hkey hstore).ends]
    dsimp only
    rwa [dispatch_without]
  · rintro entries rfl
    exact length_dispatch h

/-- What a call makes of a text that the store holds for its key. -/
theorem ends_fetchAll_found (hkey : options.storeKey? = some key) (hstore : d.store = some s)
    (hget : (s.get w.now key w.store).result = .ok (some text)) {result : Except Failure (List Json)}
    (h : Ends (d.fetchAll requests options) w result w') :
    match Json.parse text with
    | .ok (.array entries) => result = .ok entries ∧ Still w w' ∧ Quiet w w'
    | .error .integerTooLong => result = .error .integerTooLong ∧ Still w w' ∧ Quiet w w'
    | _ => AsWithout d key (fun d => d.fetchAll requests options) w result w' ∧
        ∀ entries, result = .ok entries → entries.length = requests.length := by
  have hlookUp := ends_readEntries hstore hget
  have hidle : Idle (d.lookUp options) := within_lookUp d options
  have hquiet : Within Quiet (d.lookUp options) := within_lookUp d options
  rw [← lookUp_eq (d := d) hkey] at hlookUp
  split
  · rename_i entries hparse
    rw [hparse] at hlookUp
    rw [fetchAll_eq] at h
    obtain ⟨rfl, rfl⟩ := Prod.mk.inj ((hlookUp.ends.mp h).symm)
    exact ⟨rfl, hidle hlookUp, hquiet hlookUp⟩
  · rename_i hparse
    rw [hparse] at hlookUp
    rw [fetchAll_eq] at h
    obtain ⟨rfl, rfl⟩ := Prod.mk.inj (h.symm.trans hlookUp.failed)
    exact ⟨rfl, hidle hlookUp, hquiet hlookUp⟩
  · split at hlookUp
    · rename_i hnolist _ _ entries hparse
      exact absurd hparse (hnolist entries)
    · rename_i hshort _ hparse
      exact absurd hparse hshort
    · exact asWithout_of_missed hkey hstore hlookUp h

def sole : List Json → Except Failure Json
  | entry :: _ => .ok entry
  | [] => .error .noEntry

theorem ends_fetch {request : Request} {ending : Except Failure (List Json)}
    (h : Ends (d.fetchAll [request] { options with strict := true }) w ending w') :
    Ends (d.fetch request options) w (ending.bind sole) w' := by
  cases ending with
  | error failure => exact h.failed
  | ok entries =>
      unfold fetch
      rw [Returns.ends h]
      cases entries <;> rfl

theorem ends_fetch_found (hkey : options.storeKey? = some key) (hstore : d.store = some s)
    (hget : (s.get w.now key w.store).result = .ok (some text)) {request : Request}
    {result : Except Failure Json} (h : Ends (d.fetch request options) w result w') :
    match Json.parse text with
    | .ok (.array (entry :: _)) => result = .ok entry ∧ Still w w' ∧ Quiet w w'
    | .ok (.array []) => result = .error .noEntry ∧ Still w w' ∧ Quiet w w'
    | .error .integerTooLong => result = .error .integerTooLong ∧ Still w w' ∧ Quiet w w'
    | _ => AsWithout d key (fun d => d.fetch request options) w result w' ∧
        result ≠ .error .noEntry := by
  obtain ⟨ending, w₁, hall⟩ :=
    exists_ends (d.fetchAll [request] { options with strict := true }) w
  obtain ⟨rfl, rfl⟩ := Prod.mk.inj (h.symm.trans (ends_fetch hall))
  have hstrict : FetchOptions.storeKey? { options with strict := true } = some key := hkey
  have hfound := ends_fetchAll_found hstrict hstore hget hall
  split
  · rename_i entry entries hparse
    rw [hparse] at hfound
    obtain ⟨rfl, hdone⟩ := hfound
    exact ⟨rfl, hdone⟩
  · rename_i hparse
    rw [hparse] at hfound
    obtain ⟨rfl, hdone⟩ := hfound
    exact ⟨rfl, hdone⟩
  · rename_i hparse
    rw [hparse] at hfound
    obtain ⟨rfl, hdone⟩ := hfound
    exact ⟨rfl, hdone⟩
  · rename_i hsome hnil hshort
    split at hfound
    · rename_i entries hparse
      cases entries with
      | nil => exact absurd hparse hnil
      | cons entry entries => exact absurd hparse (hsome entry entries)
    · rename_i hparse
      exact absurd hparse hshort
    · obtain ⟨⟨v', hv, hshadows⟩, hlength⟩ := hfound
      refine ⟨⟨v', ends_fetch hv, hshadows⟩, fun hnone => ?_⟩
      cases ending with
      | error failure =>
          cases hnone
          obtain ⟨-, _, _, -, -, -, hfailure⟩ := fetchAll_usedUp hall id
          cases hfailure
      | ok entries =>
          have hone := hlength entries rfl
          cases entries with
          | nil => cases hone
          | cons => cases hnone

/-- Whatever text a store holds for the key of a call: a list is the result as it is, a list of another
length too, of which the call for one request takes the first entry if there is one; a text with an
integer that is too long ends the call; with any other text the call is as it is without it, and
returns an entry for each request. The reader of JSON is assumed to have no limit for the nesting of
values. -/
theorem calls_with_stored_text (hkey : options.storeKey? = some key) (hstore : d.store = some s)
    (hget : (s.get w.now key w.store).result = .ok (some text)) :
    (∀ requests result w', Ends (d.fetchAll requests options) w result w' →
      match Json.parse text with
      | .ok (.array entries) => result = .ok entries ∧ Still w w' ∧ Quiet w w'
      | .error .integerTooLong => result = .error .integerTooLong ∧ Still w w' ∧ Quiet w w'
      | _ => AsWithout d key (fun d => d.fetchAll requests options) w result w' ∧
          ∀ entries, result = .ok entries → entries.length = requests.length) ∧
    ∀ request result w', Ends (d.fetch request options) w result w' →
      match Json.parse text with
      | .ok (.array (entry :: _)) => result = .ok entry ∧ Still w w' ∧ Quiet w w'
      | .ok (.array []) => result = .error .noEntry ∧ Still w w' ∧ Quiet w w'
      | .error .integerTooLong => result = .error .integerTooLong ∧ Still w w' ∧ Quiet w w'
      | _ => AsWithout d key (fun d => d.fetch request options) w result w' ∧
          result ≠ .error .noEntry :=
  ⟨fun _ _ _ h => ends_fetchAll_found hkey hstore hget h,
    fun _ _ _ h => ends_fetch_found hkey hstore hget h⟩

def emptyListStore : MemoryStore Int := ⟨100, [("k", "[]", 90)], [("k", 0)], 0, 0, 0⟩

/-- The call for a request finds no entry to take. -/
theorem calls_with_stored_text_empty :
    let request : Request := ⟨"A.b", []⟩
    let options : FetchOptions := {
      address := some "https://matomo.example.com"
      cacheKey := some "k"
      cacheTtl := 60 }
    let w : World (MemoryStore Int) Int := ⟨5, 0, 0, emptyListStore, []⟩
    options.storeKey? = some (lit "k") ∧ missingDispatcher.store = some MemoryStore.store ∧
    (MemoryStore.store.get w.now "k" w.store).result = .ok (some (lit "[]")) ∧
    (∃ w', Ends (missingDispatcher.fetchAll [request, request] options) w (.ok []) w') ∧
    ∃ w', Ends (missingDispatcher.fetch request options) w (.error .noEntry) w' := by
  intro request options w
  have hget : (MemoryStore.store.get w.now (lit "k") w.store).result = .ok (some (lit "[]")) := rfl
  have hparse : Json.parse (lit "[]") = .ok (.array []) := rfl
  have hkey : options.storeKey? = some (lit "k") := rfl
  have hstore : missingDispatcher.store = some MemoryStore.store := rfl
  obtain ⟨hfetchAll, hfetch⟩ := calls_with_stored_text hkey hstore hget
  rw [hparse] at hfetchAll hfetch
  obtain ⟨result, v, h⟩ := exists_ends (missingDispatcher.fetchAll [request, request] options) w
  obtain ⟨rfl, -⟩ := hfetchAll _ _ _ h
  obtain ⟨result', v', h'⟩ := exists_ends (missingDispatcher.fetch request options) w
  obtain ⟨rfl, -⟩ := hfetch _ _ _ h'
  exact ⟨hkey, hstore, hget, ⟨v, h⟩, v', h'⟩

end Dispatcher
end MetricBridge
