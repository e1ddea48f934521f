import MetricBridge.Proofs.Dispatch.Recalling
import MetricBridge.Proofs.Store.Choice

namespace MetricBridge

open Run

namespace Dispatcher

variable {σ τ : Type} [Seconds τ]

/-- What a call that ends with the result has put into the store: nothing, or its entries, after a look-up
that found none. The entries are put last. Then the call returns them, or fails because of a fault of the
store. -/
inductive Commits (d : Dispatcher σ τ) (options : FetchOptions) (w : World σ τ) :
    Except Failure (List Json) → World σ τ → Prop
  | nothing {result : Except Failure (List Json)} {w' : World σ τ} (quiet : Quiet w w')
      (store : w'.store = d.lookedUp options w)
      (why : options.storeKey? = none ∨ d.store = none ∨
        (∃ entries v, Returns (d.lookUp options) w (some entries) v) ∨
        ∃ failure, result = .error failure) : Commits d options w result w'
  | entries {result : Except Failure (List Json)} {key : Text} {s : Store σ τ} {entries : List Json}
      {v w₁ w' : World σ τ} (used : options.storeKey? = some key ∧ d.store = some s)
      (missed : Returns (d.lookUp options) w none v) (quiet : Quiet w w₁)
      (store : w₁.store = d.lookedUp options w)
      (written : Written s key (Json.array entries).print options.cacheTtl w₁ w')
      (ending : result = .ok entries ∨ ∃ fault,
        (s.put w₁.now key (Json.array entries).print options.cacheTtl w₁.store).result =
          .error fault ∧ fault.isTolerable = false ∧ result = .error (.store fault)) :
      Commits d options w result w'

variable {d : Dispatcher σ τ} {requests : List Request} {options : FetchOptions}
  {entries : List Json} {w w' w₁ v : World σ τ} {result : Except Failure (List Json)}

theorem quiet_gather : Within Quiet (d.gather requests options) := by
  refine within_gather (fun batch => ?_) fun seconds => ?_
  · intro w result w' h
    cases h
    exact ⟨rfl, .event (.fetch batch) (fun _ _ _ => nofun) rfl⟩
  · intro w result w' h
    cases h
    exact ⟨rfl, .event (.sleep seconds) (fun _ _ _ => nofun) rfl⟩

theorem commits_finish (hmissed : Returns (d.lookUp options) w none v) (hquiet : Quiet w w₁)
    (hstore : w₁.store = d.lookedUp options w)
    (h : Ends (d.finish requests options entries) w₁ result w') : Commits d options w result w' := by
  rw [finish_eq] at h
  cases hcomplaint : complaint? requests options entries with
  | some failure =>
      rw [hcomplaint] at h
      cases h
      exact .nothing hquiet hstore (.inr (.inr (.inr ⟨failure, rfl⟩)))
  | none =>
      rw [hcomplaint] at h
      unfold keep at h
      cases hkey : options.storeKey? with
      | none =>
          rw [hkey] at h
          cases h
          exact .nothing hquiet hstore (.inl hkey)
      | some key =>
          rw [hkey] at h
          dsimp only at h
          cases hused : d.store with
          | none =>
              unfold writeEntries at h
              rw [hused] at h
              cases h
              exact .nothing hquiet hstore (.inr (.inl hused))
          | some s =>
              obtain ⟨failure, rfl, hwrite⟩ | ⟨_, w₂, hwrite, h⟩ := ends_bind h
              · obtain ⟨hwritten, hok | ⟨fault, hput, htolerable, heq⟩⟩ :=
                  ends_writeEntries hused hwrite
                · cases hok
                · cases heq
                  exact .entries ⟨hkey, hused⟩ hmissed hquiet hstore hwritten
                    (.inr ⟨fault, hput, htolerable, rfl⟩)
              · obtain ⟨hwritten, -⟩ := ends_writeEntries hused hwrite
                cases h
                exact .entries ⟨hkey, hused⟩ hmissed hquiet hstore hwritten (.inl rfl)

theorem commits_fetchAll (h : Ends (d.fetchAll requests options) w result w') :
    Commits d options w result w' := by
  have hlooked : Within Quiet (d.lookUp options) := within_lookUp d options
  rw [fetchAll_eq] at h
  obtain ⟨failure, rfl, hlookUp⟩ | ⟨found, v, hlookUp, h⟩ := ends_bind h
  · exact .nothing (hlooked hlookUp) (store_lookUp hlookUp) (.inr (.inr (.inr ⟨failure, rfl⟩)))
  cases found with
  | some entries =>
      cases h
      exact .nothing (hlooked hlookUp) (store_lookUp hlookUp)
        (.inr (.inr (.inl ⟨entries, _, hlookUp⟩)))
  | none =>
      rw [dispatch_eq_gather] at h
      have hretains : Within Retains (d.gather requests options) := retains_gather
      obtain ⟨failure, rfl, hgather⟩ | ⟨entries, w₁, hgather, h⟩ := ends_bind h
      · exact .nothing (OverlookingLogs.trans (hlooked hlookUp) (quiet_gather hgather))
          ((hretains hgather).trans (store_lookUp hlookUp)) (.inr (.inr (.inr ⟨failure, rfl⟩)))
      · exact commits_finish hlookUp (OverlookingLogs.trans (hlooked hlookUp) (quiet_gather hgather))
          ((hretains hgather).trans (store_lookUp hlookUp)) h

theorem Commits.store_of_quiet (h : Commits d options w result w') (hquiet : Quiet w w') :
    w'.store = d.lookedUp options w := by
  cases h with
  | nothing _ store => exact store
  | entries _ _ before _ written =>
      obtain ⟨new, he, hnew⟩ := hquiet.puts
      obtain ⟨new₁, he₁, -⟩ := before.puts
      obtain ⟨logs, hevents⟩ := written.events
      rw [he₁, ← List.cons_append, ← List.append_assoc] at hevents
      rw [List.append_cancel_right (he.symm.trans hevents)] at hnew
      exact absurd (hnew _ _ _ (List.mem_append_right _ List.mem_cons_self)) id

end Dispatcher

open Dispatcher

/-- However a call ends, it puts at most one text into the store: that of the entries that it then
returns, under its own key and for its own time, after everything else that it does but logging. It puts
nothing if it finds a list, or if anything else than a fault of the store while they are put makes it
fail. Then each store of the program has, from the time of the call on, the same values for the same keys as
without the call. -/
theorem fetchAll_commits :
    (∀ {σ τ : Type} [Seconds τ] (d : Dispatcher σ τ) (requests : List Request)
      (options : FetchOptions) (w : World σ τ) (result : Except Failure (List Json))
      (w' : World σ τ), Ends (d.fetchAll requests options) w result w' →
      Commits d options w result w') ∧
    ∀ (choice : StoreChoice) (clock : Float → Float) (d : Dispatcher choice.State Float)
      (requests : List Request) (options : FetchOptions) (w : World choice.State Float)
      (result : Except Failure (List Json)) (w' : World choice.State Float),
      d.store = some (choice.store.withClock clock) → choice.Sound w.store →
      Ends (d.fetchAll requests options) w result w' → Quiet w w' →
      choice.store.Agrees (clock w.now) w.store w'.store := by
  refine ⟨fun d requests options w result w' h => commits_fetchAll h, ?_⟩
  intro choice clock d requests options w result w' hused hsound h hquiet
  rw [(commits_fetchAll h).store_of_quiet hquiet, lookedUp, hused]
  cases options.storeKey? with
  | none => exact fun _ _ _ => rfl
  | some key => exact choice.agrees_get hsound (clock w.now) key

def Failure.fetchFault? : Failure → Option FetchFault
  | .fetch fault => some fault
  | _ => none

theorem Failure.eq_fetch {failure : Failure} {fault : FetchFault}
    (h : failure.fetchFault? = some fault) : failure = .fetch fault := by
  cases failure <;> cases h
  rfl

def breakingDispatcher (choice : StoreChoice) : Dispatcher choice.State Float where
  settings := ⟨30, 2, 6, 0, "agent", [], "source"⟩
  fetcher
    | 0, _ => ⟨0, .ok [⟨200, some "[1]"⟩, ⟨503, none⟩]⟩
    | _, _ => ⟨0, .error ⟨"Exception", "boom"⟩⟩
  store := some (choice.store.withClock id)
  credentials := none
  maxRounds := 10

/-- The half of the entries is not stored, and the look-up that removes what has expired leaves the other
value where it is. -/
theorem fetchAll_commits_breaking :
    let choice : StoreChoice := .memory 100
    let d := breakingDispatcher choice
    let requests : List Request := [⟨"A.a", []⟩, ⟨"A.b", []⟩]
    let options : FetchOptions := {
      address := some "https://matomo.example.com"
      cacheKey := some "k"
      cacheTtl := 60 }
    let store : MemoryStore Float :=
      ⟨100, [("k", "[]", 900), ("l", "[2]", 2000)], [("k", 0), ("l", 0)], 0, 0, 0⟩
    let w : World choice.State Float := ⟨1000, 1000, 0, store, []⟩
    d.store = some (choice.store.withClock id) ∧ choice.Sound w.store ∧
    ∃ fault w', Ends (d.fetchAll requests options) w (.error (.fetch fault)) w' ∧ Quiet w w' ∧
      (choice.store.get 1500 "l" w'.store).result = .ok (some (lit "[2]")) := by
  intro choice d requests options store w
  have hsound : choice.Sound w.store := by
    have hnodup : (Entries.keys store.values).Nodup := by decide
    exact hnodup
  have hfails : fails (d.fetchAll requests options) w
      (fun failure => failure.fetchFault? == some ⟨"Exception", "boom"⟩) = true := by decide +kernel
  have hget : (choice.store.get 1500 (lit "l") w.store).result = .ok (some (lit "[2]")) := by
    decide +kernel
  have hlater : Seconds.le (1000 : Float) 1500 = true := by decide +kernel
  obtain ⟨failure, w', h, hfault⟩ := ends_of_fails hfails
  obtain rfl := Failure.eq_fetch (eq_of_beq hfault)
  obtain ⟨hcommits, hagrees⟩ := fetchAll_commits
  cases hcommits _ _ _ _ _ _ h with
  | nothing hquiet =>
      refine ⟨rfl, hsound, _, w', h, hquiet, ?_⟩
      exact (hagrees choice id d _ _ w _ w' rfl hsound h hquiet 1500 _ hlater).trans hget
  | entries _ _ _ _ _ hending =>
      obtain hok | ⟨_, -, -, hstore⟩ := hending
      · cases hok
      · cases hstore

end MetricBridge
