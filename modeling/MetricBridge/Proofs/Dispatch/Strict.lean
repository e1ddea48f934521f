import MetricBridge.Proofs.Dispatch.Storing
import MetricBridge.Store.Memory

namespace MetricBridge

open Run

/-- The failure of a call with errors among its entries: it tells what is known of the only one, or how
many there are. -/
inductive Complains (requests : List Request) (entries : List Json) : Failure → Prop
  | one {request entry} (h : (request, entry) ∈ requests.zip entries)
      (he : Entry.isError entry = true) (hone : entries.countP Entry.isError = 1) :
      Complains requests entries
        (.requestFailed request.method request.params (Entry.message entry).plain)
  | several (h : 1 < entries.countP Entry.isError) :
      Complains requests entries (.requestsFailed (entries.countP Entry.isError))

namespace Dispatcher

variable {σ τ : Type} {requests : List Request} {options : FetchOptions} {entries : List Json}
  {failure : Failure} {w w' w'' : World σ τ}

theorem countP_isError (hlength : entries.length = requests.length) :
    ((requests.zip entries).filter fun pair => Entry.isError pair.2).length =
      entries.countP Entry.isError := by
  have hzip : (requests.zip entries).map Prod.snd = entries :=
    List.map_snd_zip (Nat.le_of_eq hlength)
  calc ((requests.zip entries).filter fun pair => Entry.isError pair.2).length
      = (requests.zip entries).countP (Entry.isError ∘ Prod.snd) := List.countP_eq_length_filter.symm
    _ = entries.countP Entry.isError := by rw [← List.countP_map, hzip]

theorem complains_of_strictFailure? (hlength : entries.length = requests.length)
    (h : strictFailure? requests entries = some failure) : Complains requests entries failure := by
  have hcount := countP_isError hlength
  unfold strictFailure? at h
  split at h
  · cases h
  · rename_i request entry hone
    cases h
    have hmem : (request, entry) ∈ (requests.zip entries).filter fun pair => Entry.isError pair.2 :=
      hone ▸ List.mem_singleton_self _
    obtain ⟨hzip, herror⟩ := List.mem_filter.mp hmem
    rw [hone] at hcount
    exact .one hzip herror hcount.symm
  · rename_i hnil hone
    cases h
    rw [hcount]
    refine .several (Nat.lt_of_not_le fun hle => ?_)
    rw [← hcount] at hle
    rcases Nat.le_one_iff_eq_zero_or_eq_one.mp hle with hzero | hsingle
    · exact hnil (List.length_eq_zero_iff.mp hzero)
    · obtain ⟨⟨request, entry⟩, hpair⟩ := List.length_eq_one_iff.mp hsingle
      exact hone request entry hpair

variable [Seconds τ] {d : Dispatcher σ τ}

theorem dispatch_strict (hstrict : options.strict = true)
    (h : Returns (d.dispatch requests options) w entries w') :
    ∀ entry ∈ entries, Entry.isError entry = false := by
  have hlength := length_dispatch h
  rw [dispatch_eq_gather] at h
  obtain ⟨entries₁, w₁, -, hfinish⟩ := returns_bind.mp h
  obtain ⟨hnone, rfl, -⟩ := returns_finish.mp hfinish
  rw [complaint?_of_strict hstrict] at hnone
  exact (strictFailure?_eq_none hlength).mp hnone

theorem gather_strict (d : Dispatcher σ τ) (requests : List Request) (options : FetchOptions)
    (strict : Bool) :
    d.gather requests { options with strict := strict } = d.gather requests options := by
  have hrounds : ∀ target start, d.allRounds requests { options with strict := strict } target start =
      d.allRounds requests options target start := fun target _ =>
    rounds_congr d d options { options with strict := strict } rfl rfl rfl rfl rfl target _ _ _
  unfold gather
  simp only [hrounds]
  rfl

/-- A strict dispatch fails where a lenient one returns an error. -/
theorem dispatch_complains (hstrict : options.strict = true)
    (h : Returns (d.dispatch requests { options with strict := false }) w entries w')
    (herror : entries.any Entry.isError = true) :
    ∃ failure w'', Ends (d.dispatch requests options) w (.error failure) w'' ∧
      Complains requests entries failure := by
  have hlength := length_dispatch h
  rw [dispatch_eq_gather, gather_strict] at h
  rw [dispatch_eq_gather]
  obtain ⟨entries₁, w₁, hgather, hfinish⟩ := returns_bind.mp h
  obtain ⟨-, rfl, -⟩ := returns_finish.mp hfinish
  cases hfailure : strictFailure? requests entries with
  | none =>
      obtain ⟨entry, hentry, herror⟩ := List.any_eq_true.mp herror
      rw [(strictFailure?_eq_none hlength).mp hfailure entry hentry] at herror
      cases herror
  | some failure =>
      refine ⟨failure, w₁, hgather.ends.mpr ?_, complains_of_strictFailure? hlength hfailure⟩
      exact ends_finish_of_complaint ((complaint?_of_strict hstrict).trans hfailure) w₁

theorem returns_of_lookUp (h : Returns (d.lookUp options) w (some entries) w') :
    Returns (d.fetchAll requests options) w entries w' := by
  rw [fetchAll_eq]
  exact returns_bind.mpr ⟨_, w', h, rfl⟩

theorem fetchAll_strict_returns (hstrict : options.strict = true)
    (h : Returns (d.fetchAll requests options) w entries w') :
    Returns (d.lookUp options) w (some entries) w' ∨
      ∀ entry ∈ entries, Entry.isError entry = false := by
  rw [fetchAll_eq] at h
  obtain ⟨found, w₁, hlookUp, h⟩ := returns_bind.mp h
  cases found with
  | some stored =>
      obtain ⟨rfl, rfl⟩ := returns_pure.mp h
      exact .inl hlookUp
  | none => exact .inr (dispatch_strict hstrict h)

/-- A strict call that finds nothing in the store fails where a lenient one returns an error. -/
theorem fetchAll_complains (hstrict : options.strict = true)
    (hnothing : ∀ stored v, ¬Returns (d.lookUp options) w (some stored) v)
    (h : Returns (d.fetchAll requests { options with strict := false }) w entries w')
    (herror : entries.any Entry.isError = true) :
    ∃ failure w'', Ends (d.fetchAll requests options) w (.error failure) w'' ∧
      Complains requests entries failure := by
  rw [fetchAll_eq] at h ⊢
  obtain ⟨found, w₁, hlookUp, h⟩ := returns_bind.mp h
  cases found with
  | some stored => exact absurd hlookUp (hnothing stored w₁)
  | none =>
      obtain ⟨failure, w'', hends, hcomplains⟩ := dispatch_complains hstrict h herror
      have hlookUp : Returns (d.lookUp options) w none w₁ := hlookUp
      exact ⟨failure, w'', hlookUp.ends.mpr hends, hcomplains⟩

theorem fetch_isError {request : Request} {entry : Json} (herror : Entry.isError entry = true) :
    Returns (d.fetch request options) w entry w' ↔
      ∃ rest, Returns (d.lookUp options) w (some (entry :: rest)) w' := by
  unfold fetch
  rw [returns_bind]
  constructor
  · rintro ⟨entries, w₁, hfetchAll, h⟩
    cases entries with
    | nil => exact absurd h not_returns_throw
    | cons first rest =>
        obtain ⟨rfl, rfl⟩ := returns_pure.mp h
        rcases fetchAll_strict_returns rfl hfetchAll with hlookUp | hnone
        · exact ⟨rest, hlookUp⟩
        · rw [hnone first List.mem_cons_self] at herror
          cases herror
  · rintro ⟨rest, hlookUp⟩
    exact ⟨_, w', returns_of_lookUp hlookUp, rfl⟩

/-- After any calls, a strict call returns an error if and only if the store has a list with one for
it, for what is found in the store is returned as it is. Without a list in the store, the call fails
where a lenient one returns an error. Only lenient calls put lists with errors into the store. -/
theorem strict_after_calls (d : Dispatcher σ τ) (earlier : List Call) (start : World σ τ)
    (requests : List Request) (options : FetchOptions) :
    let w := d.after start earlier
    let strict := { options with strict := true }
    ((∃ entries w', Returns (d.fetchAll requests strict) w entries w' ∧
        entries.any Entry.isError = true) ↔
      ∃ entries w', Returns (d.lookUp options) w (some entries) w' ∧
        entries.any Entry.isError = true) ∧
    (∀ request, (∃ entry w', Returns (d.fetch request options) w entry w' ∧
        Entry.isError entry = true) ↔
      ∃ entry rest w', Returns (d.lookUp options) w (some (entry :: rest)) w' ∧
        Entry.isError entry = true) ∧
    ((∀ stored v, ¬Returns (d.lookUp options) w (some stored) v) →
      ∀ entries w', Returns (d.fetchAll requests { options with strict := false }) w entries w' →
        entries.any Entry.isError = true →
        ∃ failure w'', Ends (d.fetchAll requests strict) w (.error failure) w'' ∧
          Complains requests entries failure) ∧
    Puts (fun key value ttl => ∃ call ∈ earlier, call.MayPut key value ttl) start w := by
  intro w strict
  refine ⟨⟨?_, ?_⟩, fun request => ⟨?_, ?_⟩, fun hnothing entries w' h herror => ?_,
    puts_after d start earlier⟩
  · rintro ⟨entries, w', h, herror⟩
    rcases fetchAll_strict_returns rfl h with hlookUp | hnone
    · exact ⟨entries, w', hlookUp, herror⟩
    · obtain ⟨entry, hentry, hentryError⟩ := List.any_eq_true.mp herror
      exact absurd hentryError (Bool.eq_false_iff.mp (hnone entry hentry))
  · rintro ⟨entries, w', hlookUp, herror⟩
    exact ⟨entries, w', returns_of_lookUp hlookUp, herror⟩
  · rintro ⟨entry, w', h, herror⟩
    obtain ⟨rest, hlookUp⟩ := (fetch_isError herror).mp h
    exact ⟨entry, rest, w', hlookUp, herror⟩
  · rintro ⟨entry, rest, w', hlookUp, herror⟩
    exact ⟨entry, w', (fetch_isError herror).mpr ⟨rest, hlookUp⟩, herror⟩
  · exact fetchAll_complains rfl hnothing h herror

def missingDispatcher : Dispatcher (MemoryStore Int) Int where
  settings := ⟨30, 2, 6, 0, "agent", [], "source"⟩
  fetcher _ batch := ⟨5, .ok (batch.map fun _ => ⟨404, some "not found"⟩)⟩
  store := some MemoryStore.store
  credentials := none
  maxRounds := 10

/-- The error that a lenient call stored is returned as a payload. -/
theorem strict_after_calls_missing :
    let request : Request := ⟨"A.b", []⟩
    let options : FetchOptions := {
      address := some "https://matomo.example.com"
      cacheKey := some "k"
      cacheTtl := 60 }
    let w := missingDispatcher.after ⟨0, 0, 0, .empty 100, []⟩ [⟨[request], options⟩]
    ∃ entry w', Returns (missingDispatcher.fetch request options) w entry w' ∧
      Entry.isError entry = true := by
  intro request options w
  have hstored : ((StateT.run (ExceptT.run (missingDispatcher.lookUp options))
      w).1.toOption.join.bind List.head?).any Entry.isError = true := by decide +kernel
  obtain ⟨-, hfetch, -⟩ := strict_after_calls missingDispatcher [⟨[request], options⟩]
    ⟨0, 0, 0, .empty 100, []⟩ [request] options
  obtain ⟨result, w', hlookUp⟩ := exists_ends (missingDispatcher.lookUp options) w
  rw [hlookUp] at hstored
  cases result with
  | error failure => cases hstored
  | ok found => cases found with
      | none => cases hstored
      | some entries => cases entries with
          | nil => cases hstored
          | cons entry rest =>
              exact (hfetch request).mpr ⟨entry, rest, w', hlookUp, hstored⟩

end Dispatcher
end MetricBridge
