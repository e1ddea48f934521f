import MetricBridge.Proofs.Dispatch.Apart
import MetricBridge.Proofs.Dispatch.Found
import MetricBridge.Proofs.Store.Choice

namespace MetricBridge

open Run

theorem Entry.hasShortInts_failed (message : Text) : (Entry.failed message).HasShortInts := by
  intro n hn
  simp [Entry.failed, Json.parts, Json.partsOfFields] at hn

theorem hasShortInts_referenceEntry {τ : Type} [Seconds τ] (limit : τ) (replies : List Reply) :
    (referenceEntry limit replies).HasShortInts := by
  rcases referenceEntry_origin limit replies with ⟨r, -, hparse⟩ | ⟨message, hfailed⟩
  · exact (Json.readFrom_of_parse hparse).hasShortInts
  · rw [hfailed]
    exact Entry.hasShortInts_failed message

variable {σ τ : Type} {w w' w₁ : World σ τ}

structure Written (s : Store σ τ) (key value : Text) (ttl : Int) (w w' : World σ τ) : Prop where
  events : ∃ logs : List LogEntry,
    w'.events = logs.map Event.log ++ .put key value ttl :: w.events
  store : w'.store = (s.put w.now key value ttl w.store).state
  now : w'.now = w.now

def Retains (w w' : World σ τ) : Prop := w'.store = w.store

instance : OverlookingLogs (Retains : World σ τ → World σ τ → Prop) where
  refl _ := rfl
  trans h h' := Eq.trans h' h
  logged _ _ := rfl

namespace Dispatcher

variable [Seconds τ] {d : Dispatcher σ τ} {requests : List Request} {options : FetchOptions}
  {s : Store σ τ} {key : Text} {entries : List Json} {ttl : Int}

theorem hasShortInts_dispatch (h : Returns (d.dispatch requests options) w entries w') :
    (Json.array entries).HasShortInts := by
  obtain ⟨sent, -, rfl⟩ := returns_dispatch_entries h
  intro n hn
  obtain ⟨entry, hentry, hn⟩ := (Json.mem_parts_array.mp hn).resolve_left nofun
  obtain ⟨request, -, rfl⟩ := List.mem_map.mp hentry
  exact hasShortInts_referenceEntry _ _ n hn

theorem FetchOptions.cacheTtl_pos (h : options.storeKey? = some key) : 0 < options.cacheTtl := by
  unfold FetchOptions.storeKey? at h
  split at h
  · cases h
  · cases h
  · split at h
    · assumption
    · cases h

def lookedUp (d : Dispatcher σ τ) (options : FetchOptions) (w : World σ τ) : σ :=
  match options.storeKey?, d.store with
  | some key, some s => (s.get w.now key w.store).state
  | _, _ => w.store

theorem store_lookUp {found : Except Failure (Option (List Json))}
    (h : Ends (d.lookUp options) w found w') : w'.store = d.lookedUp options w := by
  unfold lookUp at h
  unfold lookedUp
  cases hkey : options.storeKey? with
  | none =>
      rw [hkey] at h
      cases h
      rfl
  | some key =>
      rw [hkey] at h
      dsimp only at h
      rw [readEntries_eq] at h
      cases hstore : d.store with
      | none =>
          rw [hstore] at h
          cases h
          rfl
      | some s =>
          rw [hstore] at h
          obtain ⟨failure, -, hread⟩ | ⟨text?, w₁, hread, h⟩ := ends_bind h
          · rw [ends_readStore hread]
            rfl
          · have hretains : Within Retains (decoded key text? : Run σ τ _) := within_decoded key text?
            rw [hretains h, ends_readStore hread]
            rfl

theorem retains_gather : Within Retains (d.gather requests options) := by
  refine within_gather (fun batch => ?_) fun seconds => ?_
  · intro w result w' h
    cases h
    rfl
  · intro w result w' h
    cases h
    rfl

/-- Entries are written by one put. The call fails if the store has a fault with it that is not
tolerable. -/
theorem ends_writeEntries {result : Except Failure Unit} (hstore : d.store = some s)
    (h : Ends (d.writeEntries key entries ttl) w result w') :
    Written s key (Json.array entries).print ttl w w' ∧ (result = .ok () ∨ ∃ fault,
      (s.put w.now key (Json.array entries).print ttl w.store).result = .error fault ∧
        fault.isTolerable = false ∧ result = .error (.store fault)) := by
  have hwrite : Returns (writeStore s key (Json.array entries).print ttl) w _ _ :=
    returns_writeStore rfl
  unfold writeEntries at h
  rw [hstore] at h
  dsimp only at h
  rw [hwrite.ends] at h
  let logs := (s.put w.now key (Json.array entries).print ttl w.store).log.reverse
  have hlogs : logs.map (Event.log : LogEntry → Event τ) = _ := List.map_reverse
  cases hput : (s.put w.now key (Json.array entries).print ttl w.store).result with
  | ok =>
      rw [hput] at h
      cases h
      exact ⟨⟨⟨logs, by rw [hlogs]⟩, rfl, rfl⟩, .inl rfl⟩
  | error fault =>
      rw [hput] at h
      dsimp only at h
      split at h
      · cases h
        exact ⟨⟨⟨_ :: logs, by rw [List.map_cons, hlogs]; rfl⟩, rfl, rfl⟩, .inl rfl⟩
      · rename_i htolerable
        cases h
        exact ⟨⟨⟨logs, by rw [hlogs]⟩, rfl, rfl⟩,
          .inr ⟨fault, rfl, Bool.eq_false_iff.mpr htolerable, rfl⟩⟩

theorem returns_dispatch_write (hstore : d.store = some s) (hkey : options.storeKey? = some key)
    (h : Returns (d.dispatch requests options) w entries w') :
    w'.store = (s.put w'.now key (Json.array entries).print options.cacheTtl w.store).state := by
  rw [dispatch_eq_gather] at h
  obtain ⟨entries₁, w₁, hgather, hfinish⟩ := returns_bind.mp h
  obtain ⟨-, rfl, hkeep⟩ := returns_finish.mp hfinish
  have hretains : w₁.store = w.store := retains_gather hgather
  rw [keep, hkey] at hkeep
  obtain ⟨hwritten, -⟩ := ends_writeEntries hstore hkeep
  rw [hwritten.now, hwritten.store, hretains]

/-- Calls with the options use the store, by a clock of its own, with the key. -/
structure Uses (d : Dispatcher σ τ) (s : Store σ τ) (clock : τ → τ) (options : FetchOptions)
    (key : Text) : Prop where
  store : d.store = some (s.withClock clock)
  key : options.storeKey? = some key

/-- The call finds nothing in the store, returns entries from elsewhere, and writes them into the store,
where they expire at the time. -/
structure Records (d : Dispatcher σ τ) (s : Store σ τ) (clock : τ → τ) (key : Text) (call : Call)
    (w : World σ τ) (entries : List Json) (expires : τ) (w' : World σ τ) : Prop where
  uses : d.Uses s clock call.options key
  returns : Returns (d.fetchAll call.requests call.options) w entries w'
  written : ∃ w₁, Returns (d.lookUp call.options) w none w₁ ∧
    (s.put (clock w'.now) key (Json.array entries).print call.options.cacheTtl w₁.store).result =
      .ok ()
  expires : ∃ seconds, Seconds.ofInt? call.options.cacheTtl = some seconds ∧
    Seconds.add (clock w'.now) seconds = expires

section Keeps

variable {clock : τ → τ} {call : Call} {expires : τ} {Sound InOrder : σ → Prop}
  {Same : σ → σ → Prop} {v : World σ τ}

theorem Records.holds (h : d.Records s clock key call w entries expires w')
    (hkeeps : s.Keeps key Sound InOrder Same) (hsound : Sound w.store)
    (hexpires : Seconds.IsKept expires) :
    (Json.array entries).HasShortInts ∧
      s.Holds Same InOrder key (Json.array entries).print expires w'.store := by
  obtain ⟨w₁, hlookUp, hput⟩ := h.written
  obtain ⟨seconds, hseconds, rfl⟩ := h.expires
  have hreturns := h.returns
  rw [fetchAll_eq] at hreturns
  have hdispatch : Returns (d.dispatch call.requests call.options) w₁ entries w' :=
    hlookUp.ends.mp hreturns
  have hpos : 0 < call.options.cacheTtl := FetchOptions.cacheTtl_pos h.uses.key
  have hsound₁ : Sound w₁.store := by
    rw [store_lookUp hlookUp, lookedUp, h.uses.key, h.uses.store]
    exact hkeeps.sound_get hsound
  have hinOrder := hkeeps.inOrder_of_put hsound₁ hpos hput
  have hjoined : (Json.array entries).print.IsJoined :=
    (Json.isPlain_print _).noSurrogate.isJoined
  have hstore := returns_dispatch_write h.uses.store h.uses.key hdispatch
  refine ⟨hasShortInts_dispatch hdispatch, ?_⟩
  rw [hstore]
  exact hkeeps.holds_put hinOrder hpos hseconds hjoined hexpires

/-- A call that finds the text of entries returns what is read from it, and does nothing else. -/
theorem returns_fetchAll_found (huses : d.Uses s clock options key)
    (hget : (s.get (clock w.now) key w.store).result = .ok (some (Json.array entries).print))
    (hshort : (Json.array entries).HasShortInts) :
    let w' := noted (w.asked (s.withClock clock) key) .debug
      (lit "Using cached responses for " ++ key)
    Returns (d.fetchAll requests options) w (Json.rereadItems entries) w' ∧ Still w w' ∧
      Quiet w w' := by
  intro w'
  have hfound := ends_readEntries huses.store hget
  have hparse := Json.parse_print hshort
  rw [Json.reread] at hparse
  rw [hparse, ← lookUp_eq (d := d) huses.key] at hfound
  have hidle : Idle (d.lookUp options) := within_lookUp d options
  have hquiet : Within Quiet (d.lookUp options) := within_lookUp d options
  refine ⟨?_, hidle hfound, hquiet hfound⟩
  rw [fetchAll_eq]
  exact hfound.ends.mpr rfl

/-- Calls that find nothing in stores that are in order end alike and do the same. -/
theorem ends_fetchAll_missed (hkeeps : s.Keeps key Sound InOrder Same)
    (huses : d.Uses s clock options key) (hw : InOrder w.store) (hv : InOrder v.store)
    (hmissed : (s.get (clock w.now) key w.store).result = .ok none)
    (hmissed' : (s.get (clock v.now) key v.store).result = .ok none)
    (hnow : v.now = w.now) (hstarted : v.startedAt = w.startedAt) (hfetches : v.fetches = w.fetches) :
    ∃ result w' v', Ends (d.fetchAll requests options) w result w' ∧
      Ends (d.fetchAll requests options) v result v' ∧
      Shadows (fun y y' => InOrder y ∧ InOrder y') w.events v.events w' v' := by
  have hw₁ : Returns (d.lookUp options) w none _ := returns_lookUp_none huses.key huses.store hmissed
  have hv₁ : Returns (d.lookUp options) v none _ := returns_lookUp_none huses.key huses.store hmissed'
  have htakes : ∀ s', d.store = some s' → s'.Takes fun y y' => InOrder y ∧ InOrder y' := by
    rintro s' hs'
    cases huses.store.symm.trans hs'
    exact hkeeps.takes.withClock clock
  have hshadows : Shadows (fun y y' => InOrder y ∧ InOrder y') w.events v.events
      (w.asked (s.withClock clock) key) (v.asked (s.withClock clock) key) :=
    ⟨hnow, hstarted, hfetches, ⟨hkeeps.inOrder_get hw, hkeeps.inOrder_get hv⟩, _, _, rfl, rfl,
      by rw [deeds_logs, deeds_logs]⟩
  obtain ⟨result, w', v', hw', hv', hafter⟩ := (mirrors_dispatch htakes requests).ends hshadows
  refine ⟨result, w', v', ?_, ?_, hafter⟩
  · rw [fetchAll_eq]
    exact hw₁.ends.mpr hw'
  · rw [fetchAll_eq]
    exact hv₁.ends.mpr hv'

theorem records_of_check (call : Call) {seconds : τ} (p : List Json → World σ τ → Bool)
    (hstore : d.store = some s) (hkey : call.options.storeKey? = some key)
    (hget : (s.get w.now key w.store).result = .ok none)
    (hseconds : Seconds.ofInt? call.options.cacheTtl = some seconds)
    (h : check (d.fetchAll call.requests call.options) w (fun entries w' =>
      p entries w' && decide ((s.put w'.now key (Json.array entries).print call.options.cacheTtl
        (w.asked s key).store).result = .ok ())) = true) :
    ∃ entries w', d.Records s id key call w entries (Seconds.add w'.now seconds) w' ∧
      p entries w' = true := by
  obtain ⟨entries, w', hreturns, hp⟩ := returns_of_check h
  rw [Bool.and_eq_true, decide_eq_true_eq] at hp
  exact ⟨entries, w', ⟨⟨hstore, hkey⟩, hreturns, ⟨_, returns_lookUp_none hkey hstore hget, hp.2⟩,
    ⟨seconds, hseconds, rfl⟩⟩, hp.1⟩

end Keeps

/-- What a call wrote into a store of the program, later calls with the key return as a list with the same
text, until it expires and whatever they ask for: nothing is sent or put, no time passes, and nobody looks
for an address or a token. From then on they find nothing, and end as they do in any store in order that has
no value for the key. Between the calls there are look-ups and changes outside of the store. In the entries
no object has two names that are written alike, floats are read back from their texts, and a key in a file
has no pairs of surrogates. -/
theorem fetchAll_recalled (choice : StoreChoice) {key : Text} (hadmits : choice.Admits key)
    {d : Dispatcher choice.State Float} {clock : Float → Float} {call : Call}
    {w w' : World choice.State Float} {entries : List Json} {expires : Float}
    (hsound : choice.Sound w.store)
    (hrecords : d.Records choice.store clock key call w entries expires w')
    (hnames : ∀ fields ∈ (Json.array entries).objects, Json.NamesApart fields)
    (hfloats : ∀ x ∈ expires :: (Json.array entries).floats, ReadsBack x) :
    (∃ entries', (Json.array entries').print = (Json.array entries).print ∧
      ∀ (d₂ : Dispatcher choice.State Float) (clock₂ : Float → Float) (call₂ : Call)
        (w₂ : World choice.State Float), d₂.Uses choice.store clock₂ call₂.options key →
        choice.store.Reads choice.Same (fun now other => other = key → Seconds.le expires now = false)
          w'.store w₂.store →
        Seconds.le expires (clock₂ w₂.now) = false →
        let w₃ := noted (w₂.asked (choice.store.withClock clock₂) key) .debug
          (lit "Using cached responses for " ++ key)
        Returns (d₂.fetchAll call₂.requests call₂.options) w₂ entries' w₃ ∧ Still w₂ w₃ ∧
          Quiet w₂ w₃) ∧
    ∀ (d₂ : Dispatcher choice.State Float) (clock₂ : Float → Float) (call₂ : Call)
      (w₂ : World choice.State Float), d₂.Uses choice.store clock₂ call₂.options key →
      choice.store.Reads choice.Same (fun _ _ => True) w'.store w₂.store →
      Seconds.le expires (clock₂ w₂.now) = true →
      (∃ w₃, Returns (d₂.lookUp call₂.options) w₂ none w₃) ∧
      ∀ v : World choice.State Float, v.now = w₂.now → v.startedAt = w₂.startedAt →
        v.fetches = w₂.fetches → choice.InOrder v.store →
        (choice.store.get (clock₂ v.now) key v.store).result = .ok none →
        ∃ result w₃ v₃, Ends (d₂.fetchAll call₂.requests call₂.options) w₂ result w₃ ∧
          Ends (d₂.fetchAll call₂.requests call₂.options) v result v₃ ∧
          Shadows (fun y y' => choice.InOrder y ∧ choice.InOrder y') w₂.events v.events w₃ v₃ := by
  obtain ⟨hexpires, hfloats⟩ := List.forall_mem_cons.mp hfloats
  obtain ⟨hshort, hholds⟩ := hrecords.holds (StoreChoice.keeps hadmits) hsound hexpires.isKept
  have hprint : (Json.array (Json.rereadItems entries)).print = (Json.array entries).print := by
    have hsame := Json.print_reread (fun x hx => hfloats x (Json.mem_floats.mpr hx))
      fun fields hf => hnames fields (Json.mem_objects.mpr hf)
    rwa [Json.reread] at hsame
  refine ⟨⟨_, hprint, fun d₂ clock₂ call₂ w₂ huses hreads hnow => ?_⟩,
    fun d₂ clock₂ call₂ w₂ huses hreads hnow => ?_⟩
  · exact returns_fetchAll_found huses (hholds.found _ hreads _ hnow) hshort
  · have hmissed := hholds.expired _ hreads _ hnow
    refine ⟨⟨_, returns_lookUp_none huses.key huses.store hmissed⟩,
      fun v hnow' hstarted hfetches hv hmissed' => ?_⟩
    exact ends_fetchAll_missed (StoreChoice.keeps hadmits) huses (hholds.inOrder _ hreads) hv
      hmissed hmissed' hnow' hstarted hfetches

def replyingDispatcher (choice : StoreChoice) (text : Text) : Dispatcher choice.State Float where
  settings := ⟨30, 2, 6, 0, "agent", [], "source"⟩
  fetcher _ batch := ⟨0, .ok (batch.map fun _ => ⟨200, some text⟩)⟩
  store := some choice.store
  credentials := none
  maxRounds := 10

def minuteCall (key : Text) : Call where
  requests := [⟨"A.b", []⟩]
  options := {
    address := some "https://matomo.example.com"
    cacheKey := some key
    cacheTtl := 60 }

/-- Another call gets the entries from the file, without credentials, until a minute has passed. -/
theorem fetchAll_recalled_minute :
    let choice : StoreChoice := .disk ⟨"/", ["cache"]⟩
    let d := replyingDispatcher choice "\x7b\"a\": [1, 1.5, \"ü\"]\x7d"
    let other := { d with credentials := some ⟨.error .notFound, []⟩ }
    let later : Call := ⟨[], { cacheKey := some "k", cacheTtl := 1 }⟩
    let w : World choice.State Float := ⟨1000, 1000, 0, ([] : Files), []⟩
    ∃ entries w', d.Records choice.store id "k" (minuteCall "k") w entries 1060 w' ∧
      (∃ entries' w₃, (Json.array entries').print = (Json.array entries).print ∧
        Returns (other.fetchAll later.requests later.options) w' entries' w₃ ∧ Still w' w₃) ∧
      ∃ w₃, Returns (other.lookUp later.options) { w' with now := 1060 } none w₃ := by
  intro choice d other later w
  have hkey : (minuteCall "k").options.storeKey? = some (lit "k") := by decide
  have hget : (choice.store.get w.now (lit "k") w.store).result = .ok none := by decide +kernel
  have hseconds : (Seconds.ofInt? (minuteCall "k").options.cacheTtl : Option Float) = some 60 := by
    decide +kernel
  obtain ⟨entries, w', hrecords, hp⟩ := records_of_check (d := d) (minuteCall "k")
    (fun entries w' => decide (w'.now = 1000 ∧ (Json.array entries).floats = [1.5] ∧
      ∀ fields ∈ (Json.array entries).objects, Json.NamesApart fields)) rfl hkey hget hseconds
    (by decide +kernel)
  obtain ⟨hnow, hfloats, hnames⟩ := of_decide_eq_true hp
  have hexpires : Seconds.add w'.now (60 : Float) = 1060 := by
    rw [hnow]
    decide +kernel
  rw [hexpires] at hrecords
  have hreadBack : ∀ x ∈ (1060 : Float) :: (Json.array entries).floats, ReadsBack x := by
    have hall : ReadsBack 1060 ∧ ReadsBack 1.5 :=
      ⟨fun _ _ => by decide +kernel, fun _ _ => by decide +kernel⟩
    rw [hfloats]
    simpa using hall
  have hadmits : choice.Admits (lit "k") := by
    have hjoined : (lit "k").IsJoined := by decide
    exact hjoined
  obtain ⟨⟨entries', hprint, hfound⟩, hmissed⟩ :=
    fetchAll_recalled choice hadmits trivial hrecords hnames hreadBack
  have hearly : Seconds.le (1060 : Float) w'.now = false := by
    rw [hnow]
    decide +kernel
  have hlate : Seconds.le (1060 : Float) 1060 = true := by decide +kernel
  obtain ⟨hreturns, hstill, -⟩ := hfound other id later w' ⟨rfl, rfl⟩ .refl hearly
  obtain ⟨hnone, -⟩ := hmissed other id later { w' with now := 1060 } ⟨rfl, rfl⟩ .refl hlate
  exact ⟨entries, w', hrecords, ⟨entries', _, hprint, hreturns, hstill⟩, hnone⟩

theorem twice_of_check (choice : StoreChoice) (text key : Text) {w : World choice.State Float}
    (p : List Json → World choice.State Float → List Json → World choice.State Float → Bool)
    (hkey : (minuteCall key).options.storeKey? = some key)
    (hget : (choice.store.get w.now key w.store).result = .ok none)
    (h : check ((replyingDispatcher choice text).fetchAll (minuteCall key).requests
      (minuteCall key).options) w (fun entries w' => (decide (w'.now = 1000) &&
        check ((replyingDispatcher choice text).fetchAll (minuteCall key).requests
          (minuteCall key).options) w' (p entries w')) &&
        decide ((choice.store.put w'.now key (Json.array entries).print 60
          (w.asked choice.store key).store).result = .ok ())) = true) :
    ∃ entries w' entries' w'', (replyingDispatcher choice text).Records choice.store id key
        (minuteCall key) w entries 1060 w' ∧ Seconds.le (1060 : Float) w'.now = false ∧
      Returns ((replyingDispatcher choice text).fetchAll (minuteCall key).requests
        (minuteCall key).options) w' entries' w'' ∧ p entries w' entries' w'' = true := by
  have hseconds : (Seconds.ofInt? (minuteCall key).options.cacheTtl : Option Float) = some 60 := by
    have hminute : (Seconds.ofInt? 60 : Option Float) = some 60 := by decide +kernel
    exact hminute
  have hexpires : Seconds.add (1000 : Float) 60 = 1060 := by decide +kernel
  have hearly : Seconds.le (1060 : Float) 1000 = false := by decide +kernel
  obtain ⟨entries, w', hrecords, hp⟩ :=
    records_of_check (minuteCall key) _ rfl hkey hget hseconds h
  rw [Bool.and_eq_true, decide_eq_true_eq] at hp
  obtain ⟨hnow, hagain⟩ := hp
  obtain ⟨entries', w'', hreturns, hp⟩ := returns_of_check hagain
  rw [hnow, hexpires] at hrecords
  rw [← hnow] at hearly
  exact ⟨entries, w', entries', w'', hrecords, hearly, hreturns, hp⟩

/-- Of two names that are written alike one is lost in the store, and in a file a key with a pair of
surrogates is not found. -/
theorem fetchAll_recalled_otherwise :
    let half : Text := [.surrogate 0x3D]
    let pair : Text := half ++ [.surrogate 0x600]
    let names : Text := lit "\x7b\"" ++ half ++ lit "\\ude00\": 1, \"\\ud83d\\ude00\": 2\x7d"
    let memory : StoreChoice := .memory 100
    let disk : StoreChoice := .disk ⟨"/", ["cache"]⟩
    (∃ entries w' entries' w'', (replyingDispatcher memory names).Records memory.store id "k"
        (minuteCall "k") ⟨1000, 1000, 0, MemoryStore.empty 100, []⟩ entries 1060 w' ∧
      Seconds.le (1060 : Float) w'.now = false ∧
      Returns ((replyingDispatcher memory names).fetchAll (minuteCall "k").requests
        (minuteCall "k").options) w' entries' w'' ∧
      (Json.array entries').print ≠ (Json.array entries).print) ∧
    ∃ entries w' entries' w'', (replyingDispatcher disk "1").Records disk.store id pair
        (minuteCall pair) ⟨1000, 1000, 0, ([] : Files), []⟩ entries 1060 w' ∧
      Seconds.le (1060 : Float) w'.now = false ∧
      Returns ((replyingDispatcher disk "1").fetchAll (minuteCall pair).requests
        (minuteCall pair).options) w' entries' w'' ∧ w''.fetches ≠ w'.fetches := by
  intro half pair names memory disk
  constructor
  · obtain ⟨entries, w', entries', w'', hrecords, hearly, hreturns, hp⟩ :=
      twice_of_check memory names "k" (w := ⟨1000, 1000, 0, MemoryStore.empty 100, []⟩)
        (fun entries _ entries' _ => decide ((Json.array entries').print ≠ (Json.array entries).print))
        (by decide) (by decide +kernel) (by decide +kernel)
    exact ⟨entries, w', entries', w'', hrecords, hearly, hreturns, of_decide_eq_true hp⟩
  · obtain ⟨entries, w', entries', w'', hrecords, hearly, hreturns, hp⟩ :=
      twice_of_check disk "1" pair (w := ⟨1000, 1000, 0, ([] : Files), []⟩)
        (fun _ w' _ w'' => decide (w''.fetches ≠ w'.fetches))
        (by decide) (by decide +kernel) (by decide +kernel)
    exact ⟨entries, w', entries', w'', hrecords, hearly, hreturns, of_decide_eq_true hp⟩

end Dispatcher
end MetricBridge
