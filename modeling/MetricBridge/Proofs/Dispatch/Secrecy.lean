import MetricBridge.Proofs.Dispatch.Pairing
import MetricBridge.Proofs.Text.Percent

namespace MetricBridge

variable {σ τ α : Type}

def FetchRequest.withoutBody (r : FetchRequest) : FetchRequest := { r with body := [] }

/-- What becomes of a batch does not depend on the bodies of its requests. -/
def Fetcher.OverlooksBodies (fetcher : Fetcher τ) : Prop :=
  ∀ number batch batch',
    List.map FetchRequest.withoutBody batch' = List.map FetchRequest.withoutBody batch →
      fetcher number batch' = fetcher number batch

/-- The requests differ in nothing but what follows the last ampersand of their bodies. -/
structure FetchRequest.Twins (r r' : FetchRequest) : Prop where
  rest : r'.withoutBody = r.withoutBody
  bodies : ∃ secret secret' : Text, CodePoint.scalar '&' ∉ secret ∧ CodePoint.scalar '&' ∉ secret' ∧
    r.body = r.query ++ lit "&token_auth=" ++ secret ∧
    r'.body = r.query ++ lit "&token_auth=" ++ secret'

inductive Event.Alike : Event τ → Event τ → Prop
  | fetch {batch batch' : List FetchRequest} :
      List.Forall₂ FetchRequest.Twins batch batch' → Alike (.fetch batch) (.fetch batch')
  | sleep (seconds : τ) : Alike (.sleep seconds) (.sleep seconds)
  | put (key value : Text) (ttl : Int) : Alike (.put key value ttl) (.put key value ttl)
  | log (entry : LogEntry) : Alike (.log entry) (.log entry)

structure Veils (past : List (Event τ)) (w v : World σ τ) : Prop where
  now : v.now = w.now
  startedAt : v.startedAt = w.startedAt
  fetches : v.fetches = w.fetches
  store : v.store = w.store
  events : ∃ new new', w.events = new ++ past ∧ v.events = new' ++ past ∧
    List.Forall₂ Event.Alike new new'

variable {past : List (Event τ)} {w v : World σ τ}

namespace Veils

theorem refl (w : World σ τ) : Veils w.events w w :=
  ⟨rfl, rfl, rfl, rfl, [], [], rfl, rfl, .nil⟩

theorem recorded (h : Veils past w v) {event event' : Event τ} (halike : event.Alike event') :
    Veils past { w with events := event :: w.events } { v with events := event' :: v.events } := by
  obtain ⟨new, new', he, he', hnew⟩ := h.events
  exact ⟨h.now, h.startedAt, h.fetches, h.store, event :: new, event' :: new',
    congrArg (event :: ·) he, congrArg (event' :: ·) he', .cons halike hnew⟩

end Veils

namespace Run

/-- From any state, the computations end with the same result or the same failure, and do the same but for
the secrets in the bodies of requests. -/
def Veiled (x y : Run σ τ α) : Prop :=
  ∀ w, ∃ result w' v', Ends x w result w' ∧ Ends y w result v' ∧ Veils w.events w' v'

theorem Pairs.veiled {x y : Run σ τ α} (h : ∀ past, Pairs (Veils past) Eq x y) : Veiled x y :=
  fun w => (h w.events).ends (.refl w)

theorem veils_get : Pairs (Veils past) (Veils past) (get : Run σ τ _) (get : Run σ τ _) :=
  fun w v h => ⟨w, v, h, .inr ⟨w, v, h, rfl, rfl⟩⟩

variable [Seconds τ]

instance : Lockstep (Veils past : World σ τ → World σ τ → Prop) where
  now h := h.now
  startedAt h := h.startedAt
  logged entry h := h.recorded (.log entry)
  slept seconds h :=
    { h.recorded (.sleep seconds) with now := congrArg (Seconds.add · seconds) h.now }

theorem veils_takeAnswer (answer : StoreAnswer σ α) :
    Mirrors (Veils past) (takeAnswer answer : Run σ τ _) := by
  have hstored : Mirrors (Veils past)
      (modify fun w => { w with store := answer.state } : Run σ τ Unit) := fun w v h =>
    ⟨{ w with store := answer.state }, { v with store := answer.state }, { h with store := rfl },
      .inr ⟨(), (), rfl, rfl, rfl⟩⟩
  exact hstored.andThen fun _ => (Mirrors.loggedAll _).andThen fun _ => .pure rfl

theorem veils_readStore (store : Option (Store σ τ)) (key : Text) :
    Mirrors (Veils past) (readStore store key) := by
  cases store with
  | none => exact .pure rfl
  | some s =>
      refine veils_get.bind fun w v h => ?_
      rw [h.now, h.store]
      refine (veils_takeAnswer _).andThen fun result => ?_
      cases result with
      | ok => exact .pure rfl
      | error => exact .throw

theorem veils_writeStore (s : Store σ τ) (key value : Text) (ttl : Int) :
    Mirrors (Veils past) (writeStore s key value ttl) := by
  have hput : Mirrors (Veils past) (record (.put key value ttl) : Run σ τ Unit) :=
    fun w v h => ⟨_, _, h.recorded (.put key value ttl), .inr ⟨(), (), rfl, rfl, rfl⟩⟩
  refine hput.andThen fun _ => veils_get.bind fun w v h => ?_
  rw [h.now, h.store]
  refine (veils_takeAnswer _).andThen fun result => ?_
  cases result with
  | ok => exact .pure rfl
  | error => exact .pure rfl

theorem veils_fetch {fetcher : Fetcher τ} (hfetcher : fetcher.OverlooksBodies)
    {batch batch' : List FetchRequest} (htwins : List.Forall₂ FetchRequest.Twins batch batch') :
    Pairs (Veils past) Eq (fetch fetcher batch : Run σ τ _) (fetch fetcher batch') := by
  have hrest : List.map FetchRequest.withoutBody batch' = List.map FetchRequest.withoutBody batch := by
    induction htwins with
    | nil => rfl
    | cons htwin _ ih => rw [List.map_cons, List.map_cons, htwin.rest, ih]
  refine .of_ends fun w v h => ?_
  -- the only place where what is done could depend on the bodies
  have hanswer : fetcher v.fetches batch' = fetcher w.fetches batch := by
    rw [h.fetches]
    exact hfetcher _ _ _ hrest
  have hw := returns_fetch fetcher batch w
  have hv := returns_fetch fetcher batch' v
  rw [hanswer, h.now, h.fetches] at hv
  exact ⟨_, _, _, hw, hv, { h.recorded (.fetch htwins) with now := rfl, fetches := rfl }⟩

end Run

def FetchOptions.giving (token? : Option Text) (options : FetchOptions) : FetchOptions :=
  { options with token := token? }

def encodable? (token? : Option Text) : Option Bool :=
  token?.map fun token => decide token.NoSurrogate

theorem encodable?_or (token? other? : Option Text) :
    encodable? (token?.or other?) = (encodable? token?).or (encodable? other?) :=
  Option.map_or

theorem noSurrogate_getD_iff (token? : Option Text) :
    (token?.getD "anonymous").NoSurrogate ↔ (encodable? token?).getD true = true := by
  cases token? with
  | none => decide
  | some token => exact decide_eq_true_iff.symm

def Credentials.outline (found : Credentials) : Option Text × Option Bool :=
  (found.address, encodable? (Dispatcher.given? found.token))

structure CredentialLookup.Alike (lookup lookup' : CredentialLookup) : Prop where
  log : lookup'.log = lookup.log
  outline : lookup'.result.map Credentials.outline = lookup.result.map Credentials.outline

def CredentialLookup.withToken (token : Text) (lookup : CredentialLookup) : CredentialLookup :=
  { lookup with result := lookup.result.map fun found => { found with token := some token } }

theorem CredentialLookup.alike_withToken {token token' : Text}
    (htokens : encodable? (Dispatcher.given? (some token')) =
      encodable? (Dispatcher.given? (some token))) (lookup : CredentialLookup) :
    (lookup.withToken token).Alike (lookup.withToken token') where
  log := rfl
  outline := by
    unfold withToken
    cases lookup.result with
    | error fault => rfl
    | ok found => exact congrArg (fun token => Except.ok (found.address, token)) htokens

namespace Dispatcher

open Run

def sought (d : Dispatcher σ τ) (options : FetchOptions) :
    Run σ τ (Option Text × Option Text) :=
  let address := given? options.address
  let token := given? options.token
  match d.credentials with
  | none => pure (address, token)
  | some lookup =>
    if address.isSome && token.isSome then pure (address, token)
    else do
      lookup.log.forM fun entry => Run.record (.log entry)
      match lookup.result with
      | .error fault => throw (.credentials fault)
      | .ok found => pure (address.or (given? found.address), token.or (given? found.token))

def aimed (d : Dispatcher σ τ) (found : Option Text × Option Text) : Run σ τ Target :=
  match found.1 with
  | none => throw .noAddress
  | some address => match Endpoint.splitUserInfo (Endpoint.normalize address) with
    | none => throw .unencodable
    | some (authorization, address) =>
      let headers := Entries.merge (Entries.merge (Entries.ofPairs
        [(lit "User-Agent", d.settings.userAgent)]) d.settings.extraHeaders) authorization
      return ⟨address, headers, found.2.getD "anonymous"⟩

theorem target_eq (d : Dispatcher σ τ) (options : FetchOptions) : d.target options = (do
    let found ← d.sought options
    d.aimed found) := by
  unfold target sought
  dsimp only
  cases d.credentials with
  | none => rfl
  | some lookup =>
      dsimp only
      split
      · rfl
      · rw [bind_assoc]
        cases lookup.result <;> rfl

def seeking (lookup? : Option CredentialLookup) (d : Dispatcher σ τ) : Dispatcher σ τ :=
  { d with credentials := lookup? }

def withToken (token : Text) (d : Dispatcher σ τ) : Dispatcher σ τ :=
  d.seeking (d.credentials.map (.withToken token))

structure SameOutline (found found' : Option Text × Option Text) : Prop where
  address : found'.1 = found.1
  token : encodable? found'.2 = encodable? found.2

structure Target.Alike (target target' : Target) : Prop where
  address : target'.address = target.address
  headers : target'.headers = target.headers
  token : target'.token.NoSurrogate ↔ target.token.NoSurrogate

theorem Target.Alike.twins {target target' : Target} (h : target.Alike target') (query : Text) :
    (target.request query).Twins (target'.request query) where
  rest := by simp [request, FetchRequest.withoutBody, h.address, h.headers]
  bodies := ⟨_, _, Text.notMem_percentEncode (by decide) (by decide) (by decide) _,
    Text.notMem_percentEncode (by decide) (by decide) (by decide) _, rfl, rfl⟩

theorem Target.Alike.batch {target target' : Target} (h : target.Alike target')
    (state : RetryState τ) :
    List.Forall₂ FetchRequest.Twins (target.batch state) (target'.batch state) := by
  unfold Target.batch
  rw [List.forall₂_map_left_iff, List.forall₂_map_right_iff, List.forall₂_same]
  exact fun query _ => h.twins query

variable {d : Dispatcher σ τ} {options : FetchOptions} {token token' : Text}
  {found found' : Option Text × Option Text}

theorem given?_some (htoken : token ≠ []) : given? (some token) = some token := by
  cases token with
  | nil => exact absurd rfl htoken
  | cons => rfl

theorem pairs_aimed (hfound : SameOutline found found') :
    Pairs (Veils past) Target.Alike (d.aimed found) (d.aimed found') := by
  unfold aimed
  rw [hfound.address]
  split
  · exact .throw
  · split
    · exact .throw
    · refine .pure ⟨rfl, rfl, ?_⟩
      rw [noSurrogate_getD_iff, noSurrogate_getD_iff, hfound.token]

variable [Seconds τ]

theorem pairs_sought {d d' : Dispatcher σ τ} {options options' : FetchOptions}
    (haddress : options'.address = options.address)
    (htoken : encodable? (given? options'.token) = encodable? (given? options.token))
    (hlookups : Option.Rel CredentialLookup.Alike d.credentials d'.credentials) :
    Pairs (Veils past) SameOutline (d.sought options) (d'.sought options') := by
  have hgiven : (given? options'.token).isSome = (given? options.token).isSome := by
    simpa only [encodable?, Option.isSome_map] using congrArg Option.isSome htoken
  unfold sought
  dsimp only
  rw [haddress, hgiven]
  generalize d.credentials = lookup?, d'.credentials = lookup?' at hlookups
  cases hlookups with
  | none => exact .pure ⟨rfl, htoken⟩
  | @some lookup lookup' halike =>
      dsimp only
      -- whether the credentials are looked for depends on what is given, not on the token itself
      split
      · exact .pure ⟨rfl, htoken⟩
      · rw [halike.log]
        refine (Mirrors.loggedAll _).andThen fun _ => ?_
        have hfound := halike.outline
        cases hresult : lookup.result with
        | error fault =>
            rw [hresult] at hfound
            rw [map_eq_error hfound]
            exact .throw
        | ok found =>
            rw [hresult] at hfound
            obtain ⟨found', hresult', hsame⟩ := map_eq_ok hfound
            obtain ⟨hsameAddress, hsameToken⟩ := Prod.mk.inj hsame
            rw [hresult']
            refine .pure ⟨congrArg (fun a => (given? options.address).or (given? a)) hsameAddress, ?_⟩
            rw [encodable?_or, encodable?_or, htoken, hsameToken]

theorem mirrors_lookUp : Mirrors (Veils past) (d.lookUp options) := by
  unfold lookUp
  cases options.storeKey? with
  | none => exact .pure rfl
  | some key =>
      dsimp only
      rw [readEntries_eq]
      refine (veils_readStore _ _).andThen fun text? => ?_
      unfold decoded
      split
      · exact .pure rfl
      · split
        · exact (Mirrors.logged _).andThen fun _ => .pure rfl
        · exact .throw
        · exact (Mirrors.logged _).andThen fun _ => .pure rfl

variable {lookup? : Option CredentialLookup} {token? : Option Text}

theorem pairs_dispatch (hfetcher : d.fetcher.OverlooksBodies)
    (htoken : encodable? (given? token?) = encodable? (given? options.token))
    (hlookups : Option.Rel CredentialLookup.Alike d.credentials lookup?) (requests : List Request) :
    Pairs (Veils past) Eq (d.dispatch requests options)
      ((d.seeking lookup?).dispatch requests (options.giving token?)) := by
  have htarget : Pairs (Veils past) Target.Alike (d.target options)
      ((d.seeking lookup?).target (options.giving token?)) := by
    have hsought : Pairs (Veils past) SameOutline (d.sought options)
        ((d.seeking lookup?).sought (options.giving token?)) := pairs_sought rfl htoken hlookups
    rw [target_eq, target_eq]
    exact hsought.bind fun _ _ => pairs_aimed
  -- with the same target, what follows is the same computation
  have hrounds : ∀ target start, (d.seeking lookup?).allRounds requests (options.giving token?) target
      start = d.allRounds requests options target start := fun target _ =>
    rounds_congr d (d.seeking lookup?) options (options.giving token?) rfl rfl rfl rfl rfl target _ _ _
  have hfinish : ∀ entries, (d.seeking lookup?).finish requests (options.giving token?) entries =
      d.finish requests options entries := fun _ => rfl
  rw [dispatch_eq_gather, dispatch_eq_gather]
  simp only [hfinish]
  refine Pairs.andThen ?_ fun entries =>
    mirrors_finish (fun s _ => veils_writeStore s) requests entries
  unfold gather
  simp only [hrounds]
  refine htarget.bind fun target target' halike => ?_
  exact pairs_gathered halike.token (fun state => veils_fetch hfetcher (halike.batch state)) requests

theorem pairs_fetchAll (hfetcher : d.fetcher.OverlooksBodies)
    (htoken : encodable? (given? token?) = encodable? (given? options.token))
    (hlookups : Option.Rel CredentialLookup.Alike d.credentials lookup?) (requests : List Request) :
    Pairs (Veils past) Eq (d.fetchAll requests options)
      ((d.seeking lookup?).fetchAll requests (options.giving token?)) := by
  have hlookUp : (d.seeking lookup?).lookUp (options.giving token?) = d.lookUp options := rfl
  rw [fetchAll_eq, fetchAll_eq, hlookUp]
  refine mirrors_lookUp.andThen fun found? => ?_
  cases found? with
  | some entries => exact .pure rfl
  | none => exact pairs_dispatch hfetcher htoken hlookups requests

/-- Whatever is requested of a server that overlooks the bodies: two calls that differ only in the token that
their options give them, or that is found with their credentials, end with the same entries or with the
same failure if both tokens can be encoded. They send the same queries with the same headers to the same
addresses, sleep for the same times, put the same texts into the store and log the same, all in the same
order. Only the bodies differ, after their last ampersand. -/
theorem token_only_in_bodies (hfetcher : d.fetcher.OverlooksBodies) (htoken : token ≠ [])
    (htoken' : token' ≠ []) (hencoded : token.NoSurrogate) (hencoded' : token'.NoSurrogate)
    (requests : List Request) (options : FetchOptions) :
    Veiled (d.fetchAll requests (options.giving (some token)))
        (d.fetchAll requests (options.giving (some token'))) ∧
      Veiled ((d.withToken token).fetchAll requests options)
        ((d.withToken token').fetchAll requests options) := by
  have htokens : encodable? (given? (some token')) = encodable? (given? (some token)) := by
    rw [given?_some htoken, given?_some htoken']
    simp only [encodable?, Option.map_some, hencoded, hencoded']
  refine ⟨Pairs.veiled fun past => ?_, Pairs.veiled fun past => ?_⟩
  · have hlookups : Option.Rel CredentialLookup.Alike d.credentials d.credentials := by
      cases d.credentials with
      | none => exact .none
      | some lookup => exact .some ⟨rfl, rfl⟩
    exact pairs_fetchAll hfetcher htokens hlookups requests
  · have hlookups : Option.Rel CredentialLookup.Alike (d.withToken token).credentials
        (d.withToken token').credentials := by
      unfold withToken seeking
      cases d.credentials with
      | none => exact .none
      | some lookup => exact .some (lookup.alike_withToken htokens)
    exact pairs_fetchAll (d := d.withToken token) hfetcher rfl hlookups requests

def lateDispatcher : Dispatcher Unit Int where
  settings := ⟨30, 2, 6, 0, "agent", [], "source"⟩
  fetcher
    | 0, _ => ⟨1, .error ⟨"Exception", "DNS error"⟩⟩
    | _, batch => ⟨1, .ok (batch.map fun r => ⟨200, some (Json.string r.query).print⟩)⟩
  store := none
  credentials := some (.fixed none none)
  maxRounds := 10

theorem lateDispatcher_overlooksBodies : lateDispatcher.fetcher.OverlooksBodies := by
  intro number batch batch' h
  cases number with
  | zero => rfl
  | succ number =>
      have hqueries := congrArg (List.map FetchRequest.query) h
      rw [List.map_map, List.map_map] at hqueries
      have hreplies := congrArg
        (List.map fun query => Reply.mk 200 (some (Json.string query).print)) hqueries
      rw [List.map_map, List.map_map] at hreplies
      exact congrArg (fun replies => Fetched.mk (1 : Int) (.ok replies)) hreplies

/-- Both calls send their batch again; what follows the last ampersand is the token. -/
theorem token_only_in_bodies_retried :
    let requests : List Request := [⟨"A.a", []⟩]
    let options : FetchOptions := { address := some "https://matomo.example.com" }
    let world : World Unit Int := ⟨0, 0, 0, (), []⟩
    let bodies := fun w : World Unit Int => (batches w.events).flatten.map (·.body)
    let query := lit "module=API&method=A.a&format=JSON&source=1"
    lateDispatcher.fetcher.OverlooksBodies ∧ lit "secret" ≠ [] ∧ lit "other" ≠ [] ∧
    (lit "secret").NoSurrogate ∧ (lit "other").NoSurrogate ∧
    (∃ entries w' v',
      Returns (lateDispatcher.fetchAll requests (options.giving (some "secret"))) world entries w' ∧
      Returns (lateDispatcher.fetchAll requests (options.giving (some "other"))) world entries v' ∧
      Veils [] w' v' ∧
      bodies w' = List.replicate 2 (query ++ lit "&token_auth=secret") ∧
      bodies v' = List.replicate 2 (query ++ lit "&token_auth=other")) ∧
    Veiled ((lateDispatcher.withToken "secret").fetchAll requests options)
      ((lateDispatcher.withToken "other").fetchAll requests options) := by
  intro requests options world bodies query
  have hsecret : lit "secret" ≠ [] := by decide
  have hother : lit "other" ≠ [] := by decide
  have hencoded : (lit "secret").NoSurrogate ∧ (lit "other").NoSurrogate := by decide
  have hcheck : ∀ token ∈ [lit "secret", lit "other"],
      check (lateDispatcher.fetchAll requests (options.giving (some token))) world (fun _ w' =>
        bodies w' == List.replicate 2 (query ++ lit "&token_auth=" ++ token)) = true := by
    decide +kernel
  obtain ⟨entries, w', hw, hbodies⟩ := returns_of_check (hcheck (lit "secret") (by simp))
  obtain ⟨entries', v', hv, hbodies'⟩ := returns_of_check (hcheck (lit "other") (by simp))
  obtain ⟨hoptions, hcredentials⟩ :=
    token_only_in_bodies lateDispatcher_overlooksBodies hsecret hother hencoded.1 hencoded.2 requests options
  obtain ⟨result, _, _, hw', hv', hveils⟩ := hoptions world
  obtain ⟨rfl, rfl⟩ := Prod.mk.inj (hw'.symm.trans hw)
  obtain ⟨hentries, rfl⟩ := Prod.mk.inj (hv'.symm.trans hv)
  cases hentries
  exact ⟨lateDispatcher_overlooksBodies, hsecret, hother, hencoded.1, hencoded.2,
    ⟨entries, _, _, hw, hv, hveils, eq_of_beq hbodies, eq_of_beq hbodies'⟩, hcredentials⟩

/-- A token that cannot be encoded ends a call that returns with another one. -/
theorem not_veiled_of_surrogate :
    let requests : List Request := [⟨"A.a", []⟩]
    let options : FetchOptions := { address := some "https://matomo.example.com" }
    let token : Text := [.surrogate 0]
    lateDispatcher.fetcher.OverlooksBodies ∧ lit "secret" ≠ [] ∧ token ≠ [] ∧
      ¬Veiled (lateDispatcher.fetchAll requests (options.giving (some "secret")))
        (lateDispatcher.fetchAll requests (options.giving (some token))) := by
  intro requests options token
  let world : World Unit Int := ⟨0, 0, 0, (), []⟩
  refine ⟨lateDispatcher_overlooksBodies, by decide, by decide, fun hveiled => ?_⟩
  obtain ⟨result, w', v', hw, hv, -⟩ := hveiled world
  have hreturns : (StateT.run (ExceptT.run
      (lateDispatcher.fetchAll requests (options.giving (some "secret")))) world).1.isOk = true := by
    decide +kernel
  have hfails : (StateT.run (ExceptT.run
      (lateDispatcher.fetchAll requests (options.giving (some token)))) world).1.isOk = false := by
    decide +kernel
  rw [hw] at hreturns
  rw [hv] at hfails
  exact Bool.noConfusion (hreturns.symm.trans hfails)

end Dispatcher
end MetricBridge
