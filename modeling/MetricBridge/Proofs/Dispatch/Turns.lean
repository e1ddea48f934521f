import MetricBridge.Proofs.Dispatch.Conversation
import MetricBridge.Proofs.Dispatch.Reference
import MetricBridge.Proofs.Text.Utf8

namespace MetricBridge

open Run

variable {σ τ : Type} {query : Text} {reply : Reply} {pairs : List (Text × Reply)}
  {state state' : RetryState τ} {entries entries' : List Json} {failed failed' : Nat}
  {w w' : World σ τ}

def RetryState.after (state : RetryState τ) (query : Text) (reply : Reply) : RetryState τ :=
  { state with
    pending := if reply.isTerminal then Entries.erase query state.pending else state.pending
    lastStatus := Entries.set query reply.status state.lastStatus }

def entriesAfter (state : RetryState τ) (entries : List Json) (query : Text) (reply : Reply) :
    List Json :=
  match reply.entry? with
  | some entry => placeEntry ((Entries.find? query state.pending).getD []) entry entries
  | none => entries

def RetryState.afterAll (state : RetryState τ) (pairs : List (Text × Reply)) : RetryState τ :=
  pairs.foldl (fun state pair => state.after pair.1 pair.2) state

namespace RetryState

/-- Replies leave the timing as it is. -/
theorem afterAll_eq (state : RetryState τ) (pairs : List (Text × Reply)) :
    state.afterAll pairs = { state with
      pending := (state.afterAll pairs).pending
      lastStatus := (state.afterAll pairs).lastStatus } := by
  induction pairs generalizing state with
  | nil => rfl
  | cons pair pairs ih => exact ih (state.after pair.1 pair.2)

theorem afterAll_wait (state : RetryState τ) (pairs : List (Text × Reply)) :
    (state.afterAll pairs).wait = state.wait := by
  rw [afterAll_eq]

theorem afterAll_start (state : RetryState τ) (pairs : List (Text × Reply)) :
    (state.afterAll pairs).start = state.start := by
  rw [afterAll_eq]

theorem afterAll_rounds (state : RetryState τ) (pairs : List (Text × Reply)) :
    (state.afterAll pairs).rounds = state.rounds := by
  rw [afterAll_eq]

end RetryState

def Dispatcher.Target.batch (target : Dispatcher.Target) (state : RetryState τ) :
    List FetchRequest :=
  (Entries.keys state.pending).map target.request

namespace Dispatcher

theorem batch_queries (target : Target) (state : RetryState τ) :
    (target.batch state).map (·.query) = Entries.keys state.pending := by
  unfold Target.batch
  rw [List.map_map]
  exact List.map_id _

theorem settle_cons {verdict : Verdict} (hjudge : reply.judge query = .ok verdict)
    (state : RetryState τ) (entries : List Json) (failed : Nat) (rest : List (Text × Reply)) :
    (settle state entries failed ((query, reply) :: rest) : Run σ τ _) = (do
      verdict.note?.forM fun note => Run.record (.log note)
      settle (state.after query reply) (entriesAfter state entries query reply)
        (if reply.isTerminal then failed else failed + 1) rest) := by
  obtain ⟨hentry, hfinal⟩ := Reply.judge_eq hjudge
  rw [settle]
  simp only [hjudge, pure_bind, hentry, hfinal, RetryState.after, entriesAfter]
  by_cases ht : reply.isTerminal = true
  · simp only [ht, if_true]
    rfl
  · simp only [ht]
    rfl

theorem not_returns_settle {failure : Failure} (hjudge : reply.judge query = .error failure)
    {rest : List (Text × Reply)} {x : RetryState τ × List Json × Nat} :
    ¬Returns (settle state entries failed ((query, reply) :: rest)) w x w' := by
  rw [settle]
  simp only [hjudge]
  exact not_returns_throw_bind

theorem returns_settle_cons {rest : List (Text × Reply)} {x : RetryState τ × List Json × Nat}
    (h : Returns (settle state entries failed ((query, reply) :: rest)) w x w') :
    (reply.judge query).isOk = true ∧ ∃ w₁ failed₁,
      Returns (settle (state.after query reply) (entriesAfter state entries query reply) failed₁
        rest) w₁ x w' := by
  cases hjudge : reply.judge query with
  | error failure => exact absurd h (not_returns_settle hjudge)
  | ok verdict =>
      rw [settle_cons hjudge] at h
      obtain ⟨_, w₁, -, h⟩ := returns_bind.mp h
      exact ⟨rfl, w₁, _, h⟩

/-- Taking over replies is a fold, and each of them can be judged. -/
theorem returns_settle
    (h : Returns (settle state entries failed pairs) w (state', entries', failed') w') :
    state' = state.afterAll pairs ∧ ∀ pair ∈ pairs, (pair.2.judge pair.1).isOk = true := by
  induction pairs generalizing state entries failed w with
  | nil =>
      obtain ⟨heq, -⟩ := returns_pure.mp h
      cases heq
      exact ⟨rfl, nofun⟩
  | cons pair pairs ih =>
      obtain ⟨hok, w₁, failed₁, hrest⟩ := returns_settle_cons h
      obtain ⟨hstate, hall⟩ := ih hrest
      exact ⟨hstate, List.forall_mem_cons.mpr ⟨hok, hall⟩⟩

theorem exists_loggedSome (noted : Option LogEntry) (w : World σ τ) :
    ∃ w', Returns (noted.forM fun entry => record (.log entry)) w () w' := by
  cases noted with
  | none => exact ⟨_, rfl⟩
  | some entry => exact ⟨_, rfl⟩

theorem exists_settle (hpairs : ∀ pair ∈ pairs, (pair.2.judge pair.1).isOk = true)
    (state : RetryState τ) (entries : List Json) (failed : Nat) (w : World σ τ) :
    ∃ x w', Returns (settle state entries failed pairs) w x w' := by
  induction pairs generalizing state entries failed w with
  | nil => exact ⟨_, _, returns_pure.mpr ⟨rfl, rfl⟩⟩
  | cons pair pairs ih =>
      obtain ⟨hok, hpairs⟩ := List.forall_mem_cons.mp hpairs
      obtain ⟨verdict, hjudge⟩ := exists_eq_ok hok
      obtain ⟨w₁, hlog⟩ := exists_loggedSome verdict.note? w
      obtain ⟨x, w', h⟩ := ih hpairs (state.after pair.1 pair.2)
        (entriesAfter state entries pair.1 pair.2)
        (if pair.2.isTerminal then failed else failed + 1) w₁
      refine ⟨x, w', ?_⟩
      rw [settle_cons hjudge]
      exact returns_bind.mpr ⟨(), w₁, hlog, h⟩

variable [Seconds τ] (d : Dispatcher σ τ)

def isLast (state : RetryState τ) (now : τ) : Bool := state.isDone || d.isOver state now

def turned (state : RetryState τ) (now : τ) : RetryState τ :=
  { state with
    rounds := state.rounds + 1
    wait := if d.isLast state now then state.wait
      else Retry.nextWait state.wait d.settings.longestWait }

theorem isLast_turned (state : RetryState τ) (now now' : τ) :
    d.isLast (d.turned state now) now' = d.isLast state now' := rfl

def pause (state : RetryState τ) (now : τ) : List (Event τ) :=
  if d.isLast state now then [] else [.sleep state.wait]

theorem batchesOf_pause (batch : List FetchRequest) (state : RetryState τ) (now : τ) :
    batchesOf (.fetch batch :: d.pause state now) = [batch] := by
  unfold pause
  split <;> rfl

def conclude (state : RetryState τ) (entries : List Json) (failed : Nat) :
    Run σ τ (RetryState τ × List Json) := do
  if d.isLast state (← Run.now) then return ({ state with rounds := state.rounds + 1 }, entries)
  log .info (Text.ofNat failed ++ lit " request(s) failed, retrying after " ++
    Seconds.brief state.wait ++ lit " seconds.")
  Run.sleep state.wait
  return ({ state with
    rounds := state.rounds + 1
    wait := Retry.nextWait state.wait d.settings.longestWait }, entries)

def prepare (options : FetchOptions) (target : Target) (state : RetryState τ) : Run σ τ Unit := do
  d.checkRuntime options state
  target.checkToken

theorem round_eq (options : FetchOptions) (target : Target) (state : RetryState τ)
    (entries : List Json) : d.round options target state entries = (do
      d.prepare options target state
      let queries := Entries.keys state.pending
      let (replies, lost) ← d.exchange (queries.map target.request)
      let (state, entries, failed) ← settle state entries lost (queries.zip replies)
      d.conclude state entries failed) := by
  unfold prepare
  rw [bind_assoc]
  rfl

theorem within_prepare {R : World σ τ → World σ τ → Prop} [OverlookingLogs R]
    (options : FetchOptions) (target : Target) (state : RetryState τ) :
    Within R (d.prepare options target state) :=
  (within_checkRuntime d options state).bind fun _ => within_checkToken target

theorem idle_prepare (options : FetchOptions) (target : Target) (state : RetryState τ) :
    Idle (d.prepare options target state) :=
  d.within_prepare options target state

theorem exists_conclude (state : RetryState τ) (entries : List Json) (failed : Nat)
    (w : World σ τ) : ∃ w', Returns (d.conclude state entries failed) w
      (d.turned state w.now, entries) w' ∧ Elapses d.fetcher w (d.pause state w.now) w' := by
  unfold conclude turned pause
  by_cases hlast : d.isLast state w.now = true
  · simp only [hlast, if_true]
    refine ⟨w, returns_bind.mpr ⟨w.now, w, rfl, ?_⟩, (Still.refl w).elapses d.fetcher⟩
    simp only [hlast, if_true]
    rfl
  · simp only [hlast]
    let message : Text := Text.ofNat failed ++ lit " request(s) failed, retrying after " ++
      Seconds.brief state.wait ++ lit " seconds."
    let w₁ : World σ τ := { w with events := .log ⟨.info, .dispatch, message⟩ :: w.events }
    have hlog : Returns (log .info message : Run σ τ Unit) w () w₁ := rfl
    obtain ⟨w', hsleep⟩ : ∃ w', Returns (Run.sleep state.wait : Run σ τ Unit) w₁ () w' := ⟨_, rfl⟩
    refine ⟨w', returns_bind.mpr ⟨w.now, w, rfl, ?_⟩, ?_⟩
    · simp only [hlast]
      exact returns_bind.mpr ⟨(), w₁, hlog, returns_bind.mpr ⟨(), w', hsleep, rfl⟩⟩
    · exact ((Idle.logged _ hlog).elapses d.fetcher).trans (ends_sleep d.fetcher hsleep).2

variable {d} {options : FetchOptions} {target : Target}

/-- A round sends all pending queries, takes over the replies and pauses unless it is the last. -/
theorem returns_round
    (h : Returns (d.round options target state entries) w (state', entries') w') :
    let batch := target.batch state
    let pairs := answers d.fetcher w.fetches batch
    let now := Seconds.add w.now (d.fetcher w.fetches batch).duration
    (∃ lost failed v v', Returns (settle state entries lost pairs : Run σ τ _) v
      (state.afterAll pairs, entries', failed) v') ∧
    (∀ pair ∈ pairs, (pair.2.judge pair.1).isOk = true) ∧
    state' = d.turned (state.afterAll pairs) now ∧
    Elapses d.fetcher w (.fetch batch :: d.pause (state.afterAll pairs) now) w' := by
  intro batch pairs now
  rw [round_eq] at h
  obtain ⟨_, w₁, hprepare, h⟩ := returns_bind.mp h
  obtain ⟨⟨received, lost⟩, w₂, hexchange, h⟩ := returns_bind.mp h
  obtain ⟨⟨state₁, entries₁, failed⟩, w₃, hsettle, h⟩ := returns_bind.mp h
  have hchecked : Still w w₁ := d.idle_prepare options target state hprepare
  have hpairs : (Entries.keys state.pending).zip received = pairs := by
    have hanswers : ((target.batch state).map (·.query)).zip received = _ :=
      returns_exchange hexchange
    rwa [batch_queries, hchecked.fetches] at hanswers
  rw [hpairs] at hsettle
  obtain ⟨rfl, hall⟩ := returns_settle hsettle
  have hsent : Elapses d.fetcher w [.fetch batch] w₃ :=
    (hchecked.before (elapses_exchange hexchange)).still (idle_settle _ _ _ _ hsettle)
  have hnow : w₃.now = now := hsent.now
  obtain ⟨w₄, hconclude, hpause⟩ := d.exists_conclude (state.afterAll pairs) entries₁ failed w₃
  obtain ⟨heq, rfl⟩ := h.unique hconclude
  cases heq
  rw [hnow] at hpause ⊢
  exact ⟨⟨lost, failed, w₂, w₃, hsettle⟩, hall, rfl, hsent.trans hpause⟩

theorem mayPass_of_round {x : RetryState τ × List Json}
    (h : Returns (d.round options target state entries) w x w') :
    (d.fetcher w.fetches (target.batch state)).MayPass := by
  rw [round_eq] at h
  obtain ⟨_, w₁, hprepare, h⟩ := returns_bind.mp h
  obtain ⟨received, w₂, hexchange, -⟩ := returns_bind.mp h
  rw [← (d.idle_prepare options target state hprepare).fetches]
  exact mayPass_of_returns hexchange

omit [Seconds τ] in
theorem returns_checkToken {w w' : World σ τ} :
    Returns (target.checkToken : Run σ τ Unit) w () w' ↔
      target.token.NoSurrogate ∧ w' = w := by
  unfold Target.checkToken
  split
  · rename_i htoken
    rw [returns_pure]
    exact ⟨fun h => ⟨Text.utf8?_isSome.mp htoken, h.2.symm⟩, fun h => ⟨rfl, h.2.symm⟩⟩
  · rename_i htoken
    exact iff_of_false not_returns_throw fun h => htoken (Text.utf8?_isSome.mpr h.1)

theorem token_of_round {x : RetryState τ × List Json}
    (h : Returns (d.round options target state entries) w x w') :
    target.token.NoSurrogate := by
  rw [round_eq] at h
  obtain ⟨_, w₁, hprepare, -⟩ := returns_bind.mp h
  obtain ⟨_, w₂, -, htoken⟩ := returns_bind.mp hprepare
  exact (returns_checkToken.mp htoken).1

theorem returns_prepare (hruntime : options.checkRuntime = false)
    (htoken : target.token.NoSurrogate) :
    Returns (d.prepare options target state) w () w := by
  have hchecked : Returns (d.checkRuntime options state) w () w := by
    unfold checkRuntime
    rw [hruntime]
    rfl
  exact returns_bind.mpr ⟨(), w, hchecked, returns_checkToken.mpr ⟨htoken, rfl⟩⟩

/-- A round without a limit returns if the token can be encoded, the batch is answered, or lost for a
reason that may pass, and each of the replies can be judged. -/
theorem exists_round (hruntime : options.checkRuntime = false)
    (htoken : target.token.NoSurrogate)
    (hmayPass : (d.fetcher w.fetches (target.batch state)).MayPass)
    (hpairs : ∀ pair ∈ answers d.fetcher w.fetches (target.batch state),
      (pair.2.judge pair.1).isOk = true) (entries : List Json) :
    ∃ state' entries' w', Returns (d.round options target state entries) w (state', entries') w' := by
  have hprepared : Returns (d.prepare options target state) w () w :=
    returns_prepare hruntime htoken
  obtain ⟨received, lost, w₁, hexchange⟩ := exists_exchange hmayPass
  have hanswers := returns_exchange hexchange
  rw [batch_queries] at hanswers
  rw [← hanswers] at hpairs
  obtain ⟨⟨state₁, entries₁, failed⟩, w₂, hsettle⟩ := exists_settle hpairs state entries lost w₁
  obtain ⟨w', hconclude, -⟩ := d.exists_conclude state₁ entries₁ failed w₂
  rw [round_eq]
  exact ⟨_, entries₁, w', returns_bind.mpr ⟨(), w, hprepared, returns_bind.mpr ⟨_, w₁, hexchange,
    returns_bind.mpr ⟨_, w₂, hsettle, hconclude⟩⟩⟩⟩

/-- A round that fails does so before it sends its batch, or after it. -/
theorem round_fails {failure : Failure}
    (h : Ends (d.round options target state entries) w (.error failure) w') :
    Still w w' ∨ Elapses d.fetcher w [.fetch (target.batch state)] w' := by
  rw [round_eq] at h
  obtain ⟨_, -, hprepare⟩ | ⟨_, w₁, hprepare, h⟩ := ends_bind h
  · exact .inl (d.idle_prepare options target state hprepare)
  have hchecked := d.idle_prepare options target state hprepare
  right
  obtain ⟨_, -, hexchange⟩ | ⟨⟨received, lost⟩, w₂, hexchange, h⟩ := ends_bind h
  · exact hchecked.before (elapses_exchange hexchange)
  obtain ⟨_, -, hsettle⟩ | ⟨⟨state₁, entries₁, failed⟩, w₃, -, h⟩ := ends_bind h
  · exact (hchecked.before (elapses_exchange hexchange)).still (idle_settle _ _ _ _ hsettle)
  · -- the end of a round does not fail
    obtain ⟨w₄, hconclude, -⟩ := d.exists_conclude state₁ entries₁ failed w₃
    exact nomatch h.symm.trans hconclude

def stops (d : Dispatcher σ τ) (state : RetryState τ) (now : τ) : Bool :=
  state.isDone || (0 < state.rounds && d.isOver state now)

theorem stops_turned (d : Dispatcher σ τ) (state : RetryState τ) (now now' : τ) :
    d.stops (d.turned state now) now' = d.isLast state now' := by
  have hrounds : 0 < (d.turned state now).rounds := Nat.succ_pos state.rounds
  simp only [stops, hrounds, decide_true, Bool.true_and]
  rfl

theorem isDone_eq_false_of_not_stops {now : τ} (h : ¬d.stops state now = true) :
    state.isDone = false := by
  simp only [stops, Bool.or_eq_true, not_or, Bool.not_eq_true] at h
  exact h.1

theorem rounds_succ (d : Dispatcher σ τ) (options : FetchOptions) (target : Target) (fuel : Nat)
    (state : RetryState τ) (entries : List Json) :
    d.rounds options target (fuel + 1) state entries = (do
      if d.stops state (← Run.now) then return (state, entries)
      let (state, entries) ← d.round options target state entries
      d.rounds options target fuel state entries) := rfl

/-- Rounds depend on the settings and the server, and on how the call heeds the time of the
program. -/
theorem rounds_congr (d d' : Dispatcher σ τ) (options options' : FetchOptions)
    (hsettings : d'.settings = d.settings) (hfetcher : d'.fetcher = d.fetcher)
    (hclock : d'.programClock = d.programClock)
    (hruntime : options'.checkRuntime = options.checkRuntime)
    (habort : options'.abortMessage = options.abortMessage) (target : Target) (fuel : Nat)
    (state : RetryState τ) (entries : List Json) :
    d'.rounds options' target fuel state entries = d.rounds options target fuel state entries := by
  obtain ⟨settings, fetcher, store, credentials, maxRounds, clock⟩ := d
  obtain ⟨_, _, store', credentials', maxRounds', _⟩ := d'
  obtain ⟨address, token, key, ttl, checkRuntime, abortMessage, strict⟩ := options
  obtain ⟨address', token', key', ttl', _, _, strict'⟩ := options'
  subst hsettings hfetcher hclock hruntime habort
  induction fuel generalizing state entries with
  | zero => rfl
  | succ fuel ih =>
      rw [rounds_succ, rounds_succ]
      simp only [ih]
      rfl

theorem run_rounds (d : Dispatcher σ τ) (options : FetchOptions) (target : Target) (fuel : Nat)
    (state : RetryState τ) (entries : List Json) (w : World σ τ) :
    StateT.run (ExceptT.run (d.rounds options target (fuel + 1) state entries)) w =
      if d.stops state w.now then (.ok (state, entries), w)
      else StateT.run (ExceptT.run (do
        let (state, entries) ← d.round options target state entries
        d.rounds options target fuel state entries)) w := by
  rw [rounds_succ]
  change StateT.run (ExceptT.run (ite (d.stops state w.now = true) _ _)) w = _
  by_cases hstops : d.stops state w.now = true
  · rw [if_pos hstops, if_pos hstops]
    rfl
  · rw [if_neg hstops, if_neg hstops]

variable {fuel : Nat} {x : RetryState τ × List Json}

theorem ends_rounds {result : Except Failure (RetryState τ × List Json)}
    (h : Ends (d.rounds options target (fuel + 1) state entries) w result w') :
    Still w w' ∨ (∃ failure, Ends (d.round options target state entries) w (.error failure) w') ∨
      ∃ state₁ entries₁ w₁, Returns (d.round options target state entries) w (state₁, entries₁) w₁ ∧
        Ends (d.rounds options target fuel state₁ entries₁) w₁ result w' := by
  unfold Ends at h
  rw [run_rounds] at h
  split at h
  · cases h
    exact .inl (.refl w)
  · obtain ⟨failure, -, hround⟩ | ⟨⟨state₁, entries₁⟩, w₁, hround, hrest⟩ := ends_bind h
    · exact .inr (.inl ⟨failure, hround⟩)
    · exact .inr (.inr ⟨state₁, entries₁, w₁, hround, hrest⟩)

theorem returns_rounds_of_stops (hstops : d.stops state w.now = true) :
    Returns (d.rounds options target (fuel + 1) state entries) w x w' ↔
      x = (state, entries) ∧ w' = w := by
  unfold Returns
  rw [run_rounds, if_pos hstops]
  constructor
  · intro h
    cases h
    exact ⟨rfl, rfl⟩
  · rintro ⟨rfl, rfl⟩
    rfl

theorem ends_rounds_of_not_stops {result : Except Failure (RetryState τ × List Json)}
    (hstops : ¬d.stops state w.now = true) :
    Ends (d.rounds options target (fuel + 1) state entries) w result w' ↔
      Ends (do
        let (state, entries) ← d.round options target state entries
        d.rounds options target fuel state entries) w result w' := by
  unfold Ends
  rw [run_rounds, if_neg hstops]

theorem returns_rounds_of_not_stops (hstops : ¬d.stops state w.now = true) :
    Returns (d.rounds options target (fuel + 1) state entries) w x w' ↔
      ∃ state₁ entries₁ w₁, Returns (d.round options target state entries) w (state₁, entries₁) w₁ ∧
        Returns (d.rounds options target fuel state₁ entries₁) w₁ x w' := by
  refine (ends_rounds_of_not_stops hstops).trans (returns_bind.trans ⟨?_, ?_⟩)
  · rintro ⟨⟨state₁, entries₁⟩, w₁, hround, hrest⟩
    exact ⟨state₁, entries₁, w₁, hround, hrest⟩
  · rintro ⟨state₁, entries₁, w₁, hround, hrest⟩
    exact ⟨(state₁, entries₁), w₁, hround, hrest⟩

end Dispatcher
end MetricBridge
