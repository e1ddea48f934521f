import MetricBridge.Proofs.Dispatch.Failing
import MetricBridge.Proofs.Dispatch.Wire

namespace MetricBridge

open Run

variable {σ τ : Type} {w w' w'' w₀ : World σ τ}

structure Quiet (w w' : World σ τ) : Prop where
  startedAt : w'.startedAt = w.startedAt
  puts : Puts (fun _ _ _ => False) w w'

instance : Overlooking (Quiet : World σ τ → World σ τ → Prop) where
  refl w := ⟨rfl, OverlookingLogs.refl w⟩
  trans h h' := ⟨h'.startedAt.trans h.startedAt, h.puts.trans h'.puts⟩
  logged w entry := ⟨rfl, OverlookingLogs.logged w entry⟩
  stored w state := ⟨rfl, Overlooking.stored w state⟩

variable [Seconds τ]

theorem Elapses.unique {fetcher : Fetcher τ} {trace trace' : List (Event τ)}
    (h : Elapses fetcher w trace w') (h' : Elapses fetcher w trace' w') : trace = trace' := by
  obtain ⟨new, he, rfl⟩ := h.events
  obtain ⟨new', he', rfl⟩ := h'.events
  rw [List.append_cancel_right (he.symm.trans he')]

open Dispatcher in
theorem Stage.Turns.rounds {d : Dispatcher σ τ} {options : FetchOptions} {target : Target}
    {a b : Stage σ τ} (h : a.Turns d options target b) : b.state.rounds = a.state.rounds + 1 := by
  obtain ⟨-, -, hstate, -⟩ := returns_round h.returns
  rw [hstate]
  exact congrArg (· + 1) (RetryState.afterAll_rounds _ _)

namespace Dispatcher

def IsUsedUp (d : Dispatcher σ τ) (startedAt now : τ) : Prop :=
  Seconds.lt d.settings.runtimeLimit (Seconds.sub (d.programClock now) startedAt) = true

/-- There is a limit, and the call heeds it. -/
structure Limited (d : Dispatcher σ τ) (options : FetchOptions) : Prop where
  heeded : options.checkRuntime = true
  positive : Seconds.lt Seconds.zero d.settings.runtimeLimit = true

/-- Each batch of the trace is sent at a moment when the time of the program is not used up. -/
def InTime (d : Dispatcher σ τ) (w : World σ τ) (course : List (Event τ)) : Prop :=
  ∀ past batch more, course = past ++ .fetch batch :: more →
    ¬d.IsUsedUp w.startedAt (clock d.fetcher w.fetches w.now past)

def abortion (options : FetchOptions) (pending : List Text) : Failure :=
  .timeExceeded ((given? options.abortMessage).getD "This request is taking too long, aborting.")
    pending

inductive Reaches (d : Dispatcher σ τ) (requests : List Request) (options : FetchOptions)
    (w₀ : World σ τ) (target : Target) : Stage σ τ → Prop
  | first {v v' w : World σ τ} (missed : Returns (d.lookUp options) w₀ none v)
      (known : Returns (d.target options) v target v')
      (announced : Returns (d.announce requests) v' () w) :
      Reaches d requests options w₀ target (.first d requests w.now w)
  | turn {a b : Stage σ τ} (reaches : Reaches d requests options w₀ target a)
      (turns : a.Turns d options target b) : Reaches d requests options w₀ target b

structure Begins (d : Dispatcher σ τ) (requests : List Request) (options : FetchOptions)
    (w₀ : World σ τ) (target : Target) (a : Stage σ τ) : Prop where
  reaches : d.Reaches requests options w₀ target a
  allowed : a.state.rounds < d.maxRounds
  goesOn : ¬d.stops a.state a.world.now = true

def remainder (d : Dispatcher σ τ) (requests : List Request) (options : FetchOptions)
    (target : Target) (a : Stage σ τ) : Run σ τ (List Json) := do
  let (state, entries) ← d.rounds options target (d.maxRounds - a.state.rounds) a.state a.entries
  let entries ← d.complete state entries
  d.finish requests options entries

variable {d : Dispatcher σ τ} {requests : List Request} {options : FetchOptions} {target : Target}
  {state : RetryState τ} {entries : List Json} {a b : Stage σ τ} {course more : List (Event τ)}
  {fuel : Nat}

namespace InTime

theorem nil : d.InTime w [] := by
  intro past batch more h
  exact absurd h.symm (List.append_ne_nil_of_right_ne_nil past (List.cons_ne_nil _ _))

theorem batch (h : ¬d.IsUsedUp w.startedAt w.now) {batch : List FetchRequest}
    (hmore : batchesOf more = []) : d.InTime w (.fetch batch :: more) := by
  intro past other rest heq
  cases past with
  | nil => exact h
  | cons event past =>
      rw [List.cons_append, List.cons.injEq] at heq
      obtain ⟨-, rfl⟩ := heq
      rw [batchesOf_append] at hmore
      exact nomatch (List.append_eq_nil_iff.mp hmore).2

theorem append (helapses : Elapses d.fetcher w course w') (hstart : w'.startedAt = w.startedAt)
    (h : d.InTime w course) (hmore : d.InTime w' more) : d.InTime w (course ++ more) := by
  have hlater : ∀ past, clock d.fetcher w.fetches w.now (course ++ past) =
      clock d.fetcher w'.fetches w'.now past := by
    intro past
    rw [clock_append, helapses.fetches, helapses.now]
  intro past batch rest heq
  obtain ⟨l, rfl, hl⟩ | ⟨l, hl, hrest⟩ := List.append_eq_append_iff.mp heq
  · rw [hlater, ← hstart]
    exact hmore l batch rest hl
  · cases l with
    | nil =>
        rw [List.append_nil] at hl
        have hfirst := hmore [] batch rest hrest.symm
        rwa [← hlater, List.append_nil, hstart, hl] at hfirst
    | cons event l =>
        cases hrest
        exact h past batch l hl

end InTime

theorem batchesOf_paused (d : Dispatcher σ τ) (state : RetryState τ) (now : τ) :
    batchesOf (d.pause state now) = [] := by
  unfold pause
  split <;> rfl

theorem exceeds_iff (startedAt now : τ) :
    (options.checkRuntime && exceeds d.settings.runtimeLimit startedAt (d.programClock now)) = true ↔
      d.Limited options ∧ d.IsUsedUp startedAt now := by
  simp only [exceeds, Bool.and_eq_true]
  exact ⟨fun ⟨hheeded, hpositive, husedUp⟩ => ⟨⟨hheeded, hpositive⟩, husedUp⟩,
    fun ⟨hlimited, husedUp⟩ => ⟨hlimited.heeded, hlimited.positive, husedUp⟩⟩

theorem run_checkRuntime (d : Dispatcher σ τ) (options : FetchOptions) (state : RetryState τ)
    (w : World σ τ) : StateT.run (ExceptT.run (d.checkRuntime options state)) w =
      if options.checkRuntime && exceeds d.settings.runtimeLimit w.startedAt (d.programClock w.now) then
        (.error (abortion options (Entries.keys state.pending)), w)
      else (.ok (), w) := by
  change StateT.run (ExceptT.run (ite ((options.checkRuntime && exceeds d.settings.runtimeLimit
    w.startedAt (d.programClock w.now)) = true) _ _)) w = _
  split
  · rfl
  · rfl

/-- A round that begins too late fails, and leaves everything as it is. -/
theorem round_usedUp (hlimited : d.Limited options) (husedUp : d.IsUsedUp w.startedAt w.now)
    (target : Target) (state : RetryState τ) (entries : List Json) :
    Ends (d.round options target state entries) w
      (.error (abortion options (Entries.keys state.pending))) w := by
  have hcheck : Ends (d.checkRuntime options state) w
      (.error (abortion options (Entries.keys state.pending))) w := by
    unfold Ends
    rw [run_checkRuntime, if_pos ((exceeds_iff _ _).mpr ⟨hlimited, husedUp⟩)]
  exact hcheck.failed

/-- No other round fails because it begins too late. -/
theorem plain_round (hintime : ¬(d.Limited options ∧ d.IsUsedUp w.startedAt w.now))
    {failure : Failure} (h : Ends (d.round options target state entries) w (.error failure) w') :
    failure.IsPlain := by
  have hpass : Returns (d.checkRuntime options state) w () w := by
    unfold Returns
    rw [run_checkRuntime, if_neg ((exceeds_iff _ _).not.mpr hintime)]
  rw [round_eq, prepare, bind_assoc] at h
  refine FailsOnly.bind (plain_checkToken target) (fun _ => ?_) (hpass.ends.mp h)
  refine (plain_exchange _).bind fun (replies, lost) => ?_
  refine (plain_settle _ _ _ _).bind fun (state, entries, failed) => ?_
  intro w failure w' h
  -- the end of a round does not fail
  obtain ⟨w₁, hconclude, -⟩ := d.exists_conclude state entries failed w
  exact nomatch h.symm.trans hconclude

theorem round_failure {failure : Failure}
    (h : Ends (d.round options target state entries) w (.error failure) w') :
    failure.IsPlain ∨ failure = abortion options (Entries.keys state.pending) := by
  by_cases hlate : d.Limited options ∧ d.IsUsedUp w.startedAt w.now
  · obtain ⟨heq, -⟩ := Prod.mk.inj
      (h.symm.trans (round_usedUp hlate.1 hlate.2 target state entries))
    exact .inr (Except.error.inj heq)
  · exact .inl (plain_round hlate h)

theorem quiet_round (state : RetryState τ) (entries : List Json) :
    Within Quiet (d.round options target state entries) := by
  refine within_round (fun batch => ?_) (fun seconds => ?_) state entries
  · intro w result w' h
    cases h
    exact ⟨rfl, .event (.fetch batch) (fun _ _ _ => nofun) rfl⟩
  · intro w result w' h
    cases h
    exact ⟨rfl, .event (.sleep seconds) (fun _ _ _ => nofun) rfl⟩

/-- However a round ends, it sends its batch in time or not at all. -/
theorem inTime_round (hlimited : d.Limited options)
    {result : Except Failure (RetryState τ × List Json)}
    (h : Ends (d.round options target state entries) w result w') :
    ∃ course, Elapses d.fetcher w course w' ∧ d.InTime w course := by
  by_cases husedUp : d.IsUsedUp w.startedAt w.now
  · obtain ⟨-, rfl⟩ := Prod.mk.inj
      (h.symm.trans (round_usedUp hlimited husedUp target state entries))
    exact ⟨[], (Still.refl _).elapses _, .nil⟩
  · cases result with
    | error failure =>
        obtain hstill | hsent := round_fails h
        · exact ⟨[], hstill.elapses _, .nil⟩
        · exact ⟨_, hsent, .batch husedUp rfl⟩
    | ok x =>
        obtain ⟨-, -, -, helapses⟩ := returns_round h
        exact ⟨_, helapses, .batch husedUp (batchesOf_paused d _ _)⟩

/-- However the rounds end, each of them sends its batch in time. -/
theorem inTime_rounds (hlimited : d.Limited options)
    {result : Except Failure (RetryState τ × List Json)}
    (h : Ends (d.rounds options target fuel state entries) w result w') :
    ∃ course, Elapses d.fetcher w course w' ∧ d.InTime w course := by
  induction fuel generalizing state entries w with
  | zero =>
      cases h
      exact ⟨[], (Still.refl _).elapses _, .nil⟩
  | succ fuel ih =>
      obtain hstill | ⟨failure, hround⟩ | ⟨state₁, entries₁, w₁, hround, h⟩ := ends_rounds h
      · exact ⟨[], hstill.elapses _, .nil⟩
      · exact inTime_round hlimited hround
      · obtain ⟨course, helapses, hintime⟩ := inTime_round hlimited hround
        obtain ⟨more, hmore, hlater⟩ := ih h
        have hstart := (quiet_round state entries hround).startedAt
        exact ⟨_, helapses.trans hmore, hintime.append helapses hstart hlater⟩

theorem rounds_usedUp (hreaches : d.Reaches requests options w₀ target a)
    (hfuel : a.state.rounds + fuel = d.maxRounds) {failure : Failure}
    (h : Ends (d.rounds options target fuel a.state a.entries) a.world (.error failure) w')
    (hfailure : ¬failure.IsOrdinary) : d.Limited options ∧
      ∃ b, d.Begins requests options w₀ target b ∧
        d.IsUsedUp b.world.startedAt b.world.now ∧ w' = b.world ∧
        failure = abortion options (Entries.keys b.state.pending) := by
  induction fuel generalizing a with
  | zero =>
      cases h
      exact absurd trivial hfailure
  | succ fuel ih =>
      unfold Ends at h
      rw [run_rounds] at h
      split at h
      · cases h
      · rename_i hgoes
        obtain ⟨_, ⟨⟩, hround⟩ | ⟨⟨state₁, entries₁⟩, w₁, hround, hrest⟩ := ends_bind h
        · obtain ⟨hlimited, husedUp⟩ : d.Limited options ∧
              d.IsUsedUp a.world.startedAt a.world.now := by
            by_contra hintime
            exact hfailure (plain_round hintime hround).isOrdinary
          have hfails := round_usedUp hlimited husedUp target a.state a.entries
          obtain ⟨heq, rfl⟩ := Prod.mk.inj (hround.symm.trans hfails)
          cases heq
          exact ⟨hlimited, a, ⟨hreaches, by omega, hgoes⟩, husedUp, rfl, rfl⟩
        · let b : Stage σ τ := ⟨a.replies ++ answers d.fetcher a.world.fetches
            (target.batch a.state), state₁, entries₁, w₁⟩
          have hturns : a.Turns d options target b := ⟨hgoes, hround, rfl⟩
          have hrounds := hturns.rounds
          exact ih (hreaches.turn hturns) (by omega) hrest

structure Followed (d : Dispatcher σ τ) (requests : List Request) (w₀ : World σ τ)
    (course : List (Event τ)) (a : Stage σ τ) : Prop where
  elapses : Elapses d.fetcher w₀ course a.world
  quiet : Quiet w₀ a.world
  replies : a.replies = conversation d.fetcher w₀.fetches (batchesOf course)
  keeps : Keeps (d.queries requests) a.replies a.state

theorem Reaches.followed (h : d.Reaches requests options w₀ target a) :
    ∃ course, d.Followed requests w₀ course a := by
  induction h with
  | @first v v' w missed known announced =>
      have hquiet : Within Quiet (d.lookUp options) := within_lookUp d options
      have hidle : Idle (d.lookUp options) := within_lookUp d options
      refine ⟨[], ?_, ?_, rfl, keeps_initial _ _ _⟩
      · exact ((hidle missed).trans ((idle_target d options known).trans
          (idle_announce d requests announced))).elapses _
      · exact OverlookingLogs.trans (hquiet missed) (OverlookingLogs.trans
          (within_target d options known) (within_announce d requests announced))
  | @turn a b _ turns ih =>
      obtain ⟨course, h⟩ := ih
      obtain ⟨-, -, hstate, helapses⟩ := returns_round turns.returns
      refine ⟨_, h.elapses.trans helapses, OverlookingLogs.trans h.quiet
        (quiet_round _ _ turns.returns), ?_, ?_⟩
      · rw [turns.replies, h.replies, batchesOf_append, batchesOf_pause, conversation_snoc,
          h.elapses.fetches]
      · rw [turns.replies, hstate]
        exact (h.keeps.afterAll _).congr rfl

theorem Begins.pending_ne_nil (h : d.Begins requests options w₀ target a) :
    Entries.keys a.state.pending ≠ [] := by
  have hdone := isDone_eq_false_of_not_stops h.goesOn
  intro hkeys
  rw [RetryState.isDone, List.isEmpty_eq_false_iff] at hdone
  exact hdone (List.map_eq_nil_iff.mp hkeys)

variable {result : Except Failure (List Json)}

/-- Each stage that a call gets to decides how it ends. -/
theorem Reaches.ends (h : d.Reaches requests options w₀ target a)
    (hrounds : a.state.rounds ≤ d.maxRounds) : Ends (d.fetchAll requests options) w₀ result w' ↔
      Ends (d.remainder requests options target a) a.world result w' := by
  induction h with
  | @first v v' w missed known announced =>
      have hnow : Returns (Run.now : Run σ τ τ) w w.now w := rfl
      rw [fetchAll_eq, missed.ends]
      dsimp only
      rw [dispatch_eq, known.ends]
      exact announced.ends.trans hnow.ends
  | @turn a b _ turns ih =>
      have hnext := turns.rounds
      obtain ⟨fuel, hfuel⟩ : ∃ fuel, d.maxRounds = b.state.rounds + fuel :=
        Nat.exists_eq_add_of_le hrounds
      have hbefore : d.maxRounds - a.state.rounds = fuel + 1 := by omega
      have hafter : d.maxRounds - b.state.rounds = fuel := by omega
      rw [ih (by omega)]
      unfold remainder
      have hrun := (run_rounds d options target fuel a.state a.entries a.world).trans
        (if_neg turns.goesOn)
      rw [hbefore, hafter, ends_bind_congr hrun, bind_assoc, turns.returns.ends]

/-- A call ends before its first round, or gets to it. -/
theorem ends_fetchAll_cases (h : Ends (d.fetchAll requests options) w result w') :
    Still w w' ∧ (∀ failure, result = .error failure → failure.IsOrdinary) ∨
      ∃ target v, Still w v ∧ d.Reaches requests options w target (.first d requests v.now v) ∧
        Ends (d.remainder requests options target (.first d requests v.now v)) v result w' := by
  have hall := h
  rw [fetchAll_eq] at h
  have hlooked : Idle (d.lookUp options) := within_lookUp d options
  obtain ⟨failure, rfl, hlookUp⟩ | ⟨found, w₁, hlookUp, h⟩ := ends_bind h
  · refine .inl ⟨hlooked hlookUp, ?_⟩
    rintro _ ⟨⟩
    exact (plain_lookUp hlookUp).isOrdinary
  cases found with
  | some entries =>
      cases h
      exact .inl ⟨hlooked hlookUp, nofun⟩
  | none =>
      rw [dispatch_eq] at h
      obtain ⟨failure, rfl, htarget⟩ | ⟨target, w₂, htarget, h⟩ := ends_bind h
      · refine .inl ⟨(hlooked hlookUp).trans (idle_target d options htarget), ?_⟩
        rintro _ ⟨⟩
        exact (plain_target htarget).isOrdinary
      have hstill : Still w w₂ := (hlooked hlookUp).trans (idle_target d options htarget)
      obtain ⟨failure, rfl, hannounce⟩ | ⟨_, v, hannounce, h⟩ := ends_bind h
      · refine .inl ⟨hstill.trans (idle_announce d requests hannounce), ?_⟩
        rintro _ ⟨⟩
        exact (plain_announce requests hannounce).isOrdinary
      · have hreaches := Reaches.first hlookUp htarget hannounce
        replace hstill : Still w v := hstill.trans (idle_announce d requests hannounce)
        exact .inr ⟨target, v, hstill, hreaches, (hreaches.ends (Nat.zero_le _)).mp hall⟩

theorem idle_rest (state : RetryState τ) (entries : List Json) : Idle (do
    let entries ← d.complete state entries
    d.finish requests options entries) :=
  (idle_complete d _ _).bind fun _ => idle_finish d _ _ _

theorem inTime_fetchAll (hlimited : d.Limited options)
    (h : Ends (d.fetchAll requests options) w result w') :
    ∃ course, Elapses d.fetcher w course w' ∧ d.InTime w course := by
  obtain ⟨hstill, -⟩ | ⟨target, v, hstill, hreaches, h⟩ := ends_fetchAll_cases h
  · exact ⟨[], hstill.elapses _, .nil⟩
  obtain ⟨past, hfollowed⟩ := hreaches.followed
  have hstart : v.startedAt = w.startedAt := hfollowed.quiet.startedAt
  have hbefore : ∀ {course}, d.InTime v course → d.InTime w course := fun hintime =>
    InTime.nil.append (hstill.elapses _) hstart hintime
  obtain ⟨failure, -, hrounds⟩ | ⟨⟨state, entries⟩, w₁, hrounds, h⟩ := ends_bind h
  · obtain ⟨course, helapses, hintime⟩ := inTime_rounds hlimited hrounds
    exact ⟨course, hstill.before helapses, hbefore hintime⟩
  · obtain ⟨course, helapses, hintime⟩ := inTime_rounds hlimited hrounds
    exact ⟨course, (hstill.before helapses).still (idle_rest _ _ h), hbefore hintime⟩

/-- A call fails because it takes too long only where a round would begin too late. -/
theorem fetchAll_usedUp {failure : Failure}
    (h : Ends (d.fetchAll requests options) w (.error failure) w') (hfailure : ¬failure.IsOrdinary) :
    d.Limited options ∧ ∃ target a, d.Begins requests options w target a ∧
      d.IsUsedUp a.world.startedAt a.world.now ∧ w' = a.world ∧
      failure = abortion options (Entries.keys a.state.pending) := by
  obtain ⟨-, hordinary⟩ | ⟨target, v, -, hreaches, h⟩ := ends_fetchAll_cases h
  · exact absurd (hordinary failure rfl) hfailure
  obtain ⟨_, ⟨⟩, hrounds⟩ | ⟨⟨state, entries⟩, w₁, -, h⟩ := ends_bind h
  · obtain ⟨hlimited, b, hb⟩ := rounds_usedUp hreaches (Nat.zero_add _) hrounds hfailure
    exact ⟨hlimited, target, b, hb⟩
  · obtain ⟨w₂, hcomplete⟩ := exists_complete d state entries w₁
    exact absurd (ordinary_finish _ _ (hcomplete.ends.mp h)) hfailure

/-- A call fails where a round would begin too late. -/
theorem Begins.fails (hlimited : d.Limited options) (h : d.Begins requests options w₀ target a)
    (husedUp : d.IsUsedUp a.world.startedAt a.world.now) :
    Ends (d.fetchAll requests options) w₀
      (.error (abortion options (Entries.keys a.state.pending))) a.world := by
  rw [h.reaches.ends (Nat.le_of_lt h.allowed)]
  obtain ⟨fuel, hfuel⟩ : ∃ fuel, d.maxRounds - a.state.rounds = fuel + 1 :=
    ⟨d.maxRounds - a.state.rounds - 1, by have := h.allowed; omega⟩
  have hrun := (run_rounds d options target fuel a.state a.entries a.world).trans
    (if_neg h.goesOn)
  unfold remainder
  rw [hfuel, ends_bind_congr hrun]
  exact (round_usedUp hlimited husedUp target a.state a.entries).failed.failed

/-- However a call ends that heeds a limit, it sends each batch in time. It fails for the time if and
only if a round would begin too late. The failure tells which queries are open then, and the call
does nothing more. A call that heeds no limit does not fail for the time. -/
theorem fetchAll_budget (h : Ends (d.fetchAll requests options) w result w') :
    (d.Limited options → ∃ course, Elapses d.fetcher w course w' ∧ d.InTime w course ∧
      ((∃ reason pending, result = .error (.timeExceeded reason pending)) ↔
        ∃ target a, d.Begins requests options w target a ∧ d.IsUsedUp w.startedAt a.world.now) ∧
      ∀ reason pending, result = .error (.timeExceeded reason pending) →
        pending = openQueries (d.queries requests)
          (conversation d.fetcher w.fetches (batchesOf course)) ∧
        pending ≠ [] ∧ Puts (fun _ _ _ => False) w w' ∧
        ∃ target a, d.Begins requests options w target a ∧
          d.IsUsedUp w.startedAt a.world.now ∧ w' = a.world) ∧
    (¬d.Limited options → ∀ reason pending, result ≠ .error (.timeExceeded reason pending)) := by
  have hstart : ∀ {target a}, d.Begins requests options w target a →
      a.world.startedAt = w.startedAt := by
    intro target a hbegins
    obtain ⟨course, hfollowed⟩ := hbegins.reaches.followed
    exact hfollowed.quiet.startedAt
  constructor
  · intro hlimited
    obtain ⟨course, helapses, hintime⟩ := inTime_fetchAll hlimited h
    refine ⟨course, helapses, hintime, ⟨?_, ?_⟩, ?_⟩
    · rintro ⟨reason, pending, rfl⟩
      obtain ⟨-, target, a, hbegins, husedUp, -⟩ := fetchAll_usedUp h id
      exact ⟨target, a, hbegins, hstart hbegins ▸ husedUp⟩
    · rintro ⟨target, a, hbegins, husedUp⟩
      have hfails := hbegins.fails hlimited (hstart hbegins ▸ husedUp)
      exact ⟨_, _, congrArg Prod.fst (h.symm.trans hfails)⟩
    · rintro reason pending rfl
      obtain ⟨-, target, a, hbegins, husedUp, rfl, hfailure⟩ := fetchAll_usedUp h id
      obtain ⟨past, hfollowed⟩ := hbegins.reaches.followed
      obtain rfl := helapses.unique hfollowed.elapses
      cases hfailure
      refine ⟨?_, hbegins.pending_ne_nil, hfollowed.quiet.puts, target, a, hbegins,
        hstart hbegins ▸ husedUp, rfl⟩
      rw [← hfollowed.replies, hfollowed.keeps.keys]
  · rintro hfree reason pending rfl
    exact hfree (fetchAll_usedUp h id).1

def overtaxedDispatcher : Dispatcher Unit Int where
  settings := ⟨60, 2, 8, 7, "agent", [], "source"⟩
  fetcher
    | 0, _ => ⟨5, .ok [⟨503, none⟩, ⟨200, some "[]"⟩, ⟨503, none⟩]⟩
    | _, _ => ⟨5, .ok [⟨503, none⟩, ⟨503, none⟩]⟩
  store := none
  credentials := none
  maxRounds := 10
  programClock now := now + 100

/-- The second batch is sent when the time is just not used up, and the third is not sent. -/
theorem fetchAll_budget_overtaxed :
    let requests : List Request := [⟨"A.a", []⟩, ⟨"A.b", []⟩, ⟨"A.c", []⟩, ⟨"A.a", []⟩]
    let options : FetchOptions :=
      { address := some "https://matomo.example.com", checkRuntime := true }
    let world : World Unit Int := ⟨0, 100, 0, (), []⟩
    overtaxedDispatcher.Limited options ∧ ∃ reason pending w',
      Ends (overtaxedDispatcher.fetchAll requests options) world
        (.error (.timeExceeded reason pending)) w' ∧ w'.now = 16 ∧ w'.fetches = 2 ∧
      ∃ course, Elapses overtaxedDispatcher.fetcher world course w' ∧
        overtaxedDispatcher.InTime world course ∧
        pending = openQueries (overtaxedDispatcher.queries requests)
          (conversation overtaxedDispatcher.fetcher 0 (batchesOf course)) ∧ pending ≠ [] := by
  intro requests options world
  have hlimited : overtaxedDispatcher.Limited options := ⟨rfl, by decide⟩
  have hrun : (match StateT.run (ExceptT.run (overtaxedDispatcher.fetchAll requests options)) world with
    | (.error (.timeExceeded ..), w') => w'.now == 16 && w'.fetches == 2
    | _ => false) = true := by decide +kernel
  obtain ⟨result, w', h⟩ := exists_ends (overtaxedDispatcher.fetchAll requests options) world
  rw [h] at hrun
  split at hrun
  · rename_i reason pending _ heq
    cases heq
    obtain ⟨hnow, hfetches⟩ := Bool.and_eq_true_iff.mp hrun
    obtain ⟨course, helapses, hintime, -, hfailure⟩ := (fetchAll_budget h).1 hlimited
    obtain ⟨hpending, hne, -⟩ := hfailure _ _ rfl
    exact ⟨hlimited, reason, pending, _, h, eq_of_beq hnow, eq_of_beq hfetches, course, helapses,
      hintime, hpending, hne⟩
  · cases hrun

end Dispatcher
end MetricBridge
