import MetricBridge.Proofs.Dispatch.Stages

namespace MetricBridge

open Run

variable {σ τ : Type} {queries : List Text} {query : Text} {number : Nat}

/-- What a round brings, whatever is asked: the time it takes, and a reply to each query or a
failure. -/
structure RoundPlan (τ : Type) where
  duration : τ
  outcome : Except FetchFault (Text → Reply)

namespace RoundPlan

def answer (plan : RoundPlan τ) (batch : List FetchRequest) : Fetched τ where
  duration := plan.duration
  outcome := plan.outcome.map fun reply => batch.map fun request => reply request.query

def replies (plan : RoundPlan τ) (queries : List Text) : List (Text × Reply) :=
  match plan.outcome with
  | .ok reply => queries.map fun query => (query, reply query)
  | .error _ => []

theorem mayPass_answer (plan : RoundPlan τ) (batch other : List FetchRequest)
    (h : (plan.answer batch).MayPass) : (plan.answer other).MayPass := by
  unfold answer Fetched.MayPass at *
  cases houtcome : plan.outcome with
  | ok reply => exact nofun
  | error fault =>
      rw [houtcome] at h
      exact h

theorem mem_replies {plan : RoundPlan τ} {pair : Text × Reply} :
    pair ∈ plan.replies queries ↔ pair.1 ∈ queries ∧ pair ∈ plan.replies [pair.1] := by
  unfold replies
  cases plan.outcome with
  | error fault => simp
  | ok reply =>
      constructor
      · intro h
        obtain ⟨query, hquery, rfl⟩ := List.mem_map.mp h
        exact ⟨hquery, List.mem_singleton.mpr rfl⟩
      · rintro ⟨hquery, h⟩
        rw [List.mem_singleton.mp h]
        exact List.mem_map_of_mem hquery

theorem repliesTo_replies (plan : RoundPlan τ) (hnodup : queries.Nodup) (hquery : query ∈ queries) :
    repliesTo query (plan.replies queries) = repliesTo query (plan.replies [query]) := by
  unfold replies
  cases plan.outcome with
  | error fault => rfl
  | ok reply =>
      have hcount : queries.count query = 1 := List.count_eq_one_of_mem hnodup hquery
      have hfilter : queries.filter (fun q => decide (q = query)) = [query] := by
        rw [List.filter_eq, hcount]
        rfl
      unfold repliesTo
      dsimp only
      rw [List.filter_map, List.filter_map]
      congr 2
      exact hfilter.trans (by simp)

end RoundPlan

/-- From the number on, batches are answered as planned. -/
def Follows (fetcher : Fetcher τ) (number : Nat) (plan : Nat → RoundPlan τ) : Prop :=
  ∀ round batch, fetcher (number + round) batch = (plan round).answer batch

namespace Follows

variable {fetcher : Fetcher τ} {plan : Nat → RoundPlan τ}

theorem now (h : Follows fetcher number plan) (batch : List FetchRequest) :
    fetcher number batch = (plan 0).answer batch := h 0 batch

theorem next (h : Follows fetcher number plan) :
    Follows fetcher (number + 1) fun round => plan (round + 1) := by
  intro round batch
  rw [← h (round + 1) batch, Nat.add_assoc, Nat.add_comm 1 round]

theorem answers_eq (h : Follows fetcher number plan) (batch : List FetchRequest) :
    answers fetcher number batch = (plan 0).replies (batch.map (·.query)) := by
  unfold answers RoundPlan.replies
  rw [h.now, RoundPlan.answer]
  cases (plan 0).outcome with
  | error fault => rfl
  | ok reply =>
      change (batch.map (·.query)).zip (batch.map fun request => reply request.query) =
        (batch.map (·.query)).map fun query => (query, reply query)
      rw [List.zip_map', List.map_map]
      rfl

end Follows

theorem Still.follows {fetcher : Fetcher τ} {plan : Nat → RoundPlan τ} {w w' : World σ τ}
    (h : Still w w') (hplan : Follows fetcher w.fetches plan) : Follows fetcher w'.fetches plan := by
  rwa [h.fetches]

open Dispatcher Stage

variable [Seconds τ] {d : Dispatcher σ τ} {options : FetchOptions} {target : Target}
  {plan : Nat → RoundPlan τ} {fuel : Nat} {a a' b b' : Stage σ τ}

structure Schedule (τ : Type) where
  wait : τ
  start : τ
  rounds : Nat
  now : τ

def Schedule.next (settings : DispatchSettings τ) (duration : τ) (schedule : Schedule τ) :
    Schedule τ :=
  let now := Seconds.add schedule.now duration
  if Seconds.le (Seconds.add schedule.start settings.retryLimit) now then
    { schedule with rounds := schedule.rounds + 1, now := now }
  else
    { schedule with
      wait := Retry.nextWait schedule.wait settings.longestWait
      rounds := schedule.rounds + 1
      now := Seconds.add now schedule.wait }

namespace Stage

omit [Seconds τ] in
def schedule (a : Stage σ τ) : Schedule τ :=
  ⟨a.state.wait, a.state.start, a.state.rounds, a.world.now⟩

theorem stops_eq (h : a.state.isDone = false) : d.stops a.state a.world.now =
    (decide (0 < a.schedule.rounds) && Seconds.le (Seconds.add a.schedule.start
      d.settings.retryLimit) a.schedule.now) := by
  unfold stops
  rw [h, Bool.false_or]
  rfl

namespace Turns

theorem follows (h : a.Turns d options target b) (hplan : Follows d.fetcher a.world.fetches plan) :
    Follows d.fetcher b.world.fetches fun round => plan (round + 1) := by
  obtain ⟨-, -, -, helapses⟩ := returns_round h.returns
  rw [helapses.fetches, batchesOf_pause]
  exact hplan.next

theorem replies_eq (h : a.Turns d options target b)
    (hplan : Follows d.fetcher a.world.fetches plan) :
    b.replies = a.replies ++ (plan 0).replies (Entries.keys a.state.pending) := by
  rw [h.replies, hplan.answers_eq, batch_queries]

theorem schedule_eq (h : a.Turns d options target b)
    (hplan : Follows d.fetcher a.world.fetches plan) (hopen : b.state.isDone = false) :
    b.schedule = a.schedule.next d.settings (plan 0).duration := by
  obtain ⟨-, -, hstate, helapses⟩ := returns_round h.returns
  have hnow := helapses.now
  rw [clock, hplan.now] at hnow
  rw [hplan.now] at hstate
  generalize hafter : a.state.afterAll (answers d.fetcher a.world.fetches (target.batch a.state)) =
    state₁ at hstate hnow
  have hstart : state₁.start = a.state.start := hafter ▸ a.state.afterAll_start _
  have hrounds : state₁.rounds = a.state.rounds := hafter ▸ a.state.afterAll_rounds _
  have hwait : state₁.wait = a.state.wait := hafter ▸ a.state.afterAll_wait _
  have hlast (now : τ) : d.isLast state₁ now =
      Seconds.le (Seconds.add a.state.start d.settings.retryLimit) now := by
    have hdone : state₁.isDone = false := by rwa [hstate] at hopen
    rw [isLast, hdone, Bool.false_or, isOver, hstart]
  unfold schedule Schedule.next
  rw [hstate, hnow]
  unfold turned pause
  dsimp only [RoundPlan.answer]
  simp only [hlast, hwait, hrounds, hstart]
  split <;> rfl

end Turns

/-- The stages of a dispatch and of one of a single query of it: the query has the same replies in
both, and while it is open their timing is the same. -/
structure Together (queries : List Text) (query : Text) (a b : Stage σ τ) : Prop where
  tracks : Tracks queries a.replies a.state a.entries
  single : Tracks [query] b.replies b.state b.entries
  replies : repliesTo query b.replies = repliesTo query a.replies
  schedule : IsOpen a.replies query → b.schedule = a.schedule

namespace Together

omit [Seconds τ] in
theorem isOpen_iff (h : Together queries query a b) :
    IsOpen b.replies query ↔ IsOpen a.replies query := by
  unfold IsOpen
  rw [h.replies]

omit [Seconds τ] in
theorem keys_single (h : Together queries query a b) (hopen : IsOpen a.replies query) :
    Entries.keys b.state.pending = [query] := by
  refine List.perm_singleton.mp ((List.perm_ext_iff_of_nodup h.single.nodup
    (List.nodup_singleton query)).mpr fun q => ?_)
  rw [h.single.mem_keys_iff, List.mem_singleton]
  refine and_iff_left_of_imp ?_
  rintro rfl
  exact h.isOpen_iff.mpr hopen

omit [Seconds τ] in
theorem isDone_single (h : Together queries query a b) :
    b.state.isDone = false ↔ IsOpen a.replies query := by
  rw [h.single.isDone_iff, ← h.isOpen_iff]
  simp

theorem stops_eq (h : Together queries query a b) (hquery : query ∈ queries)
    (hopen : IsOpen a.replies query) :
    d.stops b.state b.world.now = d.stops a.state a.world.now := by
  rw [Stage.stops_eq (h.isDone_single.mpr hopen),
    Stage.stops_eq (h.tracks.isDone_iff.mpr ⟨query, hquery, hopen⟩), h.schedule hopen]

theorem stops_of_answered (h : Together queries query a b) (hanswered : ¬IsOpen a.replies query) :
    d.stops b.state b.world.now = true := by
  have hdone : b.state.isDone = true := by
    rw [← Bool.not_eq_false, h.isDone_single]
    exact hanswered
  rw [stops, hdone, Bool.true_or]

theorem turns (h : Together queries query a b) (hquery : query ∈ queries)
    (hopen : IsOpen a.replies query) (ha : Follows d.fetcher a.world.fetches plan)
    (hb : Follows d.fetcher b.world.fetches plan) (hturns : a.Turns d options target a')
    (hturns' : b.Turns d options target b') : Together queries query a' b' := by
  have hkey : query ∈ Entries.keys a.state.pending := h.tracks.mem_keys_iff.mpr ⟨hquery, hopen⟩
  have htracks := hturns.tracks h.tracks
  have hsingle := hturns'.tracks h.single
  have hreplies : repliesTo query b'.replies = repliesTo query a'.replies := by
    rw [hturns.replies_eq ha, hturns'.replies_eq hb, repliesTo_append, repliesTo_append, h.replies,
      h.keys_single hopen, RoundPlan.repliesTo_replies _ h.tracks.nodup hkey]
  -- the timing is only compared while the query is open, so neither round is the last one
  refine ⟨htracks, hsingle, hreplies, fun hopen' => ?_⟩
  have hdone : a'.state.isDone = false := htracks.isDone_iff.mpr ⟨query, hquery, hopen'⟩
  have hdone' : b'.state.isDone = false :=
    hsingle.isDone_iff.mpr ⟨query, List.mem_singleton.mpr rfl, by rwa [IsOpen, hreplies]⟩
  rw [hturns.schedule_eq ha hdone, hturns'.schedule_eq hb hdone', h.schedule hopen]

/-- A round of the one dispatch takes place in the other. -/
theorem exists_single (hruntime : options.checkRuntime = false) (h : Together queries query a b)
    (hquery : query ∈ queries) (hopen : IsOpen a.replies query)
    (ha : Follows d.fetcher a.world.fetches plan) (hb : Follows d.fetcher b.world.fetches plan)
    (hturns : a.Turns d options target a') : ∃ b', b.Turns d options target b' := by
  have hround := returns_round hturns.returns
  have hanswers : ∀ pair ∈ answers d.fetcher b.world.fetches (target.batch b.state),
      (pair.2.judge pair.1).isOk = true := by
    intro pair hpair
    refine hround.2.1 pair ?_
    rw [hb.answers_eq, batch_queries, h.keys_single hopen] at hpair
    rw [ha.answers_eq, batch_queries]
    obtain ⟨heq, hpair⟩ := RoundPlan.mem_replies.mp hpair
    exact RoundPlan.mem_replies.mpr
      ⟨List.mem_singleton.mp heq ▸ h.tracks.mem_keys_iff.mpr ⟨hquery, hopen⟩, hpair⟩
  have hmayPass : (d.fetcher b.world.fetches (target.batch b.state)).MayPass := by
    have hbatch := mayPass_of_round hturns.returns
    rw [ha.now] at hbatch
    rw [hb.now]
    exact RoundPlan.mayPass_answer _ _ _ hbatch
  obtain ⟨state', entries', w', hreturns⟩ :=
    exists_round hruntime (token_of_round hturns.returns) hmayPass hanswers b.entries
  refine ⟨⟨_, state', entries', w'⟩, ?_, hreturns, rfl⟩
  rw [h.stops_eq hquery hopen]
  exact hturns.goesOn

/-- A round that takes place in the dispatch of each open query takes place in the one of all. -/
theorem exists_batch (hruntime : options.checkRuntime = false)
    (ha : Follows d.fetcher a.world.fetches plan)
    (ht : Tracks queries a.replies a.state a.entries) (hgoesOn : ¬d.stops a.state a.world.now = true)
    (hsingle : ∀ query ∈ queries, IsOpen a.replies query → ∃ b b', Together queries query a b ∧
      Follows d.fetcher b.world.fetches plan ∧ b.Turns d options target b') :
    ∃ a', a.Turns d options target a' := by
  have hanswers : ∀ pair ∈ answers d.fetcher a.world.fetches (target.batch a.state),
      (pair.2.judge pair.1).isOk = true := by
    intro pair hpair
    rw [ha.answers_eq, batch_queries] at hpair
    obtain ⟨hkey, hpair⟩ := RoundPlan.mem_replies.mp hpair
    obtain ⟨hquery, hopen⟩ := ht.mem_keys_iff.mp hkey
    obtain ⟨b, b', h, hb, hturns⟩ := hsingle pair.1 hquery hopen
    refine (returns_round hturns.returns).2.1 pair ?_
    rwa [hb.answers_eq, batch_queries, h.keys_single hopen]
  -- some query is open, and its own round tells of the token and of the failure of a batch
  obtain ⟨query, hquery, hopen⟩ := ht.isDone_iff.mp (isDone_eq_false_of_not_stops hgoesOn)
  obtain ⟨b, b', -, hb, hturns⟩ := hsingle query hquery hopen
  have hmayPass : (d.fetcher a.world.fetches (target.batch a.state)).MayPass := by
    have halone := mayPass_of_round hturns.returns
    rw [hb.now] at halone
    rw [ha.now]
    exact RoundPlan.mayPass_answer _ _ _ halone
  obtain ⟨state', entries', w', hreturns⟩ :=
    exists_round hruntime (token_of_round hturns.returns) hmayPass hanswers a.entries
  exact ⟨⟨_, state', entries', w'⟩, hgoesOn, hreturns, rfl⟩

end Together

omit [Seconds τ] in
theorem together_first {requests : List Request} {request : Request} {start : τ} {w v : World σ τ}
    (hnow : v.now = w.now) : Together (d.queries requests) (request.query d.settings.sourceName)
      (first d requests start w) (first d [request] start v) where
  tracks := tracks_first d requests start w
  single := tracks_first d [request] start v
  replies := rfl
  schedule _ := congrArg (Schedule.mk _ _ _) hnow

theorem Turns.repliesTo_eq (h : a.Turns d options target b)
    (ht : Tracks queries a.replies a.state a.entries) (hanswered : ¬IsOpen a.replies query) :
    repliesTo query b.replies = repliesTo query a.replies := by
  have hsublist := answers_sublist d.fetcher a.world.fetches (target.batch a.state)
  rw [batch_queries] at hsublist
  have hnew : query ∉ (answers d.fetcher a.world.fetches (target.batch a.state)).map Prod.fst :=
    fun hasked => hanswered (ht.mem_keys_iff.mp (hsublist.subset hasked)).2
  rw [h.replies, repliesTo_append, repliesTo_eq_nil hnew, List.append_nil]

theorem Runs.repliesTo_eq (h : Runs d options target fuel a b)
    (ht : Tracks queries a.replies a.state a.entries) (hanswered : ¬IsOpen a.replies query) :
    repliesTo query b.replies = repliesTo query a.replies := by
  induction h with
  | stop => rfl
  | turn turns _ ih =>
      have hreplies := turns.repliesTo_eq ht hanswered
      refine (ih (turns.tracks ht) ?_).trans hreplies
      rwa [IsOpen, hreplies]

/-- The rounds of a dispatch are rounds of the one of a single query, as far as it goes. -/
theorem Runs.single (hruntime : options.checkRuntime = false) (hruns : a.Runs d options target fuel a')
    (h : Together queries query a b) (hquery : query ∈ queries)
    (ha : Follows d.fetcher a.world.fetches plan) (hb : Follows d.fetcher b.world.fetches plan) :
    ∃ b', b.Runs d options target fuel b' ∧ Together queries query a' b' := by
  induction hruns generalizing b plan with
  | @stop fuel a hstops =>
      refine ⟨b, .stop ?_, h⟩
      by_cases hopen : IsOpen a.replies query
      · rwa [h.stops_eq hquery hopen]
      · exact h.stops_of_answered hopen
  | @turn fuel a a₁ a' hturns hruns ih =>
      by_cases hopen : IsOpen a.replies query
      · obtain ⟨b₁, hturns'⟩ := h.exists_single hruntime hquery hopen ha hb hturns
        obtain ⟨b', hruns', h'⟩ := ih (h.turns hquery hopen ha hb hturns hturns')
          (hturns.follows ha) (hturns'.follows hb)
        exact ⟨b', .turn hturns' hruns', h'⟩
      · -- the single dispatch is over, and the other one goes on without the query
        have hall : Runs d options target (fuel + 1) a a' := .turn hturns hruns
        have hreplies := hall.repliesTo_eq h.tracks hopen
        refine ⟨b, .stop (h.stops_of_answered hopen), hall.tracks h.tracks, h.single,
          h.replies.trans hreplies.symm, fun hopen' => absurd ?_ hopen⟩
        rwa [IsOpen, ← hreplies]

/-- If the dispatch of each open query goes to its end, so does the one of all. -/
theorem exists_runs_of_singles (hruntime : options.checkRuntime = false) (hfuel : 0 < fuel)
    (ht : Tracks queries a.replies a.state a.entries) (ha : Follows d.fetcher a.world.fetches plan)
    (hsingle : ∀ query ∈ queries, IsOpen a.replies query → ∃ b b', Together queries query a b ∧
      Follows d.fetcher b.world.fetches plan ∧ b.Runs d options target fuel b') :
    ∃ a', a.Runs d options target fuel a' := by
  induction fuel generalizing a plan with
  | zero => exact absurd hfuel (Nat.lt_irrefl 0)
  | succ fuel ih =>
      by_cases hstops : d.stops a.state a.world.now = true
      · exact ⟨a, .stop hstops⟩
      -- each open query has its next round, and they make up the next round of the batch
      have hfirst : ∀ query ∈ queries, IsOpen a.replies query → ∃ b b₁ b',
          Together queries query a b ∧ Follows d.fetcher b.world.fetches plan ∧
          b.Turns d options target b₁ ∧ b₁.Runs d options target fuel b' := by
        intro query hquery hopen
        obtain ⟨b, b', h, hb, hruns⟩ := hsingle query hquery hopen
        cases hruns with
        | stop hstops' => exact absurd ((h.stops_eq hquery hopen).symm.trans hstops') hstops
        | turn hturns hruns => exact ⟨b, _, b', h, hb, hturns, hruns⟩
      obtain ⟨a₁, hturns⟩ := Together.exists_batch hruntime ha ht hstops
        fun query hquery hopen =>
          let ⟨b, b₁, _, h, hb, hturns, _⟩ := hfirst query hquery hopen
          ⟨b, b₁, h, hb, hturns⟩
      have hfuel' : 0 < fuel := by
        obtain ⟨query, hquery, hopen⟩ := ht.isDone_iff.mp (isDone_eq_false_of_not_stops hstops)
        obtain ⟨b, b₁, b', -, -, -, hruns⟩ := hfirst query hquery hopen
        exact hruns.fuel_pos
      obtain ⟨a', hruns⟩ := ih hfuel' (hturns.tracks ht) (hturns.follows ha)
        fun query hquery hopen' => by
          rw [hturns.replies, isOpen_append] at hopen'
          obtain ⟨b, b₁, b', h, hb, hturns', hruns⟩ := hfirst query hquery hopen'.1
          exact ⟨b₁, b', h.turns hquery hopen'.1 ha hb hturns hturns', hturns'.follows hb, hruns⟩
      exact ⟨a', .turn hturns hruns⟩

end Stage

end MetricBridge
