import MetricBridge.Proofs.Dispatch.Dispatching
import MetricBridge.Proofs.Seconds
import Mathlib.Algebra.Group.Nat.Defs
import Mathlib.Algebra.Order.Group.Defs
import Mathlib.Algebra.Order.Monoid.NatCast

namespace MetricBridge

open Run

variable {σ τ : Type} [Seconds τ] [AddCommGroup τ] [LinearOrder τ]

def DispatchSettings.pauseAfter (settings : DispatchSettings τ) : Nat → τ
  | 0 => settings.initialWait
  | round + 1 => min (2 ^ (round + 1) • settings.initialWait) settings.longestWait

/-- After the trace a query is open, and the time for retries is not over. The first batch is sent
in any case. -/
def GoesOn (d : Dispatcher σ τ) (queries : List Text) (w : World σ τ) (past : List (Event τ)) :
    Prop :=
  (∃ query ∈ queries, IsOpen (conversation d.fetcher w.fetches (batchesOf past)) query) ∧
    (past = [] ∨ clock d.fetcher w.fetches w.now past < w.now + d.settings.retryLimit)

/-- Batches and pauses take turns, each at a moment when the dispatch goes on. -/
structure Steady (d : Dispatcher σ τ) (queries : List Text) (w : World σ τ)
    (course : List (Event τ)) : Prop where
  batch : ∀ round event, course[2 * round]? = some event → ∃ batch, event = .fetch batch
  pause : ∀ round event, course[2 * round + 1]? = some event →
    event = .sleep (d.settings.pauseAfter round)
  goesOn : ∀ n < course.length, GoesOn d queries w (course.take n)

/-- The trace stops as soon as the dispatch does not go on. -/
structure Paced (d : Dispatcher σ τ) (queries : List Text) (w : World σ τ)
    (course : List (Event τ)) : Prop extends Steady d queries w course where
  stops : ¬GoesOn d queries w course

variable {d : Dispatcher σ τ} {queries : List Text} {w w' w₀ : World σ τ}
  {past course : List (Event τ)}

namespace Steady

theorem nil : Steady d queries w [] := ⟨nofun, nofun, nofun⟩

theorem getElem?_snoc {α : Type} {l : List α} {a b : α} {n : Nat} (h : (l ++ [a])[n]? = some b) :
    l[n]? = some b ∨ n = l.length ∧ b = a := by
  by_cases hn : n < l.length
  · rw [List.getElem?_append_left hn] at h
    exact .inl h
  · rw [List.getElem?_append_right (Nat.le_of_not_lt hn)] at h
    obtain ⟨hlength, heq⟩ := List.getElem?_eq_some_iff.mp h
    rw [List.length_singleton] at hlength
    simp only [List.getElem_singleton] at heq
    exact .inr ⟨by omega, heq.symm⟩

theorem goesOn_snoc (h : Steady d queries w past) (hgoes : GoesOn d queries w past)
    (event : Event τ) : ∀ n < (past ++ [event]).length,
      GoesOn d queries w ((past ++ [event]).take n) := by
  intro n hn
  rw [List.length_append, List.length_singleton] at hn
  by_cases hlast : n < past.length
  · rw [List.take_append_of_le_length (Nat.le_of_lt hlast)]
    exact h.goesOn n hlast
  · have heq : n = past.length := by omega
    rw [heq, List.take_left]
    exact hgoes

theorem snoc_batch (h : Steady d queries w past) (hgoes : GoesOn d queries w past)
    (hlength : past.length % 2 = 0) (batch : List FetchRequest) :
    Steady d queries w (past ++ [.fetch batch]) where
  batch round event hevent := by
    obtain hevent | ⟨-, rfl⟩ := getElem?_snoc hevent
    · exact h.batch round event hevent
    · exact ⟨batch, rfl⟩
  pause round event hevent := by
    obtain hevent | ⟨hround, -⟩ := getElem?_snoc hevent
    · exact h.pause round event hevent
    · omega
  goesOn := h.goesOn_snoc hgoes _

theorem snoc_pause (h : Steady d queries w past) (hgoes : GoesOn d queries w past) {round : Nat}
    (hlength : past.length = 2 * round + 1) :
    Steady d queries w (past ++ [.sleep (d.settings.pauseAfter round)]) where
  batch other event hevent := by
    obtain hevent | ⟨hround, -⟩ := getElem?_snoc hevent
    · exact h.batch other event hevent
    · omega
  pause other event hevent := by
    obtain hevent | ⟨hround, rfl⟩ := getElem?_snoc hevent
    · exact h.pause other event hevent
    · have heq : other = round := by omega
      rw [heq]
  goesOn := h.goesOn_snoc hgoes _

end Steady

theorem Paced.eq_nil_iff (h : Paced d queries w course) :
    course = [] ↔ queries = [] := by
  constructor
  · rintro rfl
    refine List.eq_nil_iff_forall_not_mem.mpr fun query hquery => ?_
    exact h.stops ⟨⟨query, hquery, nofun⟩, .inl rfl⟩
  · rintro rfl
    cases course with
    | nil => rfl
    | cons event course =>
        obtain ⟨⟨query, hquery, -⟩, -⟩ := h.goesOn 0 (Nat.zero_lt_succ _)
        cases hquery

omit [Seconds τ] in
theorem min_double [IsOrderedAddMonoid τ] {a b : τ} (hb : 0 ≤ b) :
    min (min a b + min a b) b = min (a + a) b := by
  have hdouble : b ≤ b + b := le_add_of_nonneg_right hb
  rcases le_total a b with h | h
  · rw [min_eq_left h]
  · rw [min_eq_right h, min_eq_right hdouble, min_eq_right (hdouble.trans (add_le_add h h))]

theorem nextWait_eq [Seconds.Exact τ] (wait longest : τ) :
    Retry.nextWait wait longest = min (wait + wait) longest := by
  unfold Retry.nextWait
  rw [Seconds.Exact.twice_eq]
  by_cases h : longest < wait + wait
  · rw [if_pos ((Seconds.Exact.lt_iff _ _).mpr h), min_eq_right h.le]
  · rw [if_neg fun hlt => h ((Seconds.Exact.lt_iff _ _).mp hlt), min_eq_left (not_lt.mp h)]

variable [IsOrderedAddMonoid τ] [Seconds.Exact τ]

theorem nextWait_pauseAfter {settings : DispatchSettings τ} (hwait : 0 ≤ settings.longestWait)
    (round : Nat) : Retry.nextWait (settings.pauseAfter round) settings.longestWait =
      settings.pauseAfter (round + 1) := by
  rw [nextWait_eq]
  cases round with
  | zero => simp [DispatchSettings.pauseAfter, two_nsmul]
  | succ round =>
      rw [DispatchSettings.pauseAfter, min_double hwait, DispatchSettings.pauseAfter,
        @Nat.pow_succ 2 (round + 1), mul_nsmul, two_nsmul]

structure Timed (d : Dispatcher σ τ) (queries : List Text) (w₀ : World σ τ) (past : List (Event τ))
    (state : RetryState τ) (entries : List Json) (w : World σ τ) : Prop where
  elapsed : Elapses d.fetcher w₀ past w
  steady : Steady d queries w₀ past
  length : past.length = 2 * state.rounds
  start : state.start = w₀.now
  wait : state.wait = d.settings.pauseAfter state.rounds
  tracks : Tracks queries (conversation d.fetcher w₀.fetches (batchesOf past)) state entries

variable {state state' : RetryState τ} {entries entries' : List Json} {fuel : Nat}
  {options : FetchOptions} {target : Dispatcher.Target} {now : τ}

open Dispatcher

omit [IsOrderedAddMonoid τ] in
theorem isOver_iff (d : Dispatcher σ τ) (state : RetryState τ) (now : τ) :
    d.isOver state now = true ↔ state.start + d.settings.retryLimit ≤ now := by
  rw [isOver, Seconds.Exact.le_iff, Seconds.Exact.add_eq]

omit [IsOrderedAddMonoid τ] in
/-- Whether the dispatch goes on shows in its state. -/
theorem goesOn_iff (hnow : clock d.fetcher w₀.fetches w₀.now past = now)
    (hstart : state.start = w₀.now)
    (htracks : Tracks queries (conversation d.fetcher w₀.fetches (batchesOf past)) state entries) :
    GoesOn d queries w₀ past ↔ state.isDone = false ∧ (past = [] ∨ d.isOver state now = false) := by
  unfold GoesOn
  rw [htracks.isDone_iff, hnow, ← hstart, Bool.eq_false_iff, ne_eq, isOver_iff, not_le]

omit [IsOrderedAddMonoid τ] in
theorem goesOn_iff_isLast (hnow : clock d.fetcher w₀.fetches w₀.now past = now)
    (hstart : state.start = w₀.now)
    (htracks : Tracks queries (conversation d.fetcher w₀.fetches (batchesOf past)) state entries)
    (hpast : past ≠ []) : GoesOn d queries w₀ past ↔ d.isLast state now = false := by
  rw [goesOn_iff hnow hstart htracks, isLast, Bool.or_eq_false_iff]
  simp only [hpast, false_or]

namespace Timed

omit [IsOrderedAddMonoid τ] in
theorem stops_iff (h : Timed d queries w₀ past state entries w) :
    d.stops state w.now = true ↔ ¬GoesOn d queries w₀ past := by
  have hpast : past = [] ↔ state.rounds = 0 := by
    rw [← List.length_eq_zero_iff, h.length]
    omega
  rw [goesOn_iff h.elapsed.now.symm h.start h.tracks, hpast, stops]
  rcases Nat.eq_zero_or_pos state.rounds with hzero | hpos
  · simp [hzero]
  · have hne : ¬state.rounds = 0 := Nat.ne_of_gt hpos
    cases state.isDone <;> simp [hpos, hne]

theorem round (hwait : 0 ≤ d.settings.longestWait) (h : Timed d queries w₀ past state entries w)
    (hgoes : GoesOn d queries w₀ past)
    (hround : Returns (d.round options target state entries) w (state', entries') w') :
    ∃ past', Elapses d.fetcher w₀ past' w' ∧ (Timed d queries w₀ past' state' entries' w' ∨
      Paced d queries w₀ past' ∧ d.stops state' w'.now = true) := by
  have htracks := tracks_round hround h.tracks
  obtain ⟨-, -, hstate, helapses⟩ := returns_round hround
  generalize target.batch state = batch at htracks hstate helapses
  generalize hnow : Seconds.add w.now (d.fetcher w.fetches batch).duration = now at hstate helapses
  generalize hafter : state.afterAll (answers d.fetcher w.fetches batch) = state₁ at hstate helapses
  have hrounds : state₁.rounds = state.rounds := hafter ▸ state.afterAll_rounds _
  have hpause : state₁.wait = state.wait := hafter ▸ state.afterAll_wait _
  have hstart : state'.start = w₀.now := by
    rw [hstate, ← h.start, ← state.afterAll_start, hafter]
    rfl
  -- the moment after the replies, before the pause
  have hsteady := h.steady.snoc_batch hgoes (by rw [h.length, Nat.mul_mod_right]) batch
  have hclock : clock d.fetcher w₀.fetches w₀.now (past ++ [.fetch batch]) = now := by
    rw [clock_append, ← h.elapsed.now, ← h.elapsed.fetches, ← hnow]
    rfl
  rw [h.elapsed.fetches, ← conversation_snoc, ← batchesOf_snoc_fetch] at htracks
  have hgoes' := goesOn_iff_isLast hclock hstart htracks (by simp)
  rw [hstate, isLast_turned] at hgoes'
  have helapsed := h.elapsed.trans helapses
  unfold pause at helapsed
  by_cases hlast : d.isLast state₁ now = true
  · rw [if_pos hlast] at helapsed
    refine ⟨_, helapsed, .inr ⟨⟨hsteady, ?_⟩, ?_⟩⟩
    · rw [hgoes', hlast]
      exact Bool.noConfusion
    · rw [helapsed.now.trans hclock, hstate, stops_turned, hlast]
  · rw [if_neg hlast, hpause, h.wait, List.append_cons] at helapsed
    have hlength : (past ++ [Event.fetch batch]).length = 2 * state.rounds + 1 := by
      rw [List.length_append, h.length, List.length_singleton]
    have hsteady' := hsteady.snoc_pause (hgoes'.mpr (Bool.eq_false_iff.mpr hlast)) hlength
    rw [← batchesOf_snoc_sleep _ (d.settings.pauseAfter state.rounds)] at htracks
    have hrounds' : state'.rounds = state.rounds + 1 := by
      rw [hstate, ← hrounds]
      rfl
    refine ⟨_, helapsed, .inl ⟨helapsed, hsteady', ?_, hstart, ?_, htracks⟩⟩
    · rw [List.length_append, hlength, hrounds']
      rfl
    · rw [hrounds', ← nextWait_pauseAfter hwait, ← h.wait, ← hpause, hstate, turned, if_neg hlast]

end Timed

theorem timed_rounds {x : RetryState τ × List Json} (hwait : 0 ≤ d.settings.longestWait)
    (h : Returns (d.rounds options target fuel state entries) w x w')
    (ht : Timed d queries w₀ past state entries w) :
    ∃ course, Elapses d.fetcher w₀ course w' ∧ Paced d queries w₀ course := by
  induction fuel generalizing past state entries w with
  | zero => exact absurd h not_returns_throw
  | succ fuel ih =>
      by_cases hstops : d.stops state w.now = true
      · obtain ⟨-, rfl⟩ := (returns_rounds_of_stops hstops).mp h
        exact ⟨past, ht.elapsed, ht.steady, ht.stops_iff.mp hstops⟩
      · obtain ⟨state₁, entries₁, w₁, hround, h⟩ := (returns_rounds_of_not_stops hstops).mp h
        have hgoes : GoesOn d queries w₀ past := not_not.mp fun hgoes =>
          hstops (ht.stops_iff.mpr hgoes)
        obtain ⟨past', helapsed, ht' | ⟨hpaced, hstops'⟩⟩ := ht.round hwait hgoes hround
        · exact ih h ht'
        · cases fuel with
          | zero => exact absurd h not_returns_throw
          | succ fuel =>
              obtain ⟨-, rfl⟩ := (returns_rounds_of_stops hstops').mp h
              exact ⟨past', helapsed, hpaced⟩

namespace Dispatcher

variable {requests : List Request} {result : List Json}

theorem dispatch_paced (hwait : 0 ≤ d.settings.longestWait)
    (h : Returns (d.dispatch requests options) w result w') (hstill : Still w₀ w) :
    ∃ course, Elapses d.fetcher w₀ course w' ∧ Paced d (d.queries requests) w₀ course := by
  obtain ⟨target, _, w₁, state, entries₁, w₂, -, hstart, hrounds, -, hend⟩ := returns_dispatch h
  have hlength : requests.length = (d.queries requests).length := (List.length_map _).symm
  rw [allRounds, hlength, hstill.now] at hrounds
  have ht : Timed d (d.queries requests) w₀ []
      (RetryState.initial (d.queries requests) d.settings.initialWait w₀.now)
      (List.replicate (d.queries requests).length Json.null) w₁ :=
    ⟨(hstill.trans hstart).elapses d.fetcher, .nil, rfl, rfl, rfl, tracks_initial _ _ _⟩
  obtain ⟨course, helapsed, hpaced⟩ := timed_rounds hwait hrounds ht
  exact ⟨course, helapsed.still hend, hpaced⟩

/-- A call that returns takes its entries from the store, or batches and pauses take turns in it and
stop as soon as nothing is pending or the time for retries is over. -/
theorem fetchAll_paced (hwait : 0 ≤ d.settings.longestWait)
    (h : Returns (d.fetchAll requests options) w result w') :
    ∃ course, Elapses d.fetcher w course w' ∧
      ((course = [] ∧ ∃ key w₁, options.storeKey? = some key ∧
          Returns (d.readEntries key) w (some result) w₁) ∨
        Paced d (d.queries requests) w course ∧ (course = [] ↔ requests = [])) := by
  have hqueries : d.queries requests = [] ↔ requests = [] := List.map_eq_nil_iff
  unfold fetchAll at h
  cases hkey : options.storeKey? with
  | none =>
      rw [hkey] at h
      obtain ⟨course, helapsed, hpaced⟩ := dispatch_paced hwait h (.refl w)
      exact ⟨course, helapsed, .inr ⟨hpaced, hpaced.eq_nil_iff.trans hqueries⟩⟩
  | some key =>
      rw [hkey] at h
      obtain ⟨found, w₁, hread, h⟩ := returns_bind.mp h
      have hstill : Still w w₁ := idle_readEntries d key hread
      cases found with
      | some stored =>
          obtain ⟨rfl, rfl⟩ := returns_pure.mp h
          exact ⟨[], hstill.elapses d.fetcher, .inl ⟨rfl, key, w₁, rfl, hread⟩⟩
      | none =>
          obtain ⟨course, helapsed, hpaced⟩ := dispatch_paced hwait h hstill
          exact ⟨course, helapsed, .inr ⟨hpaced, hpaced.eq_nil_iff.trans hqueries⟩⟩

def overloadedDispatcher : Dispatcher Unit Int where
  settings := ⟨30, 2, 6, 0, "agent", [], "source"⟩
  fetcher _ batch := ⟨5, .ok (batch.map fun _ => ⟨503, none⟩)⟩
  store := none
  credentials := none
  maxRounds := 10

/-- The last of the batches begins before the time for retries is over, and ends after it. -/
theorem fetchAll_paced_overloaded :
    let requests : List Request := [⟨"VisitsSummary.get", [("idSite", .text "1")]⟩]
    let options : FetchOptions := { address := some "https://matomo.example.com" }
    let world : World Unit Int := ⟨0, 0, 0, (), []⟩
    (0 : Int) ≤ overloadedDispatcher.settings.longestWait ∧
    ∃ entries w', Returns (overloadedDispatcher.fetchAll requests options) world entries w' ∧
      ∃ course, Elapses overloadedDispatcher.fetcher world course w' ∧
        ((course = [] ∧ ∃ key w₁, options.storeKey? = some key ∧
            Returns (overloadedDispatcher.readEntries key) world (some entries) w₁) ∨
          Paced overloadedDispatcher (overloadedDispatcher.queries requests) world course ∧
            (course = [] ↔ requests = [])) := by
  intro requests options world
  have hwait : (0 : Int) ≤ overloadedDispatcher.settings.longestWait := by decide
  have hok : (StateT.run (ExceptT.run (overloadedDispatcher.fetchAll requests options))
      world).1.isOk = true := by decide +kernel
  obtain ⟨entries, w', h⟩ := exists_returns hok
  exact ⟨hwait, entries, w', h, fetchAll_paced hwait h⟩

end Dispatcher
end MetricBridge
