import MetricBridge.Proofs.Dispatch.Budget
import MetricBridge.Proofs.Dispatch.Timing
import Mathlib.Algebra.Order.Archimedean.Basic
import Mathlib.Order.Lattice.Nat

namespace MetricBridge

open Run

variable {σ τ α β : Type}

namespace Seconds

section Group

variable [AddCommGroup τ] [LinearOrder τ] {span unit : τ} {n : ℕ}

noncomputable def ceilDiv (span unit : τ) : ℕ := sInf {n | span ≤ n • unit}

variable [IsOrderedAddMonoid τ] [Archimedean τ]

theorem ceilDiv_le (hunit : 0 < unit) : ceilDiv span unit ≤ n ↔ span ≤ n • unit := by
  constructor
  · intro h
    have hcovers : span ≤ ceilDiv span unit • unit := Nat.sInf_mem (Archimedean.arch span hunit)
    exact hcovers.trans (nsmul_le_nsmul_left hunit.le h)
  · exact fun h => Nat.sInf_le h

theorem lt_ceilDiv (hunit : 0 < unit) : n < ceilDiv span unit ↔ n • unit < span := by
  rw [← not_le, ceilDiv_le hunit, not_le]

end Group

/-- In a field it is the quotient, rounded up. -/
theorem ceilDiv_eq_ceil {K : Type} [Field K] [LinearOrder K] [IsStrictOrderedRing K]
    [FloorRing K] {unit : K} (hunit : 0 < unit) (span : K) :
    ceilDiv span unit = ⌈span / unit⌉₊ := by
  refine eq_of_forall_ge_iff fun n => ?_
  rw [ceilDiv_le hunit, Nat.ceil_le, div_le_iff₀ hunit, nsmul_eq_mul]

end Seconds

namespace DispatchSettings

variable [LinearOrder τ]

def shortestWait (settings : DispatchSettings τ) : τ :=
  min settings.initialWait settings.longestWait

/-- The number of rounds after which the time for retries is over. -/
noncomputable def mostRounds [AddCommGroup τ] (settings : DispatchSettings τ) : ℕ :=
  max 1 (Seconds.ceilDiv settings.retryLimit settings.shortestWait)

end DispatchSettings

variable [Seconds τ] {fetcher : Fetcher τ} {most : ℕ} {w w' : World σ τ}

/-- However many rounds are allowed, if they are more than the number: the computation ends in the
same way, not because they are used up, and it sends no more batches than the number. -/
def Terminates (fetcher : Fetcher τ) (most : ℕ) (x : ℕ → Run σ τ α) (w : World σ τ) : Prop :=
  ∃ result w' course, result ≠ .error .unfinished ∧
    (∀ maxRounds, most < maxRounds → Ends (x maxRounds) w result w') ∧
    Elapses fetcher w course w' ∧ (batchesOf course).length ≤ most

structure Prompt (x : Run σ τ α) : Prop where
  idle : Idle x
  finishes : FailsOnly (· ≠ .unfinished) x

theorem Failure.IsPlain.ne_unfinished {failure : Failure} (h : failure.IsPlain) :
    failure ≠ .unfinished := by
  rintro rfl
  exact h

namespace Prompt

omit [Seconds τ] in
theorem of_plain {x : Run σ τ α} (hidle : Idle x) (hplain : FailsOnly Failure.IsPlain x) :
    Prompt x := ⟨hidle, hplain.mono fun _ => Failure.IsPlain.ne_unfinished⟩

omit [Seconds τ] in
theorem bind {x : Run σ τ α} {f : α → Run σ τ β} (hx : Prompt x) (hf : ∀ a, Prompt (f a)) :
    Prompt (x >>= f) :=
  ⟨hx.idle.bind fun a => (hf a).idle, hx.finishes.bind fun a => (hf a).finishes⟩

theorem terminates {x : Run σ τ α} (hx : Prompt x) (w : World σ τ) :
    Terminates fetcher most (fun _ => x) w := by
  obtain ⟨result, w', h⟩ := exists_ends x w
  refine ⟨result, w', [], ?_, fun _ _ => h, (hx.idle h).elapses fetcher, Nat.zero_le most⟩
  rintro rfl
  exact hx.finishes h rfl

end Prompt

namespace Terminates

theorem after {x : Run σ τ α} {f : α → ℕ → Run σ τ β} (hx : Prompt x)
    (hf : ∀ a w₁, Returns x w a w₁ → Terminates fetcher most (f a) w₁) :
    Terminates fetcher most (fun maxRounds => x >>= fun a => f a maxRounds) w := by
  obtain ⟨ending, w₁, h⟩ := exists_ends x w
  cases ending with
  | error failure =>
      refine ⟨.error failure, w₁, [], ?_, fun _ _ => h.failed, (hx.idle h).elapses fetcher,
        Nat.zero_le most⟩
      rintro ⟨⟩
      exact hx.finishes h rfl
  | ok a =>
      obtain ⟨result, w', course, hresult, hends, helapses, hlength⟩ := hf a w₁ h
      exact ⟨result, w', course, hresult,
        fun maxRounds hmost => (Returns.ends h).mpr (hends maxRounds hmost),
        (hx.idle h).before helapses, hlength⟩

theorem bind {x : ℕ → Run σ τ α} {f : α → Run σ τ β} (hx : Terminates fetcher most x w)
    (hf : ∀ a, Prompt (f a)) : Terminates fetcher most (fun maxRounds => x maxRounds >>= f) w := by
  obtain ⟨ending, w₁, course, hending, hends, helapses, hlength⟩ := hx
  cases ending with
  | error failure =>
      refine ⟨.error failure, w₁, course, ?_, fun maxRounds hmost => (hends maxRounds hmost).failed,
        helapses, hlength⟩
      rintro ⟨⟩
      exact hending rfl
  | ok a =>
      obtain ⟨result, w', h⟩ := exists_ends (f a) w₁
      refine ⟨result, w', course, ?_,
        fun maxRounds hmost => (Returns.ends (hends maxRounds hmost)).mpr h,
        helapses.still ((hf a).idle h), hlength⟩
      rintro rfl
      exact (hf a).finishes h rfl

end Terminates

namespace Dispatcher

omit [Seconds τ] in
def allowing (d : Dispatcher σ τ) (maxRounds : ℕ) : Dispatcher σ τ := { d with maxRounds := maxRounds }

variable [AddCommGroup τ] [LinearOrder τ] [IsOrderedAddMonoid τ] [Seconds.Exact τ]
  {d : Dispatcher σ τ} {options : FetchOptions} {target : Target} {state state' : RetryState τ}
  {entries entries' : List Json} {now : τ}

structure Paused (d : Dispatcher σ τ) (state : RetryState τ) (now : τ) : Prop where
  wait : d.settings.shortestWait ≤ state.wait
  elapsed : state.start + state.rounds • d.settings.shortestWait ≤ now

theorem shortestWait_le_nextWait {settings : DispatchSettings τ} {wait : τ}
    (hpositive : 0 ≤ settings.shortestWait) (hwait : settings.shortestWait ≤ wait) :
    settings.shortestWait ≤ Retry.nextWait wait settings.longestWait := by
  have hdouble : wait ≤ wait + wait := le_add_of_nonneg_right (hpositive.trans hwait)
  rw [nextWait_eq]
  exact le_min (hwait.trans hdouble) (min_le_right _ _)

theorem Paused.round (hpositive : 0 ≤ d.settings.shortestWait)
    (hclock : ∀ number batch, 0 ≤ (d.fetcher number batch).duration)
    (h : d.Paused state w.now)
    (hround : Returns (d.round options target state entries) w (state', entries') w') :
    state'.rounds = state.rounds + 1 ∧
      (d.stops state' w'.now = true ∨ d.Paused state' w'.now) := by
  obtain ⟨-, -, hstate, helapses⟩ := returns_round hround
  have hduration := hclock w.fetches (target.batch state)
  generalize target.batch state = batch at hstate helapses hduration
  generalize hnow : Seconds.add w.now (d.fetcher w.fetches batch).duration = now at hstate helapses
  rw [Seconds.Exact.add_eq] at hnow
  have hwait := state.afterAll_wait (answers d.fetcher w.fetches batch)
  have hstart := state.afterAll_start (answers d.fetcher w.fetches batch)
  have hrounds := state.afterAll_rounds (answers d.fetcher w.fetches batch)
  generalize state.afterAll (answers d.fetcher w.fetches batch) = state₁ at *
  subst hstate
  refine ⟨congrArg (· + 1) hrounds, ?_⟩
  have hlater := helapses.now
  unfold pause at hlater
  by_cases hlast : d.isLast state₁ now = true
  · left
    rw [if_pos hlast, clock, clock, Seconds.Exact.add_eq, hnow] at hlater
    rw [stops_turned, hlater, hlast]
  · right
    rw [if_neg hlast, clock, clock, clock, Seconds.Exact.add_eq, Seconds.Exact.add_eq, hnow,
      hwait] at hlater
    refine ⟨?_, ?_⟩
    · rw [turned, if_neg hlast, hwait]
      exact shortestWait_le_nextWait hpositive h.wait
    · calc (d.turned state₁ now).start + (d.turned state₁ now).rounds • d.settings.shortestWait
          = state.start + state.rounds • d.settings.shortestWait + d.settings.shortestWait := by
            rw [← hstart, ← hrounds, add_assoc, ← succ_nsmul]
            rfl
        _ ≤ w.now + state.wait := add_le_add h.elapsed h.wait
        _ ≤ now + state.wait := by
            rw [← hnow]
            exact add_le_add_left (le_add_of_nonneg_right hduration) _
        _ = w'.now := hlater.symm

/-- While another round takes place, the time for retries is not over. -/
theorem Paused.rounds_lt [Archimedean τ] (hpositive : 0 < d.settings.shortestWait)
    (h : d.Paused state now) (hgoes : ¬d.stops state now = true) :
    state.rounds < d.settings.mostRounds := by
  rcases Nat.eq_zero_or_pos state.rounds with hzero | hpos
  · rw [hzero]
    exact Nat.lt_of_lt_of_le Nat.one_pos (le_max_left 1 _)
  · have hover : ¬state.start + d.settings.retryLimit ≤ now := by
      rw [← isOver_iff]
      intro hover
      exact hgoes (by simp [stops, hpos, hover])
    have hlt : state.rounds • d.settings.shortestWait < d.settings.retryLimit :=
      lt_of_add_lt_add_left (h.elapsed.trans_lt (not_le.mp hover))
    exact lt_max_of_lt_right ((Seconds.lt_ceilDiv hpositive).mpr hlt)

omit [AddCommGroup τ] [LinearOrder τ] [IsOrderedAddMonoid τ] [Seconds.Exact τ] in
theorem elapses_round {result : Except Failure (RetryState τ × List Json)}
    (h : Ends (d.round options target state entries) w result w') :
    ∃ course, Elapses d.fetcher w course w' ∧ (batchesOf course).length ≤ 1 := by
  cases result with
  | error failure =>
      obtain hstill | hsent := round_fails h
      · exact ⟨[], hstill.elapses _, Nat.zero_le 1⟩
      · exact ⟨_, hsent, Nat.le_refl 1⟩
  | ok x =>
      obtain ⟨-, -, -, helapses⟩ := returns_round h
      exact ⟨_, helapses, by rw [batchesOf_pause, List.length_singleton]⟩

omit [AddCommGroup τ] [LinearOrder τ] [IsOrderedAddMonoid τ] [Seconds.Exact τ] in
theorem terminates_of_stops (hstops : d.stops state w.now = true) (entries : List Json) :
    Terminates d.fetcher most (fun fuel => d.rounds options target fuel state entries) w := by
  refine ⟨.ok (state, entries), w, [], nofun, fun fuel hfuel => ?_, (Still.refl w).elapses d.fetcher,
    Nat.zero_le most⟩
  obtain ⟨fuel, rfl⟩ := Nat.exists_eq_add_one.mpr (Nat.zero_lt_of_lt hfuel)
  exact (returns_rounds_of_stops hstops).mpr ⟨rfl, rfl⟩

/-- From a stage on, the rounds end after at most as many batches as rounds are left. -/
theorem terminates_rounds [Archimedean τ] (hpositive : 0 < d.settings.shortestWait)
    (hclock : ∀ number batch, 0 ≤ (d.fetcher number batch).duration) {left : ℕ}
    (hleft : d.settings.mostRounds ≤ state.rounds + left)
    (h : d.stops state w.now = true ∨ d.Paused state w.now) (entries : List Json) :
    Terminates d.fetcher left (fun fuel => d.rounds options target fuel state entries) w := by
  induction left generalizing state entries w with
  | zero =>
      refine terminates_of_stops (h.elim id fun hpaused => ?_) entries
      by_contra hgoes
      have hlt := hpaused.rounds_lt hpositive hgoes
      omega
  | succ left ih =>
      by_cases hgoes : d.stops state w.now = true
      · exact terminates_of_stops hgoes entries
      have hpaused := h.resolve_left hgoes
      obtain ⟨ending, w₁, hround⟩ := exists_ends (d.round options target state entries) w
      obtain ⟨course, helapses, hone⟩ := elapses_round hround
      cases ending with
      | error failure =>
          refine ⟨.error failure, w₁, course, ?_, fun fuel hfuel => ?_, helapses, by omega⟩
          · rintro ⟨⟩
            obtain hplain | habort := round_failure hround
            · exact hplain
            · cases habort
          · obtain ⟨fuel, rfl⟩ := Nat.exists_eq_add_one.mpr (Nat.zero_lt_of_lt hfuel)
            exact (ends_rounds_of_not_stops hgoes).mpr hround.failed
      | ok x =>
          obtain ⟨state₁, entries₁⟩ := x
          obtain ⟨hrounds, hnext⟩ := hpaused.round hpositive.le hclock hround
          obtain ⟨result, w', more, hresult, hends, hmore, hlength⟩ :=
            ih (by omega) hnext entries₁
          refine ⟨result, w', course ++ more, hresult, fun fuel hfuel => ?_, helapses.trans hmore, ?_⟩
          · obtain ⟨fuel, rfl⟩ := Nat.exists_eq_add_one.mpr (Nat.zero_lt_of_lt hfuel)
            exact (ends_rounds_of_not_stops hgoes).mpr
              ((Returns.ends hround).mpr (hends fuel (by omega)))
          · rw [batchesOf_append, List.length_append]
            omega

variable {requests : List Request}

omit [AddCommGroup τ] [LinearOrder τ] [IsOrderedAddMonoid τ] [Seconds.Exact τ] in
/-- After its rounds a call takes no time, and its end has nothing to do with their number. -/
theorem prompt_rest (state : RetryState τ) (entries : List Json) : Prompt (do
    let entries ← d.complete state entries
    d.finish requests options entries) := by
  refine ⟨idle_rest state entries, FailsOnly.bind (fun w failure w' h => ?_) fun entries => ?_⟩
  · obtain ⟨w₁, hcomplete⟩ := exists_complete d state entries w
    cases h.symm.trans hcomplete
  · refine (finish_fails requests entries).mono fun failure h => ?_
    obtain hplain | hcomplaint := h
    · exact hplain.ne_unfinished
    · rintro rfl
      exact isComplaint_of_complaint? hcomplaint

theorem terminates_dispatch [Archimedean τ] (hpositive : 0 < d.settings.shortestWait)
    (hclock : ∀ number batch, 0 ≤ (d.fetcher number batch).duration) (w : World σ τ) :
    Terminates d.fetcher d.settings.mostRounds
      (fun maxRounds => (d.allowing maxRounds).dispatch requests options) w := by
  have htarget : ∀ maxRounds, (d.allowing maxRounds).target options = d.target options :=
    fun _ => rfl
  have hannounce : ∀ maxRounds, (d.allowing maxRounds).announce requests = d.announce requests :=
    fun _ => rfl
  have hrounds : ∀ maxRounds target start, (d.allowing maxRounds).allRounds requests options target
      start = d.rounds options target maxRounds
        (RetryState.initial (d.queries requests) d.settings.initialWait start)
        (List.replicate requests.length Json.null) := fun maxRounds target _ =>
    rounds_congr d (d.allowing maxRounds) options options rfl rfl rfl rfl rfl target _ _ _
  have hcomplete : ∀ maxRounds state entries,
      (d.allowing maxRounds).complete state entries = d.complete state entries := fun _ _ _ => rfl
  have hfinish : ∀ maxRounds entries, (d.allowing maxRounds).finish requests options entries =
      d.finish requests options entries := fun _ _ => rfl
  simp only [dispatch_eq, htarget, hannounce, hrounds, hcomplete, hfinish]
  refine .after (.of_plain (idle_target d options) plain_target) fun target w₁ _ => ?_
  refine .after (.of_plain (idle_announce d requests) (plain_announce requests)) fun _ w₂ _ => ?_
  refine .after ⟨Within.now, FailsOnly.now⟩ fun start w₃ hnow => ?_
  obtain ⟨rfl, rfl⟩ := returns_now hnow
  refine .bind (terminates_rounds hpositive hclock ?_ (.inr ?_) _) fun x => prompt_rest x.1 x.2
  · exact Nat.le_add_left _ _
  · exact ⟨min_le_left _ _, by simp [RetryState.initial]⟩

/-- Whatever is requested and whatever the server does: a call ends. It sends at most as many batches
as times that the shortest wait fits into the time for retries, rounded up, and one in any case. How
it ends does not depend on how many rounds are allowed, if there are more of them. -/
theorem fetchAll_terminates [Archimedean τ] (d : Dispatcher σ τ)
    (hinitial : 0 < d.settings.initialWait) (hlongest : 0 < d.settings.longestWait)
    (hclock : ∀ number batch, 0 ≤ (d.fetcher number batch).duration)
    (requests : List Request) (options : FetchOptions) (w : World σ τ) :
    ∃ result w' course, result ≠ .error .unfinished ∧
      (∀ maxRounds, d.settings.mostRounds < maxRounds →
        Ends ((d.allowing maxRounds).fetchAll requests options) w result w') ∧
      Elapses d.fetcher w course w' ∧ (batchesOf course).length ≤ d.settings.mostRounds := by
  have hpositive : 0 < d.settings.shortestWait := lt_min hinitial hlongest
  have hlookUp : Prompt (d.lookUp options) := .of_plain (within_lookUp d options) plain_lookUp
  have hsame : ∀ maxRounds, (d.allowing maxRounds).lookUp options = d.lookUp options :=
    fun _ => rfl
  simp only [fetchAll_eq, hsame]
  refine Terminates.after hlookUp fun found w₁ _ => ?_
  cases found with
  | some entries => exact Prompt.terminates ⟨Within.pure, FailsOnly.pure⟩ w₁
  | none => exact terminates_dispatch hpositive hclock w₁

def stuckDispatcher : Dispatcher Unit Int where
  settings := ⟨30, 4, 4, 0, "agent", [], "source"⟩
  fetcher _ batch := ⟨0, .ok (batch.map fun _ => ⟨503, none⟩)⟩
  store := none
  credentials := none
  maxRounds := 100

theorem stuckDispatcher_mostRounds : stuckDispatcher.settings.mostRounds = 8 := by
  have hpositive : (0 : Int) < stuckDispatcher.settings.shortestWait := by decide
  have hceil : Seconds.ceilDiv (30 : Int) stuckDispatcher.settings.shortestWait = 8 := by
    refine le_antisymm ((Seconds.ceilDiv_le hpositive).mpr (by decide)) ?_
    exact (Seconds.lt_ceilDiv hpositive).mpr (by decide)
  exact congrArg (max 1) hceil

/-- The bound is reached: a batch every four seconds, as long as less than thirty have passed. -/
theorem fetchAll_terminates_stuck :
    let requests : List Request := [⟨"A.a", []⟩]
    let options : FetchOptions := { address := some "https://matomo.example.com" }
    let world : World Unit Int := ⟨0, 0, 0, (), []⟩
    (0 : Int) < stuckDispatcher.settings.initialWait ∧
    (0 : Int) < stuckDispatcher.settings.longestWait ∧
    (∀ number batch, (0 : Int) ≤ (stuckDispatcher.fetcher number batch).duration) ∧
    ∃ entries w' course, Ends (stuckDispatcher.fetchAll requests options) world (.ok entries) w' ∧
      Elapses stuckDispatcher.fetcher world course w' ∧
      (batchesOf course).length = stuckDispatcher.settings.mostRounds := by
  intro requests options world
  have hinitial : (0 : Int) < stuckDispatcher.settings.initialWait := by decide
  have hlongest : (0 : Int) < stuckDispatcher.settings.longestWait := by decide
  have hclock : ∀ number batch, (0 : Int) ≤ (stuckDispatcher.fetcher number batch).duration :=
    fun _ _ => le_refl _
  have hrun : check (stuckDispatcher.fetchAll requests options) world
      (fun _ w' => w'.fetches == 8) = true := by decide +kernel
  obtain ⟨entries, v, hreturns, hfetches⟩ := returns_of_check hrun
  obtain ⟨result, w', course, -, hends, helapses, -⟩ :=
    fetchAll_terminates stuckDispatcher hinitial hlongest hclock requests options world
  have hall : Ends (stuckDispatcher.fetchAll requests options) world result w' :=
    hends 100 (by rw [stuckDispatcher_mostRounds]; decide)
  obtain ⟨rfl, rfl⟩ := Prod.mk.inj (hall.symm.trans hreturns)
  have hcount := helapses.fetches
  rw [eq_of_beq hfetches] at hcount
  refine ⟨hinitial, hlongest, hclock, entries, w', course, hall, helapses, ?_⟩
  rw [stuckDispatcher_mostRounds, ← Nat.zero_add (batchesOf course).length]
  exact hcount.symm

end Dispatcher
end MetricBridge
