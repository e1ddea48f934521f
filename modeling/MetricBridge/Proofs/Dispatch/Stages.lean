import MetricBridge.Proofs.Dispatch.Dispatching

namespace MetricBridge

open Run Dispatcher

variable {σ τ : Type}

structure Stage (σ τ : Type) where
  replies : List (Text × Reply)
  state : RetryState τ
  entries : List Json
  world : World σ τ

namespace Stage

variable [Seconds τ]

omit [Seconds τ] in
def first (d : Dispatcher σ τ) (requests : List Request) (start : τ) (w : World σ τ) :
    Stage σ τ where
  replies := []
  state := .initial (d.queries requests) d.settings.initialWait start
  entries := List.replicate requests.length Json.null
  world := w

structure Turns (d : Dispatcher σ τ) (options : FetchOptions) (target : Target)
    (a b : Stage σ τ) : Prop where
  goesOn : ¬d.stops a.state a.world.now = true
  returns : Returns (d.round options target a.state a.entries) a.world (b.state, b.entries) b.world
  replies : b.replies = a.replies ++ answers d.fetcher a.world.fetches (target.batch a.state)

inductive Runs (d : Dispatcher σ τ) (options : FetchOptions) (target : Target) :
    Nat → Stage σ τ → Stage σ τ → Prop
  | stop {fuel : Nat} {a : Stage σ τ} (stops : d.stops a.state a.world.now = true) :
      Runs d options target (fuel + 1) a a
  | turn {fuel : Nat} {a b c : Stage σ τ} (turns : a.Turns d options target b)
      (runs : Runs d options target fuel b c) : Runs d options target (fuel + 1) a c

variable {d : Dispatcher σ τ} {options : FetchOptions} {target : Target} {a b c : Stage σ τ}
  {fuel : Nat} {queries : List Text}

omit [Seconds τ] in
theorem tracks_first (d : Dispatcher σ τ) (requests : List Request) (start : τ) (w : World σ τ) :
    Tracks (d.queries requests) [] (first d requests start w).state
      (first d requests start w).entries := by
  unfold first
  rw [← List.length_map (Request.query d.settings.sourceName)]
  exact tracks_initial _ _ _

theorem Turns.tracks (h : a.Turns d options target b)
    (ht : Tracks queries a.replies a.state a.entries) :
    Tracks queries b.replies b.state b.entries := by
  rw [h.replies]
  exact tracks_round h.returns ht

theorem Runs.fuel_pos (h : Runs d options target fuel a b) : 0 < fuel := by
  cases h <;> exact Nat.succ_pos _

theorem Runs.tracks (h : Runs d options target fuel a b)
    (ht : Tracks queries a.replies a.state a.entries) :
    Tracks queries b.replies b.state b.entries := by
  induction h with
  | stop => exact ht
  | turn turns _ ih => exact ih (turns.tracks ht)

theorem Runs.returns (h : Runs d options target fuel a b) :
    Returns (d.rounds options target fuel a.state a.entries) a.world (b.state, b.entries)
      b.world := by
  induction h with
  | stop stops => exact (returns_rounds_of_stops stops).mpr ⟨rfl, rfl⟩
  | turn turns _ ih =>
      exact (returns_rounds_of_not_stops turns.goesOn).mpr ⟨_, _, _, turns.returns, ih⟩

theorem Turns.unique (h : a.Turns d options target b) (h' : a.Turns d options target c) : b = c := by
  obtain ⟨heq, hworld⟩ := h.returns.unique h'.returns
  have hreplies := h.replies.trans h'.replies.symm
  cases b
  cases c
  cases heq
  cases hworld
  cases hreplies
  rfl

theorem Runs.unique (h : Runs d options target fuel a b) (h' : Runs d options target fuel a c) :
    b = c := by
  induction h with
  | stop stops =>
      cases h' with
      | stop => rfl
      | turn turns => exact absurd stops turns.goesOn
  | turn turns _ ih =>
      cases h' with
      | stop stops => exact absurd stops turns.goesOn
      | turn turns' runs =>
          obtain rfl := turns.unique turns'
          exact ih runs

theorem exists_runs {state : RetryState τ} {entries : List Json} {w : World σ τ}
    (h : Returns (d.rounds options target fuel a.state a.entries) a.world (state, entries) w) :
    ∃ replies, Runs d options target fuel a ⟨replies, state, entries, w⟩ := by
  induction fuel generalizing a with
  | zero => exact absurd h not_returns_throw
  | succ fuel ih =>
      by_cases hstops : d.stops a.state a.world.now = true
      · obtain ⟨heq, rfl⟩ := (returns_rounds_of_stops hstops).mp h
        cases heq
        exact ⟨a.replies, .stop hstops⟩
      · obtain ⟨state₁, entries₁, w₁, hround, h⟩ := (returns_rounds_of_not_stops hstops).mp h
        let b : Stage σ τ :=
          ⟨a.replies ++ answers d.fetcher a.world.fetches (target.batch a.state), state₁, entries₁, w₁⟩
        obtain ⟨replies, hruns⟩ := ih (a := b) h
        exact ⟨replies, .turn ⟨hstops, hround, rfl⟩ hruns⟩

end Stage
end MetricBridge
