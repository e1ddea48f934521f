import MetricBridge.Dispatch.World

namespace MetricBridge.Run

variable {σ τ α β : Type} {w w' w'' : World σ τ} {a a' : α} {b : β}

def Returns (x : Run σ τ α) (w : World σ τ) (a : α) (w' : World σ τ) : Prop :=
  StateT.run (ExceptT.run x) w = (.ok a, w')

theorem exists_returns {x : Run σ τ α} (h : (StateT.run (ExceptT.run x) w).1.isOk = true) :
    ∃ a w', Returns x w a w' := by
  unfold Returns
  cases hx : StateT.run (ExceptT.run x) w with
  | mk result w' => cases result with
      | error => rw [hx] at h; cases h
      | ok a => exact ⟨a, w', rfl⟩

def check (x : Run σ τ α) (w : World σ τ) (p : α → World σ τ → Bool) : Bool :=
  match StateT.run (ExceptT.run x) w with
  | (.ok a, w') => p a w'
  | (.error _, _) => false

theorem returns_of_check {x : Run σ τ α} {p : α → World σ τ → Bool} (h : check x w p = true) :
    ∃ a w', Returns x w a w' ∧ p a w' = true := by
  unfold check at h
  unfold Returns
  cases hx : StateT.run (ExceptT.run x) w with
  | mk result w' => cases result with
      | error => rw [hx] at h; cases h
      | ok a => rw [hx] at h; exact ⟨a, w', rfl, h⟩

theorem returns_pure : Returns (pure a : Run σ τ α) w a' w' ↔ a = a' ∧ w = w' := by
  refine ⟨fun h => ?_, fun ⟨ha, hw⟩ => ha ▸ hw ▸ rfl⟩
  cases h
  exact ⟨rfl, rfl⟩

theorem returns_bind {x : Run σ τ α} {f : α → Run σ τ β} :
    Returns (x >>= f) w b w'' ↔ ∃ a w', Returns x w a w' ∧ Returns (f a) w' b w'' := by
  have hrun : StateT.run (ExceptT.run (x >>= f)) w =
      match StateT.run (ExceptT.run x) w with
      | (.ok a, w') => StateT.run (ExceptT.run (f a)) w'
      | (.error e, w') => (.error e, w') := by
    rw [ExceptT.run_bind, StateT.run_bind]
    cases StateT.run (ExceptT.run x) w with
    | mk result w' => cases result <;> rfl
  unfold Returns
  rw [hrun]
  cases hx : StateT.run (ExceptT.run x) w with
  | mk result w' => cases result with
      | error => exact ⟨nofun, fun ⟨_, _, h, _⟩ => nomatch h⟩
      | ok a =>
          refine ⟨fun h => ⟨a, w', rfl, h⟩, ?_⟩
          rintro ⟨a', w'', h, hf⟩
          cases h
          exact hf

theorem not_returns_throw {f : Failure} : ¬Returns (throw f : Run σ τ α) w a w' := nofun

theorem not_returns_throw_bind {f : Failure} {g : α → Run σ τ β} :
    ¬Returns (throw f >>= g) w b w' := by
  intro h
  obtain ⟨_, _, h, -⟩ := returns_bind.mp h
  exact not_returns_throw h

theorem returns_loggedAll (entries : List LogEntry) (w : World σ τ) :
    Returns (entries.forM fun entry => record (.log entry)) w ()
      { w with events := (entries.map Event.log).reverse ++ w.events } := by
  induction entries generalizing w with
  | nil => rfl
  | cons entry entries ih =>
      refine returns_bind.mpr ⟨(), { w with events := .log entry :: w.events }, rfl, ?_⟩
      simpa using ih { w with events := .log entry :: w.events }

theorem returns_takeAnswer (answer : StoreAnswer σ α) (w : World σ τ) :
    Returns (takeAnswer answer) w answer.result { w with
      store := answer.state
      events := (answer.log.map Event.log).reverse ++ w.events } := by
  have hstored : Returns (modify fun w => { w with store := answer.state } : Run σ τ Unit) w ()
      { w with store := answer.state } := rfl
  exact returns_bind.mpr ⟨(), _, hstored, returns_bind.mpr ⟨(), _, returns_loggedAll _ _, rfl⟩⟩

theorem returns_fetch [Seconds τ] (fetcher : Fetcher τ) (batch : List FetchRequest) (w : World σ τ) :
    Returns (fetch fetcher batch) w (fetcher w.fetches batch).outcome { w with
      now := Seconds.add w.now (fetcher w.fetches batch).duration
      fetches := w.fetches + 1
      events := .fetch batch :: w.events } := rfl

/-- What a store answers when a text is put into it is all that becomes of a writing. -/
theorem returns_writeStore [Seconds τ] {s : Store σ τ} {key value : Text} {ttl : Int}
    {answer : StoreAnswer σ Unit} (hanswer : s.put w.now key value ttl w.store = answer) :
    Returns (writeStore s key value ttl) w
      (match answer.result with
        | .ok () => none
        | .error fault => some fault)
      { w with
        store := answer.state
        events := (answer.log.map Event.log).reverse ++ .put key value ttl :: w.events } := by
  subst hanswer
  let w₁ : World σ τ := { w with events := .put key value ttl :: w.events }
  refine returns_bind.mpr ⟨(), w₁, rfl, returns_bind.mpr ⟨w₁, w₁, rfl,
    returns_bind.mpr ⟨_, _, returns_takeAnswer _ w₁, ?_⟩⟩⟩
  dsimp only [w₁]
  cases (s.put w.now key value ttl w.store).result with
  | ok => rfl
  | error => rfl

end MetricBridge.Run
