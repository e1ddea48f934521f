import MetricBridge.Proofs.Dispatch.Budget

namespace MetricBridge

variable {σ τ α β γ δ : Type} {w v : World σ τ}

namespace Run

/-- From states that the relation holds between, the computations end with the same failure, or with results
that match. The relation holds between the states that they leave behind. -/
def Pairs (R : World σ τ → World σ τ → Prop) (P : α → β → Prop) (x : Run σ τ α)
    (y : Run σ τ β) : Prop :=
  ∀ ⦃w v⦄, R w v → ∃ w' v', R w' v' ∧
    ((∃ failure, Ends x w (.error failure) w' ∧ Ends y v (.error failure) v') ∨
      ∃ a b, P a b ∧ Returns x w a w' ∧ Returns y v b v')

abbrev Mirrors (R : World σ τ → World σ τ → Prop) (x : Run σ τ α) : Prop := Pairs R Eq x x

namespace Pairs

variable {R : World σ τ → World σ τ → Prop} {P : α → β → Prop} {Q : γ → δ → Prop}

theorem ends {x y : Run σ τ α} (h : Pairs R Eq x y) (hR : R w v) :
    ∃ result w' v', Ends x w result w' ∧ Ends y v result v' ∧ R w' v' := by
  obtain ⟨w', v', hR', ⟨failure, hx, hy⟩ | ⟨a, _, rfl, hx, hy⟩⟩ := h hR
  · exact ⟨.error failure, w', v', hx, hy, hR'⟩
  · exact ⟨.ok a, w', v', hx, hy, hR'⟩

theorem of_ends {x y : Run σ τ α} (h : ∀ ⦃w v⦄, R w v →
    ∃ result w' v', Ends x w result w' ∧ Ends y v result v' ∧ R w' v') : Pairs R Eq x y := by
  intro w v hR
  obtain ⟨result, w', v', hx, hy, hR'⟩ := h hR
  cases result with
  | error failure => exact ⟨w', v', hR', .inl ⟨failure, hx, hy⟩⟩
  | ok a => exact ⟨w', v', hR', .inr ⟨a, a, rfl, hx, hy⟩⟩

theorem pure {a : α} {b : β} (h : P a b) : Pairs R P (pure a) (pure b) :=
  fun w v hR => ⟨w, v, hR, .inr ⟨a, b, h, rfl, rfl⟩⟩

theorem throw {failure : Failure} : Pairs R P (throw failure) (throw failure) :=
  fun w v hR => ⟨w, v, hR, .inl ⟨failure, rfl, rfl⟩⟩

theorem throw_bind {failure : Failure} {f : γ → Run σ τ α} {g : δ → Run σ τ β} :
    Pairs R P (MonadExcept.throw failure >>= f) (MonadExcept.throw failure >>= g) :=
  fun w v hR => ⟨w, v, hR, .inl ⟨failure, rfl, rfl⟩⟩

theorem bind {x : Run σ τ α} {y : Run σ τ β} {f : α → Run σ τ γ} {g : β → Run σ τ δ}
    (hxy : Pairs R P x y) (hfg : ∀ a b, P a b → Pairs R Q (f a) (g b)) :
    Pairs R Q (x >>= f) (y >>= g) := by
  intro w v hR
  obtain ⟨w₁, v₁, hR₁, ⟨failure, hx, hy⟩ | ⟨a, b, hP, hx, hy⟩⟩ := hxy hR
  · exact ⟨w₁, v₁, hR₁, .inl ⟨failure, hx.failed, hy.failed⟩⟩
  · obtain ⟨w', v', hR', ⟨failure, hf, hg⟩ | ⟨c, e, hQ, hf, hg⟩⟩ := hfg a b hP hR₁
    · exact ⟨w', v', hR', .inl ⟨failure, hx.ends.mpr hf, hy.ends.mpr hg⟩⟩
    · exact ⟨w', v', hR', .inr ⟨c, e, hQ, returns_bind.mpr ⟨a, w₁, hx, hf⟩,
        returns_bind.mpr ⟨b, v₁, hy, hg⟩⟩⟩

theorem andThen {x y : Run σ τ α} {f : α → Run σ τ γ} {g : α → Run σ τ δ} (hxy : Pairs R Eq x y)
    (hfg : ∀ a, Pairs R Q (f a) (g a)) : Pairs R Q (x >>= f) (y >>= g) := by
  refine hxy.bind fun a b h => ?_
  subst h
  exact hfg a

end Pairs

variable [Seconds τ]

class Lockstep (R : World σ τ → World σ τ → Prop) : Prop where
  now {w v : World σ τ} : R w v → v.now = w.now
  startedAt {w v : World σ τ} : R w v → v.startedAt = w.startedAt
  logged {w v : World σ τ} (entry : LogEntry) : R w v →
    R { w with events := .log entry :: w.events } { v with events := .log entry :: v.events }
  slept {w v : World σ τ} (seconds : τ) : R w v →
    R { w with now := Seconds.add w.now seconds, events := .sleep seconds :: w.events }
      { v with now := Seconds.add v.now seconds, events := .sleep seconds :: v.events }

namespace Mirrors

variable {R : World σ τ → World σ τ → Prop} [Lockstep R]

theorem now : Mirrors R (now : Run σ τ τ) :=
  fun w v h => ⟨w, v, h, .inr ⟨w.now, v.now, (Lockstep.now h).symm, rfl, rfl⟩⟩

theorem logged (entry : LogEntry) : Mirrors R (record (.log entry) : Run σ τ Unit) :=
  fun _ _ h => ⟨_, _, Lockstep.logged entry h, .inr ⟨(), (), rfl, rfl, rfl⟩⟩

theorem loggedAll (entries : List LogEntry) :
    Mirrors R (entries.forM fun entry => record (.log entry) : Run σ τ Unit) := by
  induction entries with
  | nil => exact .pure rfl
  | cons entry entries ih => exact (logged entry).andThen fun _ => ih

theorem loggedSome (noted : Option LogEntry) :
    Mirrors R (noted.forM fun entry => record (.log entry) : Run σ τ Unit) := by
  cases noted with
  | none => exact .pure rfl
  | some entry => exact logged entry

theorem sleep (seconds : τ) : Mirrors R (sleep seconds : Run σ τ Unit) :=
  fun _ _ h => ⟨_, _, Lockstep.slept seconds h, .inr ⟨(), (), rfl, rfl, rfl⟩⟩

end Mirrors

end Run

namespace Dispatcher

open Run

variable [Seconds τ] {d : Dispatcher σ τ} {options : FetchOptions} {target target' : Target}
  {R : World σ τ → World σ τ → Prop} [Lockstep R]

theorem mirrors_settle (state : RetryState τ) (entries : List Json) (failed : Nat)
    (pairs : List (Text × Reply)) : Mirrors R (settle state entries failed pairs : Run σ τ _) := by
  induction pairs generalizing state entries failed with
  | nil => exact .pure rfl
  | cons pair pairs ih =>
      obtain ⟨query, reply⟩ := pair
      cases hjudge : reply.judge query with
      | error failure =>
          rw [settle]
          simp only [hjudge]
          exact .throw_bind
      | ok verdict =>
          rw [settle_cons hjudge]
          exact (Mirrors.loggedSome _).andThen fun _ => ih _ _ _

theorem mirrors_checkRuntime (state : RetryState τ) : Mirrors R (d.checkRuntime options state) := by
  refine .of_ends fun w v h => ?_
  have hw := run_checkRuntime d options state w
  have hv := run_checkRuntime d options state v
  rw [Lockstep.now h, Lockstep.startedAt h] at hv
  split at hw
  · rename_i hexceeds
    rw [if_pos hexceeds] at hv
    exact ⟨_, w, v, hw, hv, h⟩
  · rename_i hexceeds
    rw [if_neg hexceeds] at hv
    exact ⟨_, w, v, hw, hv, h⟩

theorem pairs_prepare (htoken : target'.token.NoSurrogate ↔ target.token.NoSurrogate)
    (state : RetryState τ) :
    Pairs R Eq (d.prepare options target state) (d.prepare options target' state) := by
  refine (mirrors_checkRuntime state).andThen fun _ => ?_
  unfold Target.checkToken
  simp only [Text.utf8?_isSome, htoken]
  split
  · exact .pure rfl
  · exact .throw

theorem mirrors_announce (requests : List Request) : Mirrors R (d.announce requests) := by
  refine Pairs.andThen ?_ fun _ => Mirrors.logged _
  unfold checkQueries
  split
  · exact .throw
  · exact .pure rfl

theorem mirrors_conclude (state : RetryState τ) (entries : List Json) (failed : Nat) :
    Mirrors R (d.conclude state entries failed) := by
  unfold conclude
  refine Mirrors.now.andThen fun now => ?_
  split
  · exact .pure rfl
  · exact (Mirrors.logged _).andThen fun _ => (Mirrors.sleep _).andThen fun _ => .pure rfl

theorem mirrors_complete (state : RetryState τ) (entries : List Json) :
    Mirrors R (d.complete state entries) := by
  unfold complete
  split
  · exact .pure rfl
  · exact (Mirrors.logged _).andThen fun _ => .pure rfl

theorem pairs_exchange {batch batch' : List FetchRequest} (hlength : batch'.length = batch.length)
    (hfetch : Pairs R Eq (Run.fetch d.fetcher batch) (Run.fetch d.fetcher batch')) :
    Pairs R Eq (d.exchange batch) (d.exchange batch') := by
  unfold exchange
  rw [hlength]
  refine hfetch.andThen fun outcome => ?_
  cases outcome with
  | ok replies => exact .pure rfl
  | error fault =>
      dsimp only
      repeat' first
        | exact .pure rfl
        | exact .throw
        | exact Mirrors.logged _
        | refine Pairs.andThen ?_ fun _ => ?_
        | split

/-- Rounds differ in nothing but the batches that they send. -/
theorem pairs_round {state : RetryState τ}
    (htoken : target'.token.NoSurrogate ↔ target.token.NoSurrogate) (hfetch : Pairs R Eq
      (Run.fetch d.fetcher (target.batch state)) (Run.fetch d.fetcher (target'.batch state)))
    (entries : List Json) : Pairs R Eq (d.round options target state entries)
      (d.round options target' state entries) := by
  have hlength : (target'.batch state).length = (target.batch state).length := by
    rw [Target.batch, Target.batch, List.length_map, List.length_map]
  rw [round_eq, round_eq]
  refine (pairs_prepare htoken state).andThen fun _ => ?_
  refine (pairs_exchange hlength hfetch).andThen fun (replies, lost) => ?_
  exact (mirrors_settle state entries lost _).andThen fun (state, entries, failed) =>
    mirrors_conclude state entries failed

theorem pairs_rounds (htoken : target'.token.NoSurrogate ↔ target.token.NoSurrogate) (hfetch : ∀ state : RetryState τ, Pairs R Eq
      (Run.fetch d.fetcher (target.batch state)) (Run.fetch d.fetcher (target'.batch state)))
    (fuel : Nat) (state : RetryState τ) (entries : List Json) :
    Pairs R Eq (d.rounds options target fuel state entries)
      (d.rounds options target' fuel state entries) := by
  induction fuel generalizing state entries with
  | zero => exact .throw
  | succ fuel ih =>
      rw [rounds_succ, rounds_succ]
      refine Mirrors.now.andThen fun now => ?_
      split
      · exact .pure rfl
      · exact (pairs_round htoken (hfetch state) entries).andThen fun _ => ih _ _

theorem pairs_gathered (htoken : target'.token.NoSurrogate ↔ target.token.NoSurrogate) (hfetch : ∀ state : RetryState τ, Pairs R Eq
      (Run.fetch d.fetcher (target.batch state)) (Run.fetch d.fetcher (target'.batch state)))
    (requests : List Request) : Pairs R Eq
      (do
        d.announce requests
        let start ← Run.now
        let (state, entries) ← d.allRounds requests options target start
        d.complete state entries)
      (do
        d.announce requests
        let start ← Run.now
        let (state, entries) ← d.allRounds requests options target' start
        d.complete state entries) :=
  (mirrors_announce requests).andThen fun _ => Mirrors.now.andThen fun _ =>
    (pairs_rounds htoken hfetch _ _ _).andThen fun x => mirrors_complete x.1 x.2

theorem mirrors_writeEntries
    (hwrite : ∀ s, d.store = some s → ∀ key value ttl, Mirrors R (writeStore s key value ttl))
    (key : Text) (entries : List Json) (ttl : Int) : Mirrors R (d.writeEntries key entries ttl) := by
  unfold writeEntries
  split
  · exact .pure rfl
  · rename_i s hstore
    refine (hwrite s hstore _ _ _).andThen fun fault? => ?_
    cases fault? with
    | none => exact .pure rfl
    | some fault =>
        dsimp only
        split
        · exact Mirrors.logged _
        · exact .throw

theorem mirrors_finish
    (hwrite : ∀ s, d.store = some s → ∀ key value ttl, Mirrors R (writeStore s key value ttl))
    (requests : List Request) (entries : List Json) :
    Mirrors R (d.finish requests options entries) := by
  rw [finish_eq]
  split
  · exact .throw
  · refine Pairs.andThen ?_ fun _ => .pure rfl
    unfold keep
    split
    · exact mirrors_writeEntries hwrite _ _ _
    · exact .pure rfl

end Dispatcher
end MetricBridge
