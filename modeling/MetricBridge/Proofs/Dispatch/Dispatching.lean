import MetricBridge.Proofs.Dispatch.Rounds

namespace MetricBridge

open Run

namespace Dispatcher

variable {σ τ : Type} {d : Dispatcher σ τ} {requests : List Request} {options : FetchOptions}
  {state : RetryState τ} {entries entries' : List Json} {w w' : World σ τ}

def queries (d : Dispatcher σ τ) (requests : List Request) : List Text :=
  requests.map (Request.query d.settings.sourceName)

def announce (d : Dispatcher σ τ) (requests : List Request) : Run σ τ Unit := do
  d.checkQueries requests
  log .debug (lit "making requests to matomo: " ++
    (Json.array ((d.queries requests).map Json.string)).inspect)

def HasQueries (d : Dispatcher σ τ) (requests : List Request) : Prop :=
  ∀ r ∈ requests, r.queryFault? d.settings.sourceName = none

instance (d : Dispatcher σ τ) (requests : List Request) : Decidable (d.HasQueries requests) :=
  inferInstanceAs (Decidable (∀ r ∈ requests, r.queryFault? d.settings.sourceName = none))

theorem returns_checkQueries :
    Returns (d.checkQueries requests) w () w' ↔ d.HasQueries requests ∧ w' = w := by
  have hnone : requests.findSome? (Request.queryFault? d.settings.sourceName) = none ↔
      d.HasQueries requests := List.findSome?_eq_none_iff
  unfold checkQueries
  split
  · rename_i fault hfault
    rw [hfault] at hnone
    exact iff_of_false not_returns_throw fun h => nomatch hnone.mpr h.1
  · rename_i hfault
    rw [returns_pure]
    exact ⟨fun h => ⟨hnone.mp hfault, h.2.symm⟩, fun h => ⟨rfl, h.2.symm⟩⟩

theorem exists_announce (h : d.HasQueries requests) (w : World σ τ) :
    ∃ w', Returns (d.announce requests) w () w' :=
  ⟨_, returns_bind.mpr ⟨(), w, returns_checkQueries.mpr ⟨h, rfl⟩, rfl⟩⟩

theorem hasQueries_of_announce (h : Returns (d.announce requests) w () w') :
    d.HasQueries requests := by
  obtain ⟨_, w₁, hqueries, -⟩ := returns_bind.mp h
  exact (returns_checkQueries.mp hqueries).1

theorem within_announce {R : World σ τ → World σ τ → Prop} [OverlookingLogs R]
    (d : Dispatcher σ τ) (requests : List Request) : Within R (d.announce requests) :=
  (within_checkQueries d requests).bind fun _ => .logged _

theorem idle_announce (d : Dispatcher σ τ) (requests : List Request) :
    Idle (d.announce requests) :=
  within_announce d requests

variable [Seconds τ]

theorem exists_complete (d : Dispatcher σ τ) (state : RetryState τ) (entries : List Json)
    (w : World σ τ) : ∃ w', Returns (d.complete state entries) w (d.completeEntries state entries) w' := by
  unfold complete
  split
  · rename_i hdone
    have hpending : state.pending = [] := List.isEmpty_iff.mp hdone
    unfold completeEntries
    rw [hpending]
    exact ⟨w, rfl⟩
  · exact ⟨_, rfl⟩

theorem returns_complete (h : Returns (d.complete state entries) w entries' w') :
    entries' = d.completeEntries state entries := by
  obtain ⟨w₁, hcomplete⟩ := exists_complete d state entries w
  exact (h.unique hcomplete).1

def finish (d : Dispatcher σ τ) (requests : List Request) (options : FetchOptions)
    (entries : List Json) : Run σ τ (List Json) := do
  if options.strict then
    match strictFailure? requests entries with
    | some failure => throw failure
    | none => pure ()
  match options.storeKey? with
  | some key => d.writeEntries key entries options.cacheTtl
  | none => pure ()
  return entries

def complaint? (requests : List Request) (options : FetchOptions) (entries : List Json) :
    Option Failure :=
  if options.strict then strictFailure? requests entries else none

def keep (d : Dispatcher σ τ) (options : FetchOptions) (entries : List Json) : Run σ τ Unit :=
  match options.storeKey? with
  | some key => d.writeEntries key entries options.cacheTtl
  | none => pure ()

theorem finish_eq (d : Dispatcher σ τ) (requests : List Request) (options : FetchOptions)
    (entries : List Json) : d.finish requests options entries =
      match complaint? requests options entries with
      | some failure => throw failure
      | none => do
        d.keep options entries
        return entries := by
  unfold finish complaint? keep
  cases options.strict with
  | false => cases options.storeKey? <;> rfl
  | true => cases strictFailure? requests entries with
      | some failure => rfl
      | none => cases options.storeKey? <;> rfl

def allRounds (d : Dispatcher σ τ) (requests : List Request) (options : FetchOptions)
    (target : Target) (start : τ) : Run σ τ (RetryState τ × List Json) :=
  d.rounds options target d.maxRounds
    (RetryState.initial (d.queries requests) d.settings.initialWait start)
    (List.replicate requests.length Json.null)

theorem dispatch_eq (d : Dispatcher σ τ) (requests : List Request) (options : FetchOptions) :
    d.dispatch requests options = (do
      let target ← d.target options
      d.announce requests
      let start ← Run.now
      let (state, entries) ← d.allRounds requests options target start
      let entries ← d.complete state entries
      d.finish requests options entries) := by
  unfold announce
  simp only [bind_assoc]
  rfl

def gather (d : Dispatcher σ τ) (requests : List Request) (options : FetchOptions) :
    Run σ τ (List Json) := do
  let target ← d.target options
  d.announce requests
  let start ← Run.now
  let (state, entries) ← d.allRounds requests options target start
  d.complete state entries

theorem dispatch_eq_gather (d : Dispatcher σ τ) (requests : List Request) (options : FetchOptions) :
    d.dispatch requests options = (do
      let entries ← d.gather requests options
      d.finish requests options entries) := by
  rw [dispatch_eq]
  simp only [gather, bind_assoc]

theorem idle_keep (d : Dispatcher σ τ) (options : FetchOptions) (entries : List Json) :
    Idle (d.keep options entries) := by
  unfold keep
  split
  · exact idle_writeEntries _ _ _ _
  · exact .pure

theorem idle_finish (d : Dispatcher σ τ) (requests : List Request) (options : FetchOptions)
    (entries : List Json) : Idle (d.finish requests options entries) := by
  rw [finish_eq]
  split
  · exact .throw
  · exact (idle_keep d options entries).bind fun _ => .pure

theorem returns_finish : Returns (d.finish requests options entries) w entries' w' ↔
    complaint? requests options entries = none ∧ entries' = entries ∧
      Returns (d.keep options entries) w () w' := by
  rw [finish_eq]
  cases complaint? requests options entries with
  | some failure =>
      refine iff_of_false not_returns_throw ?_
      rintro ⟨hnone, -⟩
      cases hnone
  | none =>
      constructor
      · intro h
        obtain ⟨⟨⟩, w₁, hkeep, h⟩ := returns_bind.mp h
        obtain ⟨rfl, rfl⟩ := returns_pure.mp h
        exact ⟨rfl, rfl, hkeep⟩
      · rintro ⟨-, rfl, hkeep⟩
        exact returns_bind.mpr ⟨(), w', hkeep, rfl⟩

theorem ends_finish_of_complaint {failure : Failure}
    (h : complaint? requests options entries = some failure) (w : World σ τ) :
    Ends (d.finish requests options entries) w (.error failure) w := by
  rw [finish_eq, h]
  rfl

theorem complaint?_of_lenient (hstrict : options.strict = false) :
    complaint? requests options entries = none := by
  rw [complaint?, hstrict]
  rfl

theorem complaint?_of_strict (hstrict : options.strict = true) :
    complaint? requests options entries = strictFailure? requests entries := by
  rw [complaint?, hstrict]
  rfl

theorem exists_finish (d : Dispatcher σ τ) (requests : List Request) (entries : List Json)
    (w : World σ τ) (hstrict : options.strict = false) (hstore : options.storeKey? = none) :
    Returns (d.finish requests options entries) w entries w := by
  refine returns_finish.mpr ⟨complaint?_of_lenient hstrict, rfl, ?_⟩
  rw [keep, hstore]
  rfl

theorem returns_gather (h : Returns (d.gather requests options) w entries w') :
    ∃ target v w₁ state entries₁ w₂, Returns (d.target options) w target v ∧ Still w w₁ ∧
      Returns (d.allRounds requests options target w.now) w₁ (state, entries₁) w₂ ∧
      entries = d.completeEntries state entries₁ ∧ Still w₂ w' := by
  obtain ⟨target, v, htarget, h⟩ := returns_bind.mp h
  obtain ⟨_, w₁, hannounce, h⟩ := returns_bind.mp h
  obtain ⟨start, w₁', hnow, h⟩ := returns_bind.mp h
  obtain ⟨⟨state, entries₁⟩, w₂, hrounds, hcomplete⟩ := returns_bind.mp h
  obtain ⟨rfl, rfl⟩ := returns_now hnow
  have hstart : Still w w₁ := (idle_target d options htarget).trans (idle_announce d _ hannounce)
  rw [hstart.now] at hrounds
  exact ⟨target, v, w₁, state, entries₁, w₂, htarget, hstart, hrounds, returns_complete hcomplete,
    idle_complete d _ _ hcomplete⟩

theorem returns_dispatch (h : Returns (d.dispatch requests options) w entries w') :
    ∃ target v w₁ state entries₁ w₂, Returns (d.target options) w target v ∧ Still w w₁ ∧
      Returns (d.allRounds requests options target w.now) w₁ (state, entries₁) w₂ ∧
      entries = d.completeEntries state entries₁ ∧ Still w₂ w' := by
  rw [dispatch_eq_gather] at h
  obtain ⟨entries₂, w₃, hgather, hfinish⟩ := returns_bind.mp h
  obtain ⟨target, v, w₁, state, entries₁, w₂, htarget, hstart, hrounds, hcompleted, hend⟩ :=
    returns_gather hgather
  exact ⟨target, v, w₁, state, entries₁, w₂, htarget, hstart, hrounds,
    (returns_finish.mp hfinish).2.1.trans hcompleted, hend.trans (idle_finish d _ _ _ hfinish)⟩

theorem hasQueries_of_dispatch (h : Returns (d.dispatch requests options) w entries w') :
    d.HasQueries requests := by
  rw [dispatch_eq] at h
  obtain ⟨_, v, -, h⟩ := returns_bind.mp h
  obtain ⟨_, w₁, hannounce, -⟩ := returns_bind.mp h
  exact hasQueries_of_announce hannounce

theorem exists_dispatch {target : Target} {v : World σ τ} (hstrict : options.strict = false)
    (hstore : options.storeKey? = none) (hqueries : d.HasQueries requests)
    (htarget : Returns (d.target options) w target v)
    (hrounds : ∀ w₁, Still w w₁ →
      ∃ x w₂, Returns (d.allRounds requests options target w.now) w₁ x w₂) :
    ∃ entries w', Returns (d.dispatch requests options) w entries w' := by
  have hquiet : Still w v := idle_target d options htarget
  obtain ⟨w₁, hannounce⟩ := exists_announce hqueries v
  have hstart : Still w w₁ := hquiet.trans (idle_announce d _ hannounce)
  obtain ⟨⟨state, entries₁⟩, w₂, hrounds⟩ := hrounds w₁ hstart
  obtain ⟨w', hcomplete⟩ := exists_complete d state entries₁ w₂
  have hfinish := exists_finish d requests (d.completeEntries state entries₁) w' hstrict hstore
  rw [← hstart.now] at hrounds
  rw [dispatch_eq]
  exact ⟨_, w', returns_bind.mpr ⟨target, v, htarget, returns_bind.mpr ⟨(), w₁, hannounce,
    returns_bind.mpr ⟨w₁.now, w₁, rfl, returns_bind.mpr ⟨_, w₂, hrounds,
      returns_bind.mpr ⟨_, w', hcomplete, hfinish⟩⟩⟩⟩⟩⟩

/-- However a dispatch ends, nothing takes time before its rounds and after them. -/
theorem ends_dispatch {result : Except Failure (List Json)}
    (h : Ends (d.dispatch requests options) w result w') :
    Still w w' ∨ ∃ target ending w₁ w₂, Still w w₁ ∧
      Ends (d.allRounds requests options target w.now) w₁ ending w₂ ∧ Still w₂ w' := by
  rw [dispatch_eq] at h
  obtain ⟨_, -, htarget⟩ | ⟨target, v, htarget, h⟩ := ends_bind h
  · exact .inl (idle_target d options htarget)
  obtain ⟨_, -, hannounce⟩ | ⟨_, w₁, hannounce, h⟩ := ends_bind h
  · exact .inl ((idle_target d options htarget).trans (idle_announce d _ hannounce))
  have hstart : Still w w₁ := (idle_target d options htarget).trans (idle_announce d _ hannounce)
  obtain ⟨_, -, hnow⟩ | ⟨start, w₁', hnow, h⟩ := ends_bind h
  · exact .inl (hstart.trans (Idle.now hnow))
  obtain ⟨rfl, rfl⟩ := returns_now hnow
  right
  obtain ⟨failure, -, hrounds⟩ | ⟨⟨state, entries₁⟩, w₂, hrounds, h⟩ := ends_bind h
  · rw [hstart.now] at hrounds
    exact ⟨target, _, w₁, w', hstart, hrounds, .refl w'⟩
  · rw [hstart.now] at hrounds
    have hend : Idle (do
        let entries ← d.complete state entries₁
        d.finish requests options entries) :=
      (idle_complete d _ _).bind fun _ => idle_finish d _ _ _
    exact ⟨target, _, w₁, w₂, hstart, hrounds, hend h⟩

end Dispatcher
end MetricBridge
