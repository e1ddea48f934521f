import MetricBridge.Proofs.Dispatch.Together
import MetricBridge.Proofs.Dispatch.Meets

namespace MetricBridge

open Run

variable {σ τ α β : Type}

namespace Run

def Blind (x : Run σ τ α) : Prop := ∀ ⦃w a w'⦄, Returns x w a w' → ∀ v, ∃ v', Returns x v a v'

namespace Blind

theorem pure {a : α} : Blind (pure a : Run σ τ α) := by
  intro w b w' h v
  obtain ⟨rfl, -⟩ := returns_pure.mp h
  exact ⟨v, rfl⟩

theorem throw {failure : Failure} : Blind (throw failure : Run σ τ α) :=
  fun _ _ _ h => absurd h not_returns_throw

theorem bind {x : Run σ τ α} {f : α → Run σ τ β} (hx : Blind x) (hf : ∀ a, Blind (f a)) :
    Blind (x >>= f) := by
  intro w b w'' h v
  obtain ⟨a, w', h, h'⟩ := returns_bind.mp h
  obtain ⟨v', hv⟩ := hx h v
  obtain ⟨v'', hv'⟩ := hf a h' v'
  exact ⟨v'', returns_bind.mpr ⟨a, v', hv, hv'⟩⟩

theorem loggedAll (entries : List LogEntry) :
    Blind (entries.forM fun entry => Run.record (.log entry) : Run σ τ Unit) := by
  induction entries with
  | nil => exact pure
  | cons entry entries ih => exact bind (fun _ _ _ _ v => ⟨_, rfl⟩) fun _ => ih

end Blind

end Run

namespace Dispatcher

theorem blind_target (d : Dispatcher σ τ) (options : FetchOptions) : Blind (d.target options) := by
  unfold target
  dsimp only
  repeat' first
    | exact .pure
    | exact .throw
    | exact .loggedAll _
    | refine .bind ?_ fun _ => ?_
    | split

open Stage

variable [Seconds τ] {d : Dispatcher σ τ} {requests others : List Request} {request : Request}
  {options : FetchOptions} {plan : Nat → RoundPlan τ} {w w' v v' : World σ τ} {entries : List Json}

theorem returns_dispatch_runs (h : Returns (d.dispatch requests options) w entries w') :
    ∃ target w₀ w₁ stage, Returns (d.target options) w target w₀ ∧ Still w w₁ ∧
      (first d requests w.now w₁).Runs d options target d.maxRounds stage ∧
      entries = requests.map fun request => referenceEntry d.settings.retryLimit
        (repliesTo (request.query d.settings.sourceName) stage.replies) := by
  obtain ⟨target, w₀, w₁, state, entries₁, w₂, htarget, hstill, hrounds, rfl, -⟩ :=
    returns_dispatch h
  obtain ⟨replies, hruns⟩ := exists_runs (a := first d requests w.now w₁) hrounds
  have htracks := hruns.tracks (tracks_first d requests w.now w₁)
  refine ⟨target, w₀, w₁, _, htarget, hstill, hruns, ?_⟩
  rw [completeEntries_eq htracks, queries, List.map_map]
  rfl

theorem exists_dispatch_of_runs {target : Target} {w₀ : World σ τ} (hstrict : options.strict = false)
    (hstore : options.storeKey? = none) (hqueries : d.HasQueries requests)
    (htarget : Returns (d.target options) w target w₀)
    (hruns : ∀ w₁, Still w w₁ →
      ∃ stage, (first d requests w.now w₁).Runs d options target d.maxRounds stage) :
    ∃ entries w', Returns (d.dispatch requests options) w entries w' := by
  refine exists_dispatch hstrict hstore hqueries htarget fun w₁ hstill => ?_
  obtain ⟨stage, hruns⟩ := hruns w₁ hstill
  exact ⟨_, _, hruns.returns⟩

/-- The entry of a request is the one that it gets alone. -/
theorem dispatch_single (hstrict : options.strict = false) (hstore : options.storeKey? = none)
    (hruntime : options.checkRuntime = false) (hw : Follows d.fetcher w.fetches plan)
    (hv : Follows d.fetcher v.fetches plan) (hnow : v.now = w.now)
    (h : Returns (d.dispatch requests options) w entries w') {i : Nat}
    (hi : requests[i]? = some request) : ∃ entry v', entries[i]? = some entry ∧
      Returns (d.dispatch [request] options) v [entry] v' := by
  obtain ⟨target, w₀, w₁, stage, htarget, hstill, hruns, rfl⟩ := returns_dispatch_runs h
  obtain ⟨v₀, htarget'⟩ := blind_target d options htarget v
  have hquery : request.query d.settings.sourceName ∈ d.queries requests :=
    List.mem_map_of_mem (List.mem_of_getElem? hi)
  have hsingle : ∀ v₁, Still v v₁ → ∃ stage',
      (first d [request] v.now v₁).Runs d options target d.maxRounds stage' ∧
      Together (d.queries requests) (request.query d.settings.sourceName) stage stage' := by
    intro v₁ hstill'
    rw [hnow]
    exact hruns.single hruntime
      (together_first (by rw [hstill'.now, hstill.now, hnow])) hquery (hstill.follows hw)
      (hstill'.follows hv)
  have hone : d.HasQueries [request] :=
    List.forall_mem_singleton.mpr (hasQueries_of_dispatch h request (List.mem_of_getElem? hi))
  obtain ⟨entries', v', hreturns⟩ := exists_dispatch_of_runs hstrict hstore hone htarget'
    fun v₁ hstill' => (hsingle v₁ hstill').imp fun _ h => h.1
  obtain ⟨target', _, v₁, stage', htarget'', hstill', hruns', rfl⟩ :=
    returns_dispatch_runs hreturns
  obtain rfl := (htarget'.unique htarget'').1
  obtain ⟨stage'', hruns'', htogether⟩ := hsingle v₁ hstill'
  obtain rfl := hruns'.unique hruns''
  rw [List.map_singleton, htogether.replies] at hreturns
  refine ⟨_, v', ?_, hreturns⟩
  rw [List.getElem?_map, hi]
  rfl

theorem exists_dispatch_of_singles (hstrict : options.strict = false)
    (hstore : options.storeKey? = none) (hruntime : options.checkRuntime = false)
    (hw : Follows d.fetcher w.fetches plan) (hv : Follows d.fetcher v.fetches plan)
    (hnow : v.now = w.now) (hrequests : requests ≠ [])
    (h : ∀ request ∈ requests, ∃ entries v', Returns (d.dispatch [request] options) v entries v') :
    ∃ entries w', Returns (d.dispatch requests options) w entries w' := by
  obtain ⟨one, hone⟩ := List.exists_mem_of_ne_nil _ hrequests
  obtain ⟨entries, v', hreturns⟩ := h one hone
  obtain ⟨target, v₀, v₁, stage, htarget, -, hruns, -⟩ := returns_dispatch_runs hreturns
  obtain ⟨w₀, htarget'⟩ := blind_target d options htarget w
  have hqueries : d.HasQueries requests := fun request hrequest => by
    obtain ⟨entries, v', hreturns⟩ := h request hrequest
    exact hasQueries_of_dispatch hreturns request (List.mem_singleton.mpr rfl)
  refine exists_dispatch_of_runs hstrict hstore hqueries htarget' fun w₁ hstill => ?_
  refine exists_runs_of_singles hruntime hruns.fuel_pos (tracks_first d requests w.now w₁)
    (hstill.follows hw) fun query hquery _ => ?_
  obtain ⟨request, hrequest, rfl⟩ := List.mem_map.mp hquery
  obtain ⟨entries, v', hreturns⟩ := h request hrequest
  obtain ⟨target', _, v₁, stage, htarget'', hstill', hruns, -⟩ := returns_dispatch_runs hreturns
  obtain rfl := (htarget.unique htarget'').1
  rw [hnow] at hruns
  exact ⟨_, stage, together_first (by rw [hstill'.now, hstill.now, hnow]), hstill'.follows hv, hruns⟩

theorem fetchAll_eq_dispatch (d : Dispatcher σ τ) (requests : List Request)
    (hstore : options.storeKey? = none) :
    d.fetchAll requests options = d.dispatch requests options := by
  unfold fetchAll
  rw [hstore]

/-- If what becomes of a query in a round does not depend on the rest of the batch, then a request
gets the entry that it gets alone, from the same moment on. A call returns if it does so for each of
its requests alone, and a request gets the same entry in every call. -/
theorem fetchAll_batching (hstrict : options.strict = false) (hstore : options.storeKey? = none)
    (hruntime : options.checkRuntime = false) (hw : Follows d.fetcher w.fetches plan)
    (hv : Follows d.fetcher v.fetches plan) (hnow : v.now = w.now) :
    (∀ entries w', Returns (d.fetchAll requests options) w entries w' →
      entries.length = requests.length ∧ ∀ (i : Nat) request, requests[i]? = some request →
        ∃ entry v', entries[i]? = some entry ∧
          Returns (d.fetchAll [request] options) v [entry] v') ∧
    (requests ≠ [] →
      (∀ request ∈ requests, ∃ entries v', Returns (d.fetchAll [request] options) v entries v') →
        ∃ entries w', Returns (d.fetchAll requests options) w entries w') ∧
    ∀ others entries w' entries' v', Returns (d.fetchAll requests options) w entries w' →
      Returns (d.fetchAll others options) v entries' v' →
        ∀ (i j : Nat) request, requests[i]? = some request → others[j]? = some request →
          entries[i]? = entries'[j]? := by
  simp only [fetchAll_eq_dispatch d _ hstore]
  refine ⟨fun entries w' h => ⟨?_, fun i request hi => ?_⟩, fun hrequests h => ?_, ?_⟩
  · obtain ⟨-, -, -, stage, -, -, -, rfl⟩ := returns_dispatch_runs h
    exact List.length_map _
  · exact dispatch_single hstrict hstore hruntime hw hv hnow h hi
  · exact exists_dispatch_of_singles hstrict hstore hruntime hw hv hnow hrequests h
  · intro others entries w' entries' v' h h' i j request hi hj
    obtain ⟨entry, _, hentry, hsingle⟩ := dispatch_single hstrict hstore hruntime hw hv hnow h hi
    obtain ⟨entry', _, hentry', hsingle'⟩ := dispatch_single hstrict hstore hruntime hv hv rfl h' hj
    rw [hentry, hentry', List.singleton_injective (hsingle.unique hsingle').1]

def mixedPlan : Nat → RoundPlan Int
  | 0 => ⟨3, .ok fun query => if Text.occursIn (lit "idSite=2") query then ⟨200, some "[]"⟩
      else ⟨503, none⟩⟩
  | 1 => ⟨7, .error ⟨"Exception", "DNS error"⟩⟩
  | _ => ⟨5, .ok fun query => if Text.occursIn (lit "idSite=3") query then ⟨404, none⟩
      else ⟨200, some "\x7b\"value\": 1\x7d"⟩⟩

def mixedDispatcher : Dispatcher Unit Int where
  settings := ⟨60, 1, 8, 0, "agent", [], "source"⟩
  fetcher number batch := (mixedPlan number).answer batch
  store := none
  credentials := none
  maxRounds := 10

theorem fetchAll_batching_mixed :
    let requests : List Request :=
      ["1", "2", "1", "3"].map fun site => ⟨"VisitsSummary.get", [("idSite", .text site)]⟩
    let options : FetchOptions := { address := some "https://matomo.example.com" }
    let world : World Unit Int := ⟨100, 0, 0, (), []⟩
    Follows mixedDispatcher.fetcher 0 mixedPlan ∧ options.strict = false ∧
    options.storeKey? = none ∧ options.checkRuntime = false ∧
    ∃ entries w', Returns (mixedDispatcher.fetchAll requests options) world entries w' ∧
      entries.length = requests.length ∧ ∀ (i : Nat) request, requests[i]? = some request →
        ∃ entry v', entries[i]? = some entry ∧
          Returns (mixedDispatcher.fetchAll [request] options) world [entry] v' := by
  intro requests options world
  have hplan : Follows mixedDispatcher.fetcher 0 mixedPlan := fun round batch => by
    rw [Nat.zero_add]
    rfl
  have hok : (StateT.run (ExceptT.run (mixedDispatcher.fetchAll requests options))
      world).1.isOk = true := by decide +kernel
  obtain ⟨entries, w', h⟩ := exists_returns hok
  exact ⟨hplan, rfl, rfl, rfl, entries, w', h,
    (fetchAll_batching rfl rfl rfl hplan hplan rfl).1 entries w' h⟩

end Dispatcher
end MetricBridge
