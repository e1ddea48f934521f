import MetricBridge.Proofs.Dispatch.Pairing

namespace MetricBridge

variable {σ τ : Type}

namespace Event

def isLog : Event τ → Bool
  | .log _ => true
  | _ => false

end Event

def deeds (events : List (Event τ)) : List (Event τ) :=
  events.reverse.filter fun event => !event.isLog

theorem deeds_append (new old : List (Event τ)) : deeds (new ++ old) = deeds old ++ deeds new := by
  simp [deeds]

theorem deeds_logs (entries : List LogEntry) :
    deeds (entries.map (Event.log : LogEntry → Event τ)).reverse = [] := by
  simp [deeds, Event.isLog]

/-- The relation holds between states of the store that answer alike when a text is put into them,
and is kept by that. -/
def Store.Takes (s : Store σ τ) (S : σ → σ → Prop) : Prop :=
  ∀ ⦃y y'⦄, S y y' → ∀ now key value ttl,
    (s.put now key value ttl y).result = (s.put now key value ttl y').result ∧
      S (s.put now key value ttl y).state (s.put now key value ttl y').state

theorem Store.takes_eq (s : Store σ τ) : s.Takes Eq := by
  rintro y _ rfl now key value ttl
  exact ⟨rfl, rfl⟩

theorem Store.Takes.withClock {s : Store σ τ} {S : σ → σ → Prop} (h : s.Takes S) (clock : τ → τ) :
    (s.withClock clock).Takes S :=
  fun _ _ hS now => h hS (clock now)

structure Shadows (S : σ → σ → Prop) (past past' : List (Event τ)) (w v : World σ τ) : Prop where
  now : v.now = w.now
  startedAt : v.startedAt = w.startedAt
  fetches : v.fetches = w.fetches
  store : S w.store v.store
  events : ∃ new new', w.events = new ++ past ∧ v.events = new' ++ past' ∧ deeds new' = deeds new

variable {S : σ → σ → Prop} {past past' : List (Event τ)} {w v : World σ τ}

namespace Shadows

theorem recorded (h : Shadows S past past' w v) (more more' : List (Event τ))
    (heq : deeds more' = deeds more) : Shadows S past past'
      { w with events := more ++ w.events } { v with events := more' ++ v.events } := by
  obtain ⟨new, new', he, he', hdeeds⟩ := h.events
  refine ⟨h.now, h.startedAt, h.fetches, h.store, more ++ new, more' ++ new', ?_, ?_, ?_⟩
  · rw [he, List.append_assoc]
  · rw [he', List.append_assoc]
  · rw [deeds_append, deeds_append, hdeeds, heq]

end Shadows

namespace Run

variable [Seconds τ]

instance : Lockstep (Shadows S past past') where
  now h := h.now
  startedAt h := h.startedAt
  logged entry h := h.recorded [.log entry] [.log entry] rfl
  slept seconds h :=
    { h.recorded [.sleep seconds] [.sleep seconds] rfl with
      now := congrArg (Seconds.add · seconds) h.now }

theorem mirrors_fetch (fetcher : Fetcher τ) (batch : List FetchRequest) :
    Mirrors (Shadows S past past') (fetch fetcher batch : Run σ τ _) := by
  refine .of_ends fun w v h => ?_
  have hw := returns_fetch fetcher batch w
  have hv := returns_fetch fetcher batch v
  have hrecorded := h.recorded [.fetch batch] [.fetch batch] rfl
  rw [h.fetches, h.now] at hv
  exact ⟨_, _, _, hw, hv, rfl, h.startedAt, rfl, h.store, hrecorded.events⟩

theorem mirrors_writeStore {s : Store σ τ} (htakes : s.Takes S) (key value : Text) (ttl : Int) :
    Mirrors (Shadows S past past') (writeStore s key value ttl) := by
  refine .of_ends fun w v h => ?_
  obtain ⟨hresult, hstate⟩ := htakes h.store w.now key value ttl
  have hw : Returns (Run.writeStore s key value ttl) w _ _ := returns_writeStore rfl
  have hanswer : s.put v.now key value ttl v.store = s.put w.now key value ttl v.store := by
    rw [h.now]
  have hv : Returns (Run.writeStore s key value ttl) v _ _ := returns_writeStore hanswer
  rw [← hresult] at hv
  have hrecorded := h.recorded
    (((s.put w.now key value ttl w.store).log.map Event.log).reverse ++ [.put key value ttl])
    (((s.put w.now key value ttl v.store).log.map Event.log).reverse ++ [.put key value ttl])
    (by rw [deeds_append, deeds_append, deeds_logs, deeds_logs])
  refine ⟨_, _, _, hw, hv, h.now, h.startedAt, h.fetches, hstate, ?_⟩
  simpa using hrecorded.events

end Run

namespace Dispatcher

open Run

variable [Seconds τ] {d : Dispatcher σ τ} {options : FetchOptions}

theorem mirrors_target : Mirrors (Shadows S past past') (d.target options) := by
  unfold target
  dsimp only
  -- the last step is the same whether the credentials were looked for or not
  repeat' first
    | exact .pure rfl
    | exact .throw
    | exact Mirrors.loggedAll _
    | refine Pairs.andThen ?_ fun _ => ?_
    | split

theorem mirrors_gather (requests : List Request) :
    Mirrors (Shadows S past past') (d.gather requests options) :=
  mirrors_target.andThen fun _ => pairs_gathered Iff.rfl (fun _ => mirrors_fetch _ _) requests

theorem mirrors_dispatch (htakes : ∀ s, d.store = some s → s.Takes S) (requests : List Request) :
    Mirrors (Shadows S past past') (d.dispatch requests options) := by
  rw [dispatch_eq_gather]
  refine (mirrors_gather requests).andThen fun entries => mirrors_finish ?_ requests entries
  exact fun s hstore => mirrors_writeStore (htakes s hstore)

end Dispatcher
end MetricBridge
