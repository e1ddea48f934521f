import MetricBridge.Dispatch.Basic
import MetricBridge.Proofs.Dispatch.Returning

namespace MetricBridge

section Elapsing

variable {σ τ α β : Type}

namespace Event

def takesTime : Event τ → Bool
  | .fetch _ | .sleep _ => true
  | _ => false

def batch? : Event τ → Option (List FetchRequest)
  | .fetch batch => some batch
  | _ => none

end Event

def timeline (events : List (Event τ)) : List (Event τ) := events.reverse.filter Event.takesTime

theorem timeline_append (new old : List (Event τ)) :
    timeline (new ++ old) = timeline old ++ timeline new := by
  simp [timeline]

def batchesOf (trace : List (Event τ)) : List (List FetchRequest) := trace.filterMap Event.batch?

theorem batchesOf_append (trace more : List (Event τ)) :
    batchesOf (trace ++ more) = batchesOf trace ++ batchesOf more := List.filterMap_append

theorem batchesOf_snoc_fetch (trace : List (Event τ)) (batch : List FetchRequest) :
    batchesOf (trace ++ [.fetch batch]) = batchesOf trace ++ [batch] := batchesOf_append trace _

theorem batchesOf_snoc_sleep (trace : List (Event τ)) (seconds : τ) :
    batchesOf (trace ++ [.sleep seconds]) = batchesOf trace := by
  rw [batchesOf_append]
  exact List.append_nil _

variable [Seconds τ]

def clock (fetcher : Fetcher τ) : Nat → τ → List (Event τ) → τ
  | _, now, [] => now
  | number, now, .fetch batch :: trace =>
    clock fetcher (number + 1) (Seconds.add now (fetcher number batch).duration) trace
  | number, now, .sleep seconds :: trace => clock fetcher number (Seconds.add now seconds) trace
  | number, now, _ :: trace => clock fetcher number now trace

theorem clock_append (fetcher : Fetcher τ) (number : Nat) (now : τ) (trace more : List (Event τ)) :
    clock fetcher number now (trace ++ more) =
      clock fetcher (number + (batchesOf trace).length) (clock fetcher number now trace) more := by
  induction trace generalizing number now with
  | nil => rfl
  | cons event trace ih =>
      cases event with
      | fetch batch =>
          have hlength : (batchesOf (Event.fetch batch :: trace)).length =
              (batchesOf trace).length + 1 := rfl
          rw [List.cons_append, clock, clock, ih, hlength]
          congr 1
          omega
      | sleep | put | log => exact ih _ _

structure Elapses (fetcher : Fetcher τ) (w : World σ τ) (trace : List (Event τ))
    (w' : World σ τ) : Prop where
  events : ∃ new, w'.events = new ++ w.events ∧ timeline new = trace
  fetches : w'.fetches = w.fetches + (batchesOf trace).length
  now : w'.now = clock fetcher w.fetches w.now trace

omit [Seconds τ] in
structure Still (w w' : World σ τ) : Prop where
  events : ∃ new, w'.events = new ++ w.events ∧ timeline new = []
  fetches : w'.fetches = w.fetches
  now : w'.now = w.now

theorem Still.elapses {w w' : World σ τ} (h : Still w w') (fetcher : Fetcher τ) :
    Elapses fetcher w [] w' := ⟨h.events, h.fetches, h.now⟩

theorem Elapses.trans {fetcher : Fetcher τ} {w w' w'' : World σ τ} {trace more : List (Event τ)}
    (h : Elapses fetcher w trace w') (h' : Elapses fetcher w' more w'') :
    Elapses fetcher w (trace ++ more) w'' := by
  obtain ⟨new, he, rfl⟩ := h.events
  obtain ⟨new', he', rfl⟩ := h'.events
  refine ⟨⟨new' ++ new, by rw [he', he, List.append_assoc], timeline_append new' new⟩, ?_, ?_⟩
  · rw [h'.fetches, h.fetches, batchesOf_append, List.length_append, Nat.add_assoc]
  · rw [h'.now, h.fetches, h.now, clock_append]

theorem Elapses.still {fetcher : Fetcher τ} {w w' w'' : World σ τ} {trace : List (Event τ)}
    (h : Elapses fetcher w trace w') (h' : Still w' w'') : Elapses fetcher w trace w'' := by
  simpa only [List.append_nil] using h.trans (h'.elapses fetcher)

theorem Still.before {fetcher : Fetcher τ} {w w' w'' : World σ τ} {trace : List (Event τ)}
    (h : Still w w') (h' : Elapses fetcher w' trace w'') : Elapses fetcher w trace w'' :=
  (h.elapses fetcher).trans h'

end Elapsing

variable {σ τ α β : Type} {w w' w'' : World σ τ}

namespace Still

theorem refl (w : World σ τ) : Still w w := ⟨⟨[], rfl, rfl⟩, rfl, rfl⟩

theorem trans (h : Still w w') (h' : Still w' w'') : Still w w'' := by
  obtain ⟨new, he, hnew⟩ := h.events
  obtain ⟨new', he', hnew'⟩ := h'.events
  refine ⟨⟨new' ++ new, by rw [he', he, List.append_assoc], ?_⟩, h'.fetches.trans h.fetches,
    h'.now.trans h.now⟩
  rw [timeline_append, hnew, hnew', List.nil_append]

end Still

namespace Run

def Ends (x : Run σ τ α) (w : World σ τ) (result : Except Failure α) (w' : World σ τ) : Prop :=
  StateT.run (ExceptT.run x) w = (result, w')

theorem exists_ends (x : Run σ τ α) (w : World σ τ) : ∃ result w', Ends x w result w' :=
  ⟨_, _, rfl⟩

def fails (x : Run σ τ α) (w : World σ τ) (p : Failure → Bool) : Bool :=
  match StateT.run (ExceptT.run x) w with
  | (.ok _, _) => false
  | (.error failure, _) => p failure

theorem ends_of_fails {x : Run σ τ α} {p : Failure → Bool} (h : fails x w p = true) :
    ∃ failure w', Ends x w (.error failure) w' ∧ p failure = true := by
  unfold fails at h
  unfold Ends
  cases hx : StateT.run (ExceptT.run x) w with
  | mk result w' => cases result with
      | ok => rw [hx] at h; cases h
      | error failure => rw [hx] at h; exact ⟨failure, w', rfl, h⟩

theorem Returns.unique {x : Run σ τ α} {a b : α} (h : Returns x w a w') (h' : Returns x w b w'') :
    a = b ∧ w' = w'' := by
  have heq := h.symm.trans h'
  cases heq
  exact ⟨rfl, rfl⟩

theorem ends_bind {x : Run σ τ α} {f : α → Run σ τ β} {result : Except Failure β}
    (h : Ends (x >>= f) w result w'') :
    (∃ failure, result = .error failure ∧ Ends x w (.error failure) w'') ∨
      ∃ a w', Returns x w a w' ∧ Ends (f a) w' result w'' := by
  unfold Ends at h
  rw [ExceptT.run_bind, StateT.run_bind] at h
  cases hx : StateT.run (ExceptT.run x) w with
  | mk ending w' =>
      rw [hx] at h
      cases ending with
      | error failure =>
          cases h
          exact .inl ⟨failure, rfl, hx⟩
      | ok a => exact .inr ⟨a, w', hx, h⟩

/-- After a part that returns, the rest decides how the computation ends. -/
theorem Returns.ends {x : Run σ τ α} {f : α → Run σ τ β} {a : α} {result : Except Failure β}
    (hx : Returns x w a w') : Ends (x >>= f) w result w'' ↔ Ends (f a) w' result w'' := by
  unfold Returns at hx
  unfold Ends
  rw [ExceptT.run_bind, StateT.run_bind, hx]
  rfl

theorem returns_now {t : τ} (h : Returns (now : Run σ τ τ) w t w') : w.now = t ∧ w = w' := by
  cases h
  exact ⟨rfl, rfl⟩

def Within (R : World σ τ → World σ τ → Prop) (x : Run σ τ α) : Prop :=
  ∀ ⦃w result w'⦄, Ends x w result w' → R w w'

class OverlookingLogs (R : World σ τ → World σ τ → Prop) : Prop where
  refl (w : World σ τ) : R w w
  trans {w w' w'' : World σ τ} : R w w' → R w' w'' → R w w''
  logged (w : World σ τ) (entry : LogEntry) : R w { w with events := .log entry :: w.events }

class Overlooking (R : World σ τ → World σ τ → Prop) : Prop extends OverlookingLogs R where
  stored (w : World σ τ) (state : σ) : R w { w with store := state }

namespace Within

variable {R : World σ τ → World σ τ → Prop}

section Logs

variable [OverlookingLogs R]

theorem pure {a : α} : Within R (pure a : Run σ τ α) := by
  intro w result w' h
  cases h
  exact OverlookingLogs.refl w

theorem throw {failure : Failure} : Within R (throw failure : Run σ τ α) := by
  intro w result w' h
  cases h
  exact OverlookingLogs.refl w

theorem throw_bind {failure : Failure} {f : α → Run σ τ β} :
    Within R (MonadExcept.throw failure >>= f) := by
  intro w result w' h
  cases h
  exact OverlookingLogs.refl w

theorem bind {x : Run σ τ α} {f : α → Run σ τ β} (hx : Within R x) (hf : ∀ a, Within R (f a)) :
    Within R (x >>= f) := by
  intro w result w'' h
  obtain ⟨failure, -, h⟩ | ⟨a, w', h, h'⟩ := ends_bind h
  · exact hx h
  · exact OverlookingLogs.trans (hx h) (hf a h')

theorem get : Within R (get : Run σ τ (World σ τ)) := by
  intro w result w' h
  cases h
  exact OverlookingLogs.refl w

theorem now : Within R (now : Run σ τ τ) := get.bind fun _ => pure

theorem logged (entry : LogEntry) : Within R (record (.log entry) : Run σ τ Unit) := by
  intro w result w' h
  cases h
  exact OverlookingLogs.logged w entry

theorem loggedAll (entries : List LogEntry) :
    Within R (entries.forM fun entry => record (.log entry) : Run σ τ Unit) := by
  induction entries with
  | nil => exact pure
  | cons entry entries ih => exact (logged entry).bind fun _ => ih

theorem loggedSome (noted : Option LogEntry) :
    Within R (noted.forM fun entry => record (.log entry) : Run σ τ Unit) := by
  cases noted with
  | none => exact pure
  | some entry => exact logged entry

end Logs

variable [Overlooking R]

theorem takeAnswer (answer : StoreAnswer σ α) :
    Within R (takeAnswer answer : Run σ τ (Except StoreFault α)) := by
  refine bind ?_ fun _ => (loggedAll _).bind fun _ => pure
  intro w result w' h
  cases h
  exact Overlooking.stored w answer.state

theorem readStore (store : Option (Store σ τ)) (key : Text) : Within R (readStore store key) := by
  cases store with
  | none => exact pure
  | some store =>
      refine get.bind fun w => (takeAnswer _).bind fun answer => ?_
      cases answer with
      | ok => exact pure
      | error => exact throw

theorem writeStore {key value : Text} {ttl : Int}
    (hput : Within R (record (.put key value ttl) : Run σ τ Unit)) (store : Store σ τ) :
    Within R (writeStore store key value ttl) := by
  refine hput.bind fun _ => get.bind fun w => (takeAnswer _).bind fun answer => ?_
  cases answer with
  | ok => exact pure
  | error => exact pure

end Within

abbrev Idle (x : Run σ τ α) : Prop := Within Still x

theorem still_record {event : Event τ} (he : event.takesTime = false) (w : World σ τ) :
    Still w { w with events := event :: w.events } :=
  ⟨⟨[event], rfl, by simp [timeline, he]⟩, rfl, rfl⟩

instance : Overlooking (Still : World σ τ → World σ τ → Prop) where
  refl := .refl
  trans := .trans
  logged w _ := still_record rfl w
  stored _ _ := ⟨⟨[], rfl, rfl⟩, rfl, rfl⟩

namespace Idle

theorem pure {a : α} : Idle (pure a : Run σ τ α) := Within.pure

theorem now : Idle (now : Run σ τ τ) := Within.now

theorem logged (entry : LogEntry) : Idle (Run.record (.log entry) : Run σ τ Unit) :=
  Within.logged entry

theorem put (key value : Text) (ttl : Int) : Idle (record (.put key value ttl) : Run σ τ Unit) := by
  intro w result w' h
  cases h
  exact still_record rfl w

end Idle

end Run

namespace Dispatcher

open Run

variable (d : Dispatcher σ τ) (options : FetchOptions) {R : World σ τ → World σ τ → Prop}

section Logs

variable [OverlookingLogs R]

theorem within_target : Within R (d.target options) := by
  unfold target
  dsimp only
  -- the last step is the same whether the credentials were looked for or not
  repeat' first
    | exact .pure
    | exact .throw
    | exact .loggedAll _
    | refine .bind ?_ fun _ => ?_
    | split

theorem within_settle (state : RetryState τ) (entries : List Json) (failed : Nat)
    (pairs : List (Text × Reply)) : Within R (settle state entries failed pairs : Run σ τ _) := by
  induction pairs generalizing state entries failed with
  | nil => exact .pure
  | cons pair pairs ih =>
      unfold settle
      dsimp only
      repeat' first
        | exact .pure
        | exact .throw
        | exact .loggedSome _
        | exact ih _ _ _
        | refine .bind ?_ fun _ => ?_
        | split

theorem within_checkToken (target : Target) : Within R (target.checkToken : Run σ τ Unit) := by
  unfold Target.checkToken
  split
  · exact .pure
  · exact .throw

theorem within_checkQueries (requests : List Request) : Within R (d.checkQueries requests) := by
  unfold checkQueries
  split
  · exact .throw
  · exact .pure

variable [Seconds τ]

theorem within_checkRuntime (state : RetryState τ) : Within R (d.checkRuntime options state) := by
  refine Within.get.bind fun w => ?_
  split
  · exact .throw
  · exact .pure

theorem within_complete (state : RetryState τ) (entries : List Json) :
    Within R (d.complete state entries) := by
  unfold complete
  split
  · exact .pure
  · exact (Within.logged _).bind fun _ => .pure

omit [Seconds τ] in
def decoded (key : Text) : Option Text → Run σ τ (Option (List Json))
  | none => return none
  | some text => match Json.parse text with
    | .ok (.array entries) => do
      log .debug (lit "Using cached responses for " ++ key)
      return some entries
    | .error .integerTooLong => throw .integerTooLong
    | _ => do
      log .error (lit "failed to parse cache data for " ++ key)
      return none

theorem readEntries_eq (key : Text) : d.readEntries key = (do
    let text? ← Run.readStore d.store key
    decoded key text?) := by
  refine congrArg (Run.readStore d.store key >>= ·) (funext fun text? => ?_)
  cases text? <;> rfl

omit [Seconds τ] in
theorem within_decoded (key : Text) (text? : Option Text) :
    Within R (decoded key text? : Run σ τ _) := by
  cases text? with
  | none => exact .pure
  | some text =>
      unfold decoded
      dsimp only
      split
      · exact (Within.logged _).bind fun _ => .pure
      · exact .throw
      · exact (Within.logged _).bind fun _ => .pure

end Logs

variable [Seconds τ]

section Stored

variable [Overlooking R]

theorem within_readEntries (key : Text) : Within R (d.readEntries key) := by
  rw [readEntries_eq]
  exact (Within.readStore _ _).bind fun text? => within_decoded key text?

theorem within_writeEntries {key : Text} {entries : List Json} {ttl : Int}
    (hput : Within R (record (.put key (Json.array entries).print ttl) : Run σ τ Unit)) :
    Within R (d.writeEntries key entries ttl) := by
  unfold writeEntries
  split
  · exact .pure
  · refine (Within.writeStore hput _).bind fun fault? => ?_
    cases fault? with
    | none => exact .pure
    | some fault =>
        dsimp only
        split
        · exact .logged _
        · exact .throw

end Stored

omit [Seconds τ] in
theorem idle_target : Idle (d.target options) := within_target d options

omit [Seconds τ] in
theorem idle_settle (state : RetryState τ) (entries : List Json) (failed : Nat)
    (pairs : List (Text × Reply)) : Idle (settle state entries failed pairs : Run σ τ _) :=
  within_settle state entries failed pairs

theorem idle_readEntries (key : Text) : Idle (d.readEntries key) := within_readEntries d key

theorem idle_writeEntries (key : Text) (entries : List Json) (ttl : Int) :
    Idle (d.writeEntries key entries ttl) := within_writeEntries d (Idle.put _ _ _)

theorem idle_complete (state : RetryState τ) (entries : List Json) :
    Idle (d.complete state entries) := within_complete d state entries

end Dispatcher
end MetricBridge
