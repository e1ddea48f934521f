import MetricBridge.Proofs.Dispatch.Storing
import MetricBridge.Proofs.Dispatch.Withstanding

namespace MetricBridge

variable {σ τ α β : Type}

/-- The failure is one with which a dispatch ends, other than that the time of the program is used
up. -/
def Failure.IsOrdinary : Failure → Prop
  | .timeExceeded .. | .shape _ | .noEntry => False
  | _ => True

def Failure.IsPlain : Failure → Prop
  | .noAddress | .unencodable | .credentials _ | .quotaExceeded | .fetch _ | .store _ | .integerTooLong
  | .messageNotText => True
  | _ => False

def Failure.IsComplaint : Failure → Prop
  | .requestFailed .. | .requestsFailed _ => True
  | _ => False

theorem Failure.IsPlain.isOrdinary {failure : Failure} (h : failure.IsPlain) :
    failure.IsOrdinary := by
  cases failure <;> first | exact trivial | cases h

theorem Failure.IsComplaint.isOrdinary {failure : Failure} (h : failure.IsComplaint) :
    failure.IsOrdinary := by
  cases failure <;> first | exact trivial | cases h

namespace Run

theorem Ends.failed {x : Run σ τ α} {f : α → Run σ τ β} {failure : Failure} {w w' : World σ τ}
    (h : Ends x w (.error failure) w') : Ends (x >>= f) w (.error failure) w' := by
  unfold Ends at h ⊢
  rw [ExceptT.run_bind, StateT.run_bind, h]
  rfl

theorem ends_bind_congr {x y : Run σ τ α} {f : α → Run σ τ β} {result : Except Failure β}
    {w w' : World σ τ} (h : StateT.run (ExceptT.run x) w = StateT.run (ExceptT.run y) w) :
    Ends (x >>= f) w result w' ↔ Ends (y >>= f) w result w' := by
  unfold Ends
  rw [ExceptT.run_bind, StateT.run_bind, h, ExceptT.run_bind, StateT.run_bind]

def FailsOnly (P : Failure → Prop) (x : Run σ τ α) : Prop :=
  ∀ ⦃w failure w'⦄, Ends x w (.error failure) w' → P failure

namespace FailsOnly

variable {P Q : Failure → Prop}

theorem mono {x : Run σ τ α} (hPQ : ∀ ⦃failure⦄, P failure → Q failure) (h : FailsOnly P x) :
    FailsOnly Q x := fun _ _ _ hends => hPQ (h hends)

theorem pure {a : α} : FailsOnly P (pure a : Run σ τ α) := nofun

theorem throw {failure : Failure} (h : P failure) : FailsOnly P (throw failure : Run σ τ α) := by
  intro w other w' hends
  cases hends
  exact h

theorem throw_bind {failure : Failure} {f : α → Run σ τ β} (h : P failure) :
    FailsOnly P (MonadExcept.throw failure >>= f) := by
  intro w other w' hends
  cases hends
  exact h

theorem bind {x : Run σ τ α} {f : α → Run σ τ β} (hx : FailsOnly P x)
    (hf : ∀ a, FailsOnly P (f a)) : FailsOnly P (x >>= f) := by
  intro w failure w' h
  obtain ⟨other, heq, h⟩ | ⟨a, w₁, -, h⟩ := ends_bind h
  · cases heq
    exact hx h
  · exact hf a h

theorem get : FailsOnly P (get : Run σ τ (World σ τ)) := nofun

theorem now : FailsOnly P (now : Run σ τ τ) := nofun

theorem record (event : Event τ) : FailsOnly P (record event : Run σ τ Unit) := nofun

theorem loggedAll (entries : List LogEntry) :
    FailsOnly P (entries.forM fun entry => Run.record (.log entry) : Run σ τ Unit) := by
  induction entries with
  | nil => exact pure
  | cons entry entries ih => exact (record _).bind fun _ => ih

theorem loggedSome (noted : Option LogEntry) :
    FailsOnly P (noted.forM fun entry => Run.record (.log entry) : Run σ τ Unit) := by
  cases noted with
  | none => exact pure
  | some entry => exact record _

theorem takeAnswer (answer : StoreAnswer σ α) :
    FailsOnly P (takeAnswer answer : Run σ τ (Except StoreFault α)) :=
  bind nofun fun _ => (loggedAll _).bind fun _ => pure

theorem readStore (h : ∀ fault, P (.store fault)) (store : Option (Store σ τ)) (key : Text) :
    FailsOnly P (readStore store key) := by
  cases store with
  | none => exact pure
  | some store =>
      refine get.bind fun w => (takeAnswer _).bind fun answer => ?_
      cases answer with
      | ok => exact pure
      | error fault => exact throw (h fault)

theorem writeStore (store : Store σ τ) (key value : Text) (ttl : Int) :
    FailsOnly P (writeStore store key value ttl) := by
  refine (record _).bind fun _ => get.bind fun w => (takeAnswer _).bind fun answer => ?_
  cases answer with
  | ok => exact pure
  | error => exact pure

end FailsOnly
end Run

namespace Dispatcher

open Run

variable {d : Dispatcher σ τ} {options : FetchOptions}

theorem plain_target : FailsOnly Failure.IsPlain (d.target options) := by
  unfold target
  dsimp only
  -- the last step is the same whether the credentials were looked for or not
  repeat' first
    | exact .pure
    | exact .throw trivial
    | exact .loggedAll _
    | refine .bind ?_ fun _ => ?_
    | split

theorem plain_checkToken (target : Target) :
    FailsOnly Failure.IsPlain (target.checkToken : Run σ τ Unit) := by
  unfold Target.checkToken
  split
  · exact .pure
  · exact .throw trivial

theorem plain_announce (requests : List Request) :
    FailsOnly Failure.IsPlain (d.announce requests) := by
  refine FailsOnly.bind ?_ fun _ => .record _
  unfold checkQueries
  split
  · rename_i fault _
    cases fault <;> exact .throw trivial
  · exact .pure

theorem plain_settle (state : RetryState τ) (entries : List Json) (failed : Nat)
    (pairs : List (Text × Reply)) :
    FailsOnly Failure.IsPlain (settle state entries failed pairs : Run σ τ _) := by
  induction pairs generalizing state entries failed with
  | nil => exact .pure
  | cons pair pairs ih =>
      obtain ⟨query, reply⟩ := pair
      cases hjudge : reply.judge query with
      | error failure =>
          have hplain : failure.IsPlain := by
            cases Reply.judge_eq_error.mp hjudge <;> exact trivial
          rw [settle]
          simp only [hjudge]
          exact .throw_bind hplain
      | ok verdict =>
          rw [settle_cons hjudge]
          exact (FailsOnly.loggedSome _).bind fun _ => ih _ _ _

variable [Seconds τ]

theorem plain_exchange (batch : List FetchRequest) :
    FailsOnly Failure.IsPlain (d.exchange batch) := by
  unfold exchange
  refine FailsOnly.bind nofun fun outcome => ?_
  cases outcome with
  | ok replies => exact .pure
  | error fault =>
      dsimp only
      repeat' first
        | exact .pure
        | exact .throw trivial
        | exact .record _
        | refine .bind ?_ fun _ => ?_
        | split

theorem plain_lookUp : FailsOnly Failure.IsPlain (d.lookUp options) := by
  unfold lookUp
  split
  · exact .pure
  · rw [readEntries_eq]
    refine (FailsOnly.readStore (fun _ => trivial) _ _).bind fun text? => ?_
    cases text? with
    | none => exact .pure
    | some text =>
        unfold decoded
        dsimp only
        split
        · exact (FailsOnly.record _).bind fun _ => .pure
        · exact .throw trivial
        · exact (FailsOnly.record _).bind fun _ => .pure

theorem plain_writeEntries (key : Text) (entries : List Json) (ttl : Int) :
    FailsOnly Failure.IsPlain (d.writeEntries key entries ttl) := by
  unfold writeEntries
  split
  · exact .pure
  · refine (FailsOnly.writeStore _ _ _ _).bind fun fault? => ?_
    cases fault? with
    | none => exact .pure
    | some fault =>
        dsimp only
        split
        · exact .record _
        · exact .throw trivial

omit [Seconds τ] in
theorem isComplaint_of_complaint? {requests : List Request} {entries : List Json}
    {failure : Failure} (h : complaint? requests options entries = some failure) :
    failure.IsComplaint := by
  unfold complaint? strictFailure? at h
  split at h
  · split at h <;> cases h <;> exact trivial
  · cases h

/-- At its end a call fails plainly, or because it is strict and there is an error. -/
theorem finish_fails (requests : List Request) (entries : List Json) :
    FailsOnly (fun failure => failure.IsPlain ∨ complaint? requests options entries = some failure)
      (d.finish requests options entries) := by
  rw [finish_eq]
  cases complaint? requests options entries with
  | some failure => exact .throw (.inr rfl)
  | none =>
      refine FailsOnly.bind ?_ fun _ => .pure
      unfold keep
      split
      · exact (plain_writeEntries _ _ _).mono fun _ => .inl
      · exact .pure

theorem ordinary_finish (requests : List Request) (entries : List Json) :
    FailsOnly Failure.IsOrdinary (d.finish requests options entries) := by
  refine (finish_fails requests entries).mono fun failure h => ?_
  obtain hplain | hcomplaint := h
  · exact hplain.isOrdinary
  · exact (isComplaint_of_complaint? hcomplaint).isOrdinary

end Dispatcher
end MetricBridge
