import MetricBridge.Problem.Faults
import MetricBridge.Proofs.Dispatch.Budget
import MetricBridge.Proofs.Dispatch.Strict

namespace MetricBridge

open Run

variable {σ τ : Type} {requests : List Request} {entries : List Json} {failure : Failure}

structure Reported (requests : List Request) (entries : List Json) (problem : Problem) : Prop where
  kind : problem.kind = .requestFailed
  count : problem.field "failed_count" = .int (entries.countP Entry.isError)
  only : entries.countP Entry.isError = 1 → ∃ request entry,
    (request, entry) ∈ requests.zip entries ∧ Entry.isError entry = true ∧
      let params := Json.object (request.params.map fun (name, value) => (name, value.toJson))
      problem.field "method" = .string request.method ∧ problem.field "params" = params ∧
      problem.text = lit "API method " ++ request.method ++ lit " failed (params = " ++
        params.print ++ lit "): \"" ++ (Entry.message entry).plain ++ lit "\"."

theorem Complains.reported (h : Complains requests entries failure) :
    ∃ problem, failure.problem? = some problem ∧ Reported requests entries problem := by
  cases h with
  | one hmem herror hone =>
      refine ⟨_, rfl, rfl, ?_, fun _ => ⟨_, _, hmem, herror, rfl, rfl, rfl⟩⟩
      rw [hone]
      rfl
  | several hmany => exact ⟨_, rfl, rfl, rfl, fun hone => absurd hone (Nat.ne_of_gt hmany)⟩

inductive Tightens (requests : List Request) :
    Except Failure (List Json) → Except Failure (List Json) → Prop
  | failed {failure : Failure} (h : ¬failure.IsComplaint) :
      Tightens requests (.error failure) (.error failure)
  | clean {entries : List Json} (h : ∀ entry ∈ entries, Entry.isError entry = false) :
      Tightens requests (.ok entries) (.ok entries)
  | complains {entries : List Json} {failure : Failure} {problem : Problem}
      (h : Complains requests entries failure) (hproblem : failure.problem? = some problem)
      (hreported : Reported requests entries problem) :
      Tightens requests (.ok entries) (.error failure)

theorem Failure.IsPlain.not_isComplaint (h : failure.IsPlain) : ¬failure.IsComplaint := by
  cases failure <;> first | exact id | cases h

namespace Dispatcher

variable [Seconds τ] {d : Dispatcher σ τ} {options : FetchOptions} {target : Target}
  {w w' : World σ τ}

theorem rounds_uncomplaining (fuel : Nat) (state : RetryState τ) (entries : List Json) :
    FailsOnly (¬·.IsComplaint) (d.rounds options target fuel state entries) := by
  induction fuel generalizing state entries with
  | zero => exact .throw id
  | succ fuel ih =>
      rw [rounds_succ]
      refine FailsOnly.now.bind fun now => ?_
      split
      · exact .pure
      · refine FailsOnly.bind (fun w failure w' h => ?_) fun _ => ih _ _
        obtain hplain | rfl := round_failure h
        · exact hplain.not_isComplaint
        · exact id

theorem gather_uncomplaining (requests : List Request) :
    FailsOnly (¬·.IsComplaint) (d.gather requests options) := by
  refine (plain_target.mono fun _ => Failure.IsPlain.not_isComplaint).bind fun target => ?_
  refine ((plain_announce requests).mono fun _ => Failure.IsPlain.not_isComplaint).bind fun _ => ?_
  refine FailsOnly.now.bind fun start => ?_
  refine (rounds_uncomplaining _ _ _).bind fun (state, entries) => ?_
  intro w failure w' h
  obtain ⟨w₁, hcomplete⟩ := exists_complete d state entries w
  cases h.symm.trans hcomplete

theorem returns_lookUp_of_unused (h : options.storeKey? = none ∨ d.store = none) (w : World σ τ) :
    Returns (d.lookUp options) w none w := by
  unfold lookUp
  split
  · rfl
  · rename_i key hkey
    have hstore : d.store = none := h.resolve_left (by simp [hkey])
    unfold readEntries
    rw [hstore]
    rfl

theorem returns_keep_of_unused (h : options.storeKey? = none ∨ d.store = none)
    (entries : List Json) (w : World σ τ) : Returns (d.keep options entries) w () w := by
  unfold keep
  split
  · rename_i key hkey
    have hstore : d.store = none := h.resolve_left (by simp [hkey])
    unfold writeEntries
    rw [hstore]
    rfl
  · rfl

/-- Without a store a strict call and a lenient one do the same: they leave the same state behind, with the
same events in it. They return the same entries if there is no error among them, and fail alike if they
cannot gather them. The strict call fails if there are errors, and tells of the only one what was
requested, with its message, and of several how many there are. -/
theorem strict_agrees (d : Dispatcher σ τ) (requests : List Request) (options : FetchOptions)
    (hunused : options.storeKey? = none ∨ d.store = none) (w : World σ τ) :
    ∃ result result' w',
      Ends (d.fetchAll requests { options with strict := false }) w result w' ∧
      Ends (d.fetchAll requests { options with strict := true }) w result' w' ∧
      Tightens requests result result' ∧
      ∀ entries, result = .ok entries → entries.length = requests.length := by
  have hends : ∀ {strict result w'}, Ends (do
      let entries ← d.gather requests options
      d.finish requests { options with strict := strict } entries) w result w' →
      Ends (d.fetchAll requests { options with strict := strict }) w result w' := by
    intro strict result w' h
    have hmissed : Returns (d.lookUp { options with strict := strict }) w none w :=
      returns_lookUp_of_unused hunused w
    rw [fetchAll_eq, hmissed.ends]
    dsimp only
    rwa [dispatch_eq_gather, gather_strict]
  obtain ⟨gathered, w', hgather⟩ := exists_ends (d.gather requests options) w
  cases gathered with
  | error failure =>
      exact ⟨_, _, w', hends hgather.failed, hends hgather.failed,
        .failed (gather_uncomplaining requests hgather), nofun⟩
  | ok entries =>
      have hlength : entries.length = requests.length := length_gather hgather
      have hlenient : Returns (d.finish requests { options with strict := false } entries) w'
          entries w' :=
        returns_finish.mpr ⟨complaint?_of_lenient rfl, rfl, returns_keep_of_unused hunused _ _⟩
      refine ⟨.ok entries, ?_⟩
      cases hfailure : strictFailure? requests entries with
      | none =>
          have hstrict : Returns (d.finish requests { options with strict := true } entries) w'
              entries w' :=
            returns_finish.mpr ⟨(complaint?_of_strict rfl).trans hfailure, rfl,
              returns_keep_of_unused hunused _ _⟩
          refine ⟨.ok entries, w', hends ((Returns.ends hgather).mpr hlenient),
            hends ((Returns.ends hgather).mpr hstrict), .clean ?_, ?_⟩
          · exact (strictFailure?_eq_none hlength).mp hfailure
          · rintro _ ⟨⟩
            exact hlength
      | some failure =>
          have hstrict : Ends (d.finish requests { options with strict := true } entries) w'
              (.error failure) w' :=
            ends_finish_of_complaint ((complaint?_of_strict rfl).trans hfailure) w'
          have hcomplains := complains_of_strictFailure? hlength hfailure
          obtain ⟨problem, hproblem, hreported⟩ := hcomplains.reported
          refine ⟨.error failure, w', hends ((Returns.ends hgather).mpr hlenient),
            hends ((Returns.ends hgather).mpr hstrict),
            .complains hcomplains hproblem hreported, ?_⟩
          rintro _ ⟨⟩
          exact hlength

def incompleteDispatcher : Dispatcher Unit Int where
  settings := ⟨30, 2, 6, 0, "agent", [], "source"⟩
  fetcher _ _ := ⟨5, .ok [⟨404, some "not found"⟩, ⟨200, some "[]"⟩]⟩
  store := none
  credentials := none
  maxRounds := 10

/-- The strict call tells of the page that is missing, in the state in which the lenient one returns. -/
theorem strict_agrees_incomplete :
    let requests : List Request := [⟨"A.a", [("idSite", .text "1")]⟩, ⟨"A.b", []⟩]
    let options : FetchOptions := { address := some "https://matomo.example.com" }
    let world : World Unit Int := ⟨0, 0, 0, (), []⟩
    (options.storeKey? = none ∨ incompleteDispatcher.store = none) ∧
    ∃ entries failure problem w',
      Returns (incompleteDispatcher.fetchAll requests { options with strict := false }) world
        entries w' ∧
      Ends (incompleteDispatcher.fetchAll requests { options with strict := true }) world
        (.error failure) w' ∧
      failure.problem? = some problem ∧ Reported requests entries problem ∧
      problem.text = lit "API method A.a failed (params = \x7b\"idSite\": \"1\"\x7d): \"" ++
        lit "Matomo server failed with code 404. Truncated response: not found\"." := by
  intro requests options world
  have hunused : options.storeKey? = none ∨ incompleteDispatcher.store = none := .inl rfl
  have hreturns : check (incompleteDispatcher.fetchAll requests { options with strict := false })
      world (fun _ _ => true) = true := by decide +kernel
  have hfails : fails (incompleteDispatcher.fetchAll requests { options with strict := true }) world
      (fun failure => failure.problem?.map Problem.text == some
        (lit "API method A.a failed (params = \x7b\"idSite\": \"1\"\x7d): \"" ++
          lit "Matomo server failed with code 404. Truncated response: not found\".")) = true := by
    decide +kernel
  obtain ⟨entries, v, hentries, -⟩ := returns_of_check hreturns
  obtain ⟨failure, v', hfailure, htext⟩ := ends_of_fails hfails
  obtain ⟨result, result', w', hlenient, hstrict, htightens, -⟩ :=
    strict_agrees incompleteDispatcher requests options hunused world
  obtain ⟨rfl, rfl⟩ := Prod.mk.inj (hlenient.symm.trans hentries)
  obtain ⟨rfl, -⟩ := Prod.mk.inj (hstrict.symm.trans hfailure)
  cases htightens with
  | complains _ hproblem hreported =>
      rw [hproblem] at htext
      exact ⟨hunused, _, _, _, w', hlenient, hstrict, hproblem, hreported,
        Option.some.inj (eq_of_beq htext)⟩

end Dispatcher
end MetricBridge
