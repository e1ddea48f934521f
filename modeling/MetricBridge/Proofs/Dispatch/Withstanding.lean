import MetricBridge.Proofs.Dispatch.Meets

namespace MetricBridge

open Run

/-- The reply is neither an answer nor an error entry, and the call that receives it fails. -/
inductive Reply.Unjudged (r : Reply) : Failure → Prop
  | integer (hs : Retry.isSuccess r.status = true)
      (hp : Json.parse r.content = .error .integerTooLong) : r.Unjudged .integerTooLong
  | message {payload : Json} (hs : Retry.isSuccess r.status = true)
      (hp : Json.parse r.content = .ok payload) (he : Entry.isError payload = true)
      (ht : ∀ t, Entry.message payload ≠ .string t)
      (hm : (Entry.message payload).isEmptyValue = false) : r.Unjudged .messageNotText

namespace Reply

variable {r : Reply} {query : Text} {payload : Json} {failure : Failure}

theorem isTemporary_eq_error : isTemporary payload = .error failure ↔
    failure = .messageNotText ∧ (∀ t, Entry.message payload ≠ .string t) ∧
      (Entry.message payload).isEmptyValue = false := by
  unfold isTemporary
  dsimp only
  generalize Entry.message payload = message
  split
  · rename_i t
    exact ⟨nofun, fun h => absurd rfl (h.2.1 t)⟩
  · rename_i hnot
    split
    · rename_i hempty
      exact ⟨nofun, fun h => by rw [h.2.2] at hempty; cases hempty⟩
    · rename_i hempty
      constructor
      · rintro ⟨⟩
        exact ⟨rfl, hnot, Bool.eq_false_iff.mpr hempty⟩
      · rintro ⟨rfl, -⟩
        rfl

theorem judgePayload_eq_error : judgePayload query payload = .error failure ↔
    Entry.isError payload = true ∧ isTemporary payload = .error failure := by
  unfold judgePayload
  split
  · rename_i herror
    rw [herror]
    cases isTemporary payload with
    | error e => exact ⟨fun h => ⟨rfl, congrArg Except.error (Except.error.inj h)⟩,
        fun h => congrArg Except.error (Except.error.inj h.2)⟩
    | ok temporary => cases temporary <;> exact ⟨nofun, fun h => nomatch h.2⟩
  · rename_i herror
    exact ⟨nofun, fun h => absurd h.1 herror⟩

theorem judge_eq_error : r.judge query = .error failure ↔ r.Unjudged failure := by
  constructor
  · intro h
    unfold judge at h
    split at h
    · rename_i hsuccess
      split at h
      · rename_i payload hparse
        obtain ⟨herror, htemporary⟩ := judgePayload_eq_error.mp h
        obtain ⟨rfl, htext, hempty⟩ := isTemporary_eq_error.mp htemporary
        exact .message hsuccess hparse herror htext hempty
      · cases h
      · rename_i hparse
        cases h
        exact .integer hsuccess hparse
    · cases h
  · intro h
    unfold judge
    cases h with
    | integer hs hp => rw [if_pos hs, hp]
    | message hs hp he ht hm =>
        rw [if_pos hs, hp]
        exact judgePayload_eq_error.mpr ⟨he, isTemporary_eq_error.mpr ⟨rfl, ht, hm⟩⟩

theorem judge_isOk : (r.judge query).isOk = true ↔ ∀ failure, ¬ r.Unjudged failure := by
  cases hjudge : r.judge query with
  | error failure =>
      exact ⟨nofun, fun h => absurd (judge_eq_error.mp hjudge) (h failure)⟩
  | ok verdict =>
      refine ⟨fun _ failure hnot => ?_, fun _ => rfl⟩
      rw [judge_eq_error.mpr hnot] at hjudge
      cases hjudge

end Reply

variable {σ τ α : Type} {pairs more : List (Text × Reply)} {w w' : World σ τ}

inductive TakesOver (pairs : List (Text × Reply)) : Except Failure α → Prop
  | judged {a} (h : ∀ pair ∈ pairs, ∀ failure, ¬ pair.2.Unjudged failure) : TakesOver pairs (.ok a)
  | unjudged {pair failure} (hp : pair ∈ pairs) (h : pair.2.Unjudged failure) :
      TakesOver pairs (.error failure)
  | unfinished : TakesOver pairs (.error .unfinished)

namespace TakesOver

variable {result : Except Failure α}

theorem after (h : ∀ pair ∈ pairs, ∀ failure, ¬ pair.2.Unjudged failure)
    (hmore : TakesOver more result) : TakesOver (pairs ++ more) result := by
  cases hmore with
  | judged hall => exact .judged (List.forall_mem_append.mpr ⟨h, hall⟩)
  | unjudged hp hnot => exact .unjudged (List.mem_append_right _ hp) hnot
  | unfinished => exact .unfinished

theorem failed {β : Type} {failure : Failure}
    (h : TakesOver pairs (.error failure : Except Failure α)) :
    TakesOver pairs (.error failure : Except Failure β) := by
  cases h with
  | unjudged hp hnot => exact .unjudged hp hnot
  | unfinished => exact .unfinished

theorem all_judged {a : α} (h : TakesOver pairs (.ok a : Except Failure α)) :
    ∀ pair ∈ pairs, ∀ failure, ¬ pair.2.Unjudged failure := by
  cases h
  assumption

theorem returned {β : Type} {a : α} {b : β} (h : TakesOver pairs (.ok a : Except Failure α)) :
    TakesOver pairs (.ok b : Except Failure β) := .judged h.all_judged

end TakesOver

namespace Dispatcher

variable {state : RetryState τ} {entries : List Json} {failed : Nat}

theorem settle_takesOver {result : Except Failure (RetryState τ × List Json × Nat)}
    (h : Ends (settle state entries failed pairs) w result w') : TakesOver pairs result := by
  induction pairs generalizing state entries failed w with
  | nil =>
      cases h
      exact .judged (List.forall_mem_nil _)
  | cons pair pairs ih =>
      obtain ⟨query, reply⟩ := pair
      cases hjudge : reply.judge query with
      | error failure =>
          rw [settle] at h
          simp only [hjudge] at h
          cases h
          exact .unjudged List.mem_cons_self (Reply.judge_eq_error.mp hjudge)
      | ok verdict =>
          rw [settle_cons hjudge] at h
          have hreply : ∀ failure, ¬ reply.Unjudged failure :=
            Reply.judge_isOk.mp (by rw [hjudge]; rfl)
          obtain ⟨w₁, hlogged⟩ := exists_loggedSome verdict.note? w
          exact (ih (hlogged.ends.mp h)).after (List.forall_mem_singleton.mpr hreply)

variable [Seconds τ] {d : Dispatcher σ τ} {options : FetchOptions} {target : Target}

theorem round_takesOver {result : Except Failure (RetryState τ × List Json)}
    (hruntime : options.checkRuntime = false) (htoken : target.token.NoSurrogate)
    (hmayPass : (d.fetcher w.fetches (target.batch state)).MayPass)
    (h : Ends (d.round options target state entries) w result w') :
    Sends w [target.batch state] w' ∧
      TakesOver (answers d.fetcher w.fetches (target.batch state)) result := by
  rw [round_eq] at h
  replace h := (returns_prepare hruntime htoken).ends.mp h
  obtain ⟨received, lost, w₁, hexchange⟩ := exists_exchange hmayPass
  replace h := hexchange.ends.mp h
  have hpairs := returns_exchange hexchange
  rw [batch_queries] at hpairs
  have hsent := elapses_exchange hexchange
  obtain ⟨failure, rfl, hsettle⟩ | ⟨⟨state₁, entries₁, failed⟩, w₂, hsettle, h⟩ := ends_bind h
  · have htakes := settle_takesOver hsettle
    rw [hpairs] at htakes
    exact ⟨(hsent.still (idle_settle _ _ _ _ hsettle)).sends, htakes.failed⟩
  · have htakes := settle_takesOver hsettle
    rw [hpairs] at htakes
    obtain ⟨w₃, hconclude, hpause⟩ := d.exists_conclude state₁ entries₁ failed w₂
    obtain ⟨rfl, rfl⟩ := Prod.mk.inj (h.symm.trans hconclude)
    have hsends := ((hsent.still (idle_settle _ _ _ _ hsettle)).trans hpause).sends
    exact ⟨(batchesOf_pause d _ state₁ w₂.now) ▸ hsends, htakes.returned⟩

theorem rounds_takesOver {fuel : Nat} {result : Except Failure (RetryState τ × List Json)}
    (hruntime : options.checkRuntime = false) (htoken : target.token.NoSurrogate)
    (hfetcher : ∀ number batch, (d.fetcher number batch).MayPass)
    (h : Ends (d.rounds options target fuel state entries) w result w') :
    ∃ sent, Sends w sent w' ∧ TakesOver (conversation d.fetcher w.fetches sent) result := by
  induction fuel generalizing state entries w with
  | zero =>
      cases h
      exact ⟨[], (Still.refl w').sends, .unfinished⟩
  | succ fuel ih =>
      unfold Ends at h
      rw [run_rounds] at h
      split at h
      · cases h
        exact ⟨[], (Still.refl w').sends, .judged nofun⟩
      · obtain ⟨failure, rfl, hround⟩ | ⟨⟨state₁, entries₁⟩, w₁, hround, h⟩ := ends_bind h
        · obtain ⟨hsends, htakes⟩ := round_takesOver hruntime htoken (hfetcher _ _) hround
          exact ⟨_, hsends, by simpa only [conversation, List.append_nil] using htakes.failed⟩
        · obtain ⟨hsends, htakes⟩ := round_takesOver hruntime htoken (hfetcher _ _) hround
          obtain ⟨more, hmore, htakesMore⟩ := ih h
          rw [hsends.fetches_eq] at htakesMore
          exact ⟨_, hsends.trans hmore, htakesMore.after htakes.all_judged⟩

variable {requests : List Request} {v : World σ τ} {result : Except Failure (List Json)}

theorem dispatch_takesOver (htarget : Returns (d.target options) w target v)
    (htoken : target.token.NoSurrogate) (hqueries : d.HasQueries requests)
    (hstrict : options.strict = false) (hstore : options.storeKey? = none)
    (hruntime : options.checkRuntime = false)
    (hfetcher : ∀ number batch, (d.fetcher number batch).MayPass)
    (h : Ends (d.dispatch requests options) w result w') :
    ∃ sent, Sends w sent w' ∧ TakesOver (conversation d.fetcher w.fetches sent) result := by
  rw [dispatch_eq] at h
  replace h := htarget.ends.mp h
  obtain ⟨w₁, hannounce⟩ := exists_announce hqueries v
  replace h := hannounce.ends.mp h
  have hnow : Returns (Run.now : Run σ τ τ) w₁ w₁.now w₁ := rfl
  replace h := hnow.ends.mp h
  have hstart := ((idle_target d options htarget).trans (idle_announce d _ hannounce)).sends
  obtain ⟨failure, rfl, hrounds⟩ | ⟨⟨state, entries⟩, w₂, hrounds, h⟩ := ends_bind h
  · obtain ⟨sent, hsends, htakes⟩ := rounds_takesOver hruntime htoken hfetcher hrounds
    rw [hstart.fetches_eq] at htakes
    exact ⟨_, hstart.trans hsends, htakes.failed⟩
  · obtain ⟨sent, hsends, htakes⟩ := rounds_takesOver hruntime htoken hfetcher hrounds
    rw [hstart.fetches_eq] at htakes
    -- neither the completion nor the end of a lenient call without a store fails
    obtain ⟨w₃, hcomplete⟩ := exists_complete d state entries w₂
    replace h := hcomplete.ends.mp h
    have hfinish := exists_finish d requests (d.completeEntries state entries) w₃ hstrict hstore
    obtain ⟨rfl, rfl⟩ := Prod.mk.inj (h.symm.trans hfinish)
    have hall := hstart.trans (hsends.trans (idle_complete d _ _ hcomplete).sends)
    rw [List.append_nil] at hall
    exact ⟨_, hall, htakes.returned⟩

/-- A lenient call without a store and a time limit, of whose texts none has a surrogate, withstands all
replies that can be judged, whatever status they have and whatever they say: it returns an entry for
each request. One reply that cannot be judged takes the whole batch down. The reader of JSON is assumed
to have no limit for the nesting of values. -/
theorem fetchAll_withstands_replies (htarget : Returns (d.target options) w target v)
    (htoken : target.token.NoSurrogate) (hqueries : d.HasQueries requests)
    (hstrict : options.strict = false) (hstore : options.storeKey? = none)
    (hruntime : options.checkRuntime = false)
    (hfetcher : ∀ number batch, (d.fetcher number batch).MayPass)
    (h : Ends (d.fetchAll requests options) w result w')
    (hfinished : result ≠ .error .unfinished) :
    ∃ sent, Sends w sent w' ∧
      let replies := conversation d.fetcher w.fetches sent
      ((∃ entries, result = .ok entries ∧ entries.length = requests.length) ↔
        ∀ pair ∈ replies, ∀ failure, ¬ pair.2.Unjudged failure) ∧
      ∀ failure, result = .error failure → ∃ pair ∈ replies, pair.2.Unjudged failure := by
  have hdispatch : Ends (d.dispatch requests options) w result w' := by
    unfold fetchAll at h
    rwa [hstore] at h
  obtain ⟨sent, hsends, htakes⟩ :=
    dispatch_takesOver htarget htoken hqueries hstrict hstore hruntime hfetcher hdispatch
  refine ⟨sent, hsends, ?_⟩
  cases htakes with
  | judged hall =>
      exact ⟨iff_of_true ⟨_, rfl, length_dispatch hdispatch⟩ hall, nofun⟩
  | unjudged hpair hnot =>
      refine ⟨iff_of_false nofun fun hall => hall _ hpair _ hnot, ?_⟩
      rintro _ ⟨⟩
      exact ⟨_, hpair, hnot⟩
  | unfinished => exact absurd rfl hfinished

def numberingDispatcher : Dispatcher Unit Int where
  settings := ⟨30, 2, 6, 0, "agent", [], "source"⟩
  fetcher _ _ := ⟨5, .ok [⟨200, some "\x7b\"result\": \"error\", \"message\": 5\x7d"⟩,
    ⟨200, some "[1]"⟩]⟩
  store := none
  credentials := none
  maxRounds := 10

/-- The answer to the other request is lost. -/
theorem fetchAll_withstands_replies_numbering :
    let requests : List Request := [⟨"A.a", []⟩, ⟨"A.b", []⟩]
    let options : FetchOptions := { address := some "https://matomo.example.com" }
    let world : World Unit Int := ⟨0, 0, 0, (), []⟩
    (∃ target v, Returns (numberingDispatcher.target options) world target v ∧
      target.token.NoSurrogate) ∧
    numberingDispatcher.HasQueries requests ∧
    (∀ number batch, (numberingDispatcher.fetcher number batch).MayPass) ∧
    ∃ w', Ends (numberingDispatcher.fetchAll requests options) world (.error .messageNotText) w' ∧
      ∃ sent, Sends world sent w' ∧
        ∃ pair ∈ conversation numberingDispatcher.fetcher 0 sent,
          pair.2.Unjudged .messageNotText := by
  intro requests options world
  have hfetcher : ∀ number batch, (numberingDispatcher.fetcher number batch).MayPass :=
    fun _ _ _ => nofun
  have hqueries : numberingDispatcher.HasQueries requests := by decide +kernel
  have hknown : check (numberingDispatcher.target options) world
      (fun target _ => decide target.token.NoSurrogate) = true := by decide +kernel
  have hfails : (match (StateT.run (ExceptT.run (numberingDispatcher.fetchAll requests options))
      world).1 with
    | .error .messageNotText => true
    | _ => false) = true := by decide +kernel
  obtain ⟨target, v, htarget, htoken⟩ := returns_of_check hknown
  replace htoken := of_decide_eq_true htoken
  obtain ⟨result, w', h⟩ := exists_ends (numberingDispatcher.fetchAll requests options) world
  have hresult : result = .error .messageNotText := by
    rw [h] at hfails
    dsimp only at hfails
    split at hfails
    · rfl
    · cases hfails
  subst hresult
  obtain ⟨sent, hsends, -, hunjudged⟩ :=
    fetchAll_withstands_replies htarget htoken hqueries rfl rfl rfl hfetcher h nofun
  exact ⟨⟨target, v, htarget, htoken⟩, hqueries, hfetcher, w', h, sent, hsends, hunjudged _ rfl⟩

end Dispatcher
end MetricBridge
