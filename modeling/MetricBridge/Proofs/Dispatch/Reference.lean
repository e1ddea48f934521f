import MetricBridge.Dispatch.Round
import MetricBridge.Proofs.Except

namespace MetricBridge

namespace Reply

def isPermanent (payload : Json) : Bool :=
  match Entry.message payload with
  | .string t => Retry.isPermanent t
  | _ => false

/-- Whether the query is not asked again after the reply. -/
def isTerminal (r : Reply) : Bool :=
  if Retry.isSuccess r.status then
    match Json.parse r.content with
    | .error _ => true
    | .ok payload => !Entry.isError payload || isPermanent payload
  else !Retry.isRetryable r.status

/-- The entry that the reply brings: what it says, or what is wrong with it. A failure that may pass
brings none. -/
def entry? (r : Reply) : Option Json :=
  if Retry.isSuccess r.status then
    match Json.parse r.content with
    | .error _ => some (Entry.failed (lit "Matomo server returned invalid JSON (code " ++
      Text.ofInt r.status ++ lit "). Truncated response: " ++ r.excerpt))
    | .ok payload => some payload
  else if Retry.isRetryable r.status then none
  else some (Entry.failed (lit "Matomo server failed with code " ++ Text.ofInt r.status ++
    lit ". Truncated response: " ++ r.excerpt))

end Reply

def unanswered {τ : Type} [Seconds τ] (limit : τ) (status? : Option Int) : Json :=
  Entry.failed (lit "Matomo request did not complete within " ++ Seconds.brief limit ++
    lit " seconds (last status: " ++ (status?.map Text.ofInt).getD "none" ++ lit ")")

/-- The entry of a query that received the replies: that of a terminal reply, else the last error
that came, else that none came in time. -/
def referenceEntry {τ : Type} [Seconds τ] (limit : τ) (replies : List Reply) : Json :=
  (((replies.find? Reply.isTerminal).bind Reply.entry?).or
    (replies.filterMap Reply.entry?).getLast?).getD
      (unanswered limit (replies.getLast?.map Reply.status))

theorem Reply.parse_or_failed {r : Reply} {entry : Json} (h : r.entry? = some entry) :
    Json.parse r.content = .ok entry ∨ ∃ message, entry = Entry.failed message := by
  unfold entry? at h
  split at h
  · split at h
    · cases h
      exact .inr ⟨_, rfl⟩
    · rename_i payload hparse
      cases h
      exact .inl hparse
  · split at h
    · cases h
    · cases h
      exact .inr ⟨_, rfl⟩

/-- An entry is what one of the replies says, or an error of the dispatcher. -/
theorem referenceEntry_origin {τ : Type} [Seconds τ] (limit : τ) (replies : List Reply) :
    (∃ r ∈ replies, Json.parse r.content = .ok (referenceEntry limit replies)) ∨
      ∃ message, referenceEntry limit replies = Entry.failed message := by
  unfold referenceEntry
  cases hentry : ((replies.find? Reply.isTerminal).bind Reply.entry?).or
      (replies.filterMap Reply.entry?).getLast? with
  | none => exact .inr ⟨_, rfl⟩
  | some entry =>
      have horigin : ∃ r ∈ replies, r.entry? = some entry := by
        rcases Option.or_eq_some_iff.mp hentry with hterminal | ⟨-, hlast⟩
        · obtain ⟨r, hfound, hr⟩ := Option.bind_eq_some_iff.mp hterminal
          exact ⟨r, List.mem_of_find?_eq_some hfound, hr⟩
        · exact List.mem_filterMap.mp (List.mem_of_getLast? hlast)
      obtain ⟨r, hmem, hr⟩ := horigin
      exact (Reply.parse_or_failed hr).imp_left fun hparse => ⟨r, hmem, hparse⟩

def repliesTo (query : Text) (replies : List (Text × Reply)) : List Reply :=
  (replies.filter fun reply => reply.1 = query).map Prod.snd

def IsOpen (replies : List (Text × Reply)) (query : Text) : Prop :=
  ∀ r ∈ repliesTo query replies, r.isTerminal = false

instance (replies : List (Text × Reply)) : DecidablePred (IsOpen replies) :=
  fun query => inferInstanceAs (Decidable (∀ r ∈ repliesTo query replies, r.isTerminal = false))

namespace Reply

variable {query : Text} {r : Reply} {verdict : Verdict} {payload : Json}

theorem isTemporary_eq {temporary : Bool} (h : isTemporary payload = .ok temporary) :
    temporary = !isPermanent payload := by
  unfold isTemporary at h
  unfold isPermanent
  generalize Entry.message payload = message at h ⊢
  cases message with
  | string t =>
      cases h
      cases t <;> rfl
  | _ =>
      dsimp only at h
      split at h <;> cases h
      rfl

theorem judgePayload_eq (h : judgePayload query payload = .ok verdict) :
    verdict.entry? = some payload ∧
      verdict.isFinal = (!Entry.isError payload || isPermanent payload) := by
  unfold judgePayload at h
  split at h
  · rename_i herror
    obtain ⟨temporary, htemporary, h⟩ := bind_eq_ok.mp h
    have hpermanent := isTemporary_eq htemporary
    subst hpermanent
    cases hp : isPermanent payload <;> rw [hp] at h <;> cases h <;>
      simp [Verdict.entry?, Verdict.isFinal, herror]
  · rename_i herror
    cases h
    simp [Verdict.entry?, Verdict.isFinal, herror]

/-- What is done with a reply depends on the reply only. -/
theorem judge_eq (h : r.judge query = .ok verdict) :
    verdict.entry? = r.entry? ∧ verdict.isFinal = r.isTerminal := by
  unfold judge at h
  unfold entry? isTerminal
  split at h
  · rename_i hsuccess
    rw [if_pos hsuccess, if_pos hsuccess]
    cases hparse : Json.parse r.content with
    | ok payload =>
        rw [hparse] at h
        exact judgePayload_eq h
    | error e => cases e with
        | malformed =>
            rw [hparse] at h
            cases h
            exact ⟨rfl, rfl⟩
        | integerTooLong =>
            rw [hparse] at h
            cases h
  · rename_i hsuccess
    rw [if_neg hsuccess, if_neg hsuccess]
    cases h
    unfold judgeFailure
    dsimp only
    split
    · rename_i hretry
      exact ⟨rfl, by rw [hretry]; rfl⟩
    · rename_i hretry
      exact ⟨rfl, by simp [Verdict.isFinal, hretry]⟩

theorem exists_entry (h : r.isTerminal = true) : ∃ entry, r.entry? = some entry := by
  unfold isTerminal at h
  unfold entry?
  split at h
  · split
    · split <;> exact ⟨_, rfl⟩
    · contradiction
  · rename_i hsuccess
    rw [if_neg hsuccess, if_neg (by simpa using h)]
    exact ⟨_, rfl⟩

theorem isError_of_not_terminal {entry : Json} (h : r.isTerminal = false)
    (he : r.entry? = some entry) : Entry.isError entry = true := by
  unfold isTerminal at h
  unfold entry? at he
  split at h
  · rename_i hsuccess
    rw [if_pos hsuccess] at he
    split at h
    · cases h
    · rename_i payload hparse
      rw [hparse] at he
      cases he
      simp at h
      exact h.1
  · rename_i hsuccess
    rw [if_neg hsuccess, if_pos (by simpa using h)] at he
    cases he

end Reply

end MetricBridge
