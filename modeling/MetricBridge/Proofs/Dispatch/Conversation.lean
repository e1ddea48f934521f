import MetricBridge.Proofs.Dispatch.Idling

namespace MetricBridge

variable {σ τ α β : Type}

def batches (events : List (Event τ)) : List (List FetchRequest) :=
  events.reverse.filterMap fun
    | .fetch batch => some batch
    | _ => none

def answers (fetcher : Fetcher τ) (number : Nat) (batch : List FetchRequest) :
    List (Text × Reply) :=
  match (fetcher number batch).outcome with
  | .ok replies => (batch.map (·.query)).zip replies
  | .error _ => []

/-- Only requests of the batch are answered, each of them once. -/
theorem answers_sublist (fetcher : Fetcher τ) (number : Nat) (batch : List FetchRequest) :
    ((answers fetcher number batch).map Prod.fst).Sublist (batch.map (·.query)) := by
  unfold answers
  split
  · rw [List.zip_eq_zip_take_min, List.map_fst_zip (by simp)]
    exact List.take_sublist _ _
  · exact List.nil_sublist _

def Fetched.MayPass (fetched : Fetched τ) : Prop :=
  ∀ fault, fetched.outcome = .error fault →
    Retry.isQuota fault.message = false ∧ Retry.isTransient fault.message = true

def conversation (fetcher : Fetcher τ) : Nat → List (List FetchRequest) → List (Text × Reply)
  | _, [] => []
  | number, batch :: more => answers fetcher number batch ++ conversation fetcher (number + 1) more

theorem conversation_append (fetcher : Fetcher τ) (number : Nat)
    (sent more : List (List FetchRequest)) : conversation fetcher number (sent ++ more) =
      conversation fetcher number sent ++ conversation fetcher (number + sent.length) more := by
  induction sent generalizing number with
  | nil => rfl
  | cons batch sent ih =>
      rw [List.cons_append, conversation, conversation, ih, List.append_assoc, List.length_cons,
        Nat.add_right_comm, Nat.add_assoc]

theorem conversation_snoc (fetcher : Fetcher τ) (number : Nat) (sent : List (List FetchRequest))
    (batch : List FetchRequest) : conversation fetcher number (sent ++ [batch]) =
      conversation fetcher number sent ++ answers fetcher (number + sent.length) batch := by
  rw [conversation_append, conversation, conversation, List.append_nil]

def Sends (w : World σ τ) (sent : List (List FetchRequest)) (w' : World σ τ) : Prop :=
  ∃ new, w'.events = new ++ w.events ∧ w'.fetches = w.fetches + sent.length ∧ sent = batches new

theorem batches_append (new old : List (Event τ)) :
    batches (new ++ old) = batches old ++ batches new := by
  simp [batches]

namespace Sends

variable {w w' w'' : World σ τ} {sent more : List (List FetchRequest)}

theorem nothing (he : w'.events = w.events) (hf : w'.fetches = w.fetches) : Sends w [] w' :=
  ⟨[], he, hf, rfl⟩

theorem trans (h : Sends w sent w') (h' : Sends w' more w'') : Sends w (sent ++ more) w'' := by
  obtain ⟨new, he, hf, rfl⟩ := h
  obtain ⟨new', he', hf', rfl⟩ := h'
  refine ⟨new' ++ new, by rw [he', he, List.append_assoc], ?_, (batches_append new' new).symm⟩
  rw [hf', hf, List.length_append, Nat.add_assoc]

theorem fetches_eq (h : Sends w sent w') : w'.fetches = w.fetches + sent.length := by
  obtain ⟨new, -, hf, -⟩ := h
  exact hf

end Sends

theorem batches_eq (events : List (Event τ)) : batches events = batchesOf (timeline events) := by
  unfold batches batchesOf timeline
  rw [List.filterMap_filter]
  congr
  funext event
  cases event <;> rfl

section

variable {w w' : World σ τ}

theorem Still.sends (h : Still w w') : Sends w [] w' := by
  obtain ⟨new, he, hnew⟩ := h.events
  exact ⟨new, he, h.fetches, by rw [batches_eq, hnew]; rfl⟩

theorem Elapses.sends [Seconds τ] {fetcher : Fetcher τ} {trace : List (Event τ)}
    (h : Elapses fetcher w trace w') : Sends w (batchesOf trace) w' := by
  obtain ⟨new, he, rfl⟩ := h.events
  exact ⟨new, he, h.fetches, (batches_eq new).symm⟩

end

namespace Run

variable [Seconds τ] {w w' : World σ τ}

theorem elapses_bind {x : Run σ τ α} {f : α → Run σ τ β} {result : Except Failure β}
    {fetcher : Fetcher τ} {trace : List (Event τ)}
    (hx : ∀ result w', Ends x w result w' → Elapses fetcher w trace w') (hf : ∀ a, Idle (f a))
    (h : Ends (x >>= f) w result w') : Elapses fetcher w trace w' := by
  obtain ⟨failure, -, h⟩ | ⟨a, w₁, h, h'⟩ := ends_bind h
  · exact hx _ _ h
  · exact (hx _ _ h).still (hf a h')

theorem ends_fetch {fetcher : Fetcher τ} {batch : List FetchRequest}
    {result : Except Failure (Except FetchFault (List Reply))}
    (h : Ends (fetch fetcher batch) w result w') :
    result = .ok (fetcher w.fetches batch).outcome ∧ Elapses fetcher w [.fetch batch] w' := by
  cases h
  exact ⟨rfl, ⟨[.fetch batch], rfl, rfl⟩, rfl, rfl⟩

theorem ends_sleep (fetcher : Fetcher τ) {seconds : τ} {result : Except Failure Unit}
    (h : Ends (sleep seconds) w result w') :
    result = .ok () ∧ Elapses fetcher w [.sleep seconds] w' := by
  cases h
  exact ⟨rfl, ⟨[.sleep seconds], rfl, rfl⟩, rfl, rfl⟩

end Run

namespace Dispatcher

open Run

variable [Seconds τ] {d : Dispatcher σ τ} {w w' : World σ τ}

theorem elapses_exchange {batch : List FetchRequest} {result : Except Failure (List Reply × Nat)}
    (h : Ends (d.exchange batch) w result w') : Elapses d.fetcher w [.fetch batch] w' := by
  unfold exchange at h
  refine elapses_bind (fun _ _ hfetch => (ends_fetch hfetch).2) (fun outcome => ?_) h
  cases outcome with
  | ok replies => exact .pure
  | error fault =>
      dsimp only
      repeat' first
        | exact .pure
        | exact .throw
        | exact .logged _
        | refine .bind ?_ fun _ => ?_
        | split

theorem returns_exchange {batch : List FetchRequest} {replies : List Reply} {lost : Nat}
    (h : Returns (d.exchange batch) w (replies, lost) w') :
    (batch.map (·.query)).zip replies = answers d.fetcher w.fetches batch := by
  obtain ⟨outcome, w₁, h, h'⟩ := returns_bind.mp h
  have houtcome : outcome = (d.fetcher w.fetches batch).outcome := Except.ok.inj (ends_fetch h).1
  unfold answers
  rw [← houtcome]
  cases outcome with
  | ok rs =>
      obtain ⟨hreplies, rfl⟩ := returns_pure.mp h'
      cases hreplies
      rfl
  | error fault =>
      dsimp only at h'
      split at h'
      · exact absurd h' not_returns_throw_bind
      · split at h'
        · exact absurd h' not_returns_throw_bind
        · obtain ⟨_, w₂, hlog, hpure⟩ := returns_bind.mp h'
          obtain ⟨hreplies, rfl⟩ := returns_pure.mp hpure
          cases hreplies
          exact List.zip_nil_right

theorem mayPass_of_returns {batch : List FetchRequest} {x : List Reply × Nat}
    (h : Returns (d.exchange batch) w x w') : (d.fetcher w.fetches batch).MayPass := by
  obtain ⟨outcome, w₁, h, h'⟩ := returns_bind.mp h
  have houtcome : outcome = (d.fetcher w.fetches batch).outcome := Except.ok.inj (ends_fetch h).1
  unfold Fetched.MayPass
  rw [← houtcome]
  rintro fault rfl
  dsimp only at h'
  split at h'
  · exact absurd h' not_returns_throw_bind
  · rename_i hquota
    split at h'
    · exact absurd h' not_returns_throw_bind
    · rename_i htransient
      exact ⟨by simpa using hquota, by simpa using htransient⟩

theorem exists_exchange {batch : List FetchRequest} (h : (d.fetcher w.fetches batch).MayPass) :
    ∃ received lost w', Returns (d.exchange batch) w (received, lost) w' := by
  obtain ⟨w₁, hfetch⟩ : ∃ w₁, Returns (Run.fetch d.fetcher batch) w
    (d.fetcher w.fetches batch).outcome w₁ := ⟨_, rfl⟩
  cases houtcome : (d.fetcher w.fetches batch).outcome with
  | ok replies =>
      rw [houtcome] at hfetch
      exact ⟨replies, 0, w₁, returns_bind.mpr ⟨_, w₁, hfetch, rfl⟩⟩
  | error fault =>
      rw [houtcome] at hfetch
      obtain ⟨hquota, htransient⟩ := h fault houtcome
      obtain ⟨w', hlog⟩ : ∃ w', Returns (log .warning (lit "Temporary fetch failure, retrying batch: " ++
        fault.message) : Run σ τ Unit) w₁ () w' := ⟨_, rfl⟩
      refine ⟨[], batch.length, w', returns_bind.mpr ⟨_, w₁, hfetch, ?_⟩⟩
      simp only [hquota, htransient]
      exact returns_bind.mpr ⟨(), w', hlog, rfl⟩

end Dispatcher
end MetricBridge
