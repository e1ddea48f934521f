import MetricBridge.Proofs.Dispatch.Meets

namespace MetricBridge

variable {σ τ : Type} {w w' w'' : World σ τ}

def Puts (allowed : Text → Text → Int → Prop) (w w' : World σ τ) : Prop :=
  ∃ new, w'.events = new ++ w.events ∧
    ∀ key value ttl, Event.put key value ttl ∈ new → allowed key value ttl

namespace Puts

variable {allowed allowed' : Text → Text → Int → Prop}

theorem nothing (h : w'.events = w.events) : Puts allowed w w' := ⟨[], h, nofun⟩

theorem event (event : Event τ)
    (h : ∀ key value ttl, event = .put key value ttl → allowed key value ttl)
    (he : w'.events = event :: w.events) : Puts allowed w w' :=
  ⟨[event], he, fun key value ttl hput => h key value ttl (List.mem_singleton.mp hput).symm⟩

theorem trans (h : Puts allowed w w') (h' : Puts allowed w' w'') : Puts allowed w w'' := by
  obtain ⟨new, he, hnew⟩ := h
  obtain ⟨new', he', hnew'⟩ := h'
  refine ⟨new' ++ new, by rw [he', he, List.append_assoc], fun key value ttl hput => ?_⟩
  exact (List.mem_append.mp hput).elim (hnew' key value ttl) (hnew key value ttl)

theorem mono (hallowed : ∀ {key value ttl}, allowed key value ttl → allowed' key value ttl)
    (h : Puts allowed w w') : Puts allowed' w w' := by
  obtain ⟨new, he, hnew⟩ := h
  exact ⟨new, he, fun key value ttl hput => hallowed (hnew key value ttl hput)⟩

instance : Run.Overlooking (Puts allowed : World σ τ → World σ τ → Prop) where
  refl _ := nothing rfl
  trans := trans
  logged _ entry := event (.log entry) (fun _ _ _ => nofun) rfl
  stored _ _ := nothing rfl

end Puts

namespace Dispatcher

open Run

variable [Seconds τ] {d : Dispatcher σ τ} {options : FetchOptions} {target : Target}
  {R : World σ τ → World σ τ → Prop} [OverlookingLogs R]

theorem within_exchange (hfetch : ∀ batch, Within R (Run.fetch d.fetcher batch))
    (batch : List FetchRequest) : Within R (d.exchange batch) := by
  unfold exchange
  refine (hfetch batch).bind fun outcome => ?_
  cases outcome with
  | ok replies => exact .pure
  | error fault =>
      dsimp only
      repeat' first
        | exact .pure
        | exact .throw
        | exact .logged _
        | refine .bind ?_ fun _ => ?_
        | split

theorem within_round (hfetch : ∀ batch, Within R (Run.fetch d.fetcher batch))
    (hsleep : ∀ seconds, Within R (Run.sleep seconds : Run σ τ Unit)) (state : RetryState τ)
    (entries : List Json) : Within R (d.round options target state entries) := by
  rw [round_eq]
  refine (d.within_prepare options target state).bind fun _ => ?_
  refine (within_exchange hfetch _).bind fun (replies, lost) => ?_
  refine (within_settle state entries lost _).bind fun (state, entries, failed) => ?_
  unfold conclude
  refine Within.now.bind fun now => ?_
  split
  · exact .pure
  · exact (Within.logged _).bind fun _ => (hsleep _).bind fun _ => .pure

theorem within_rounds (hfetch : ∀ batch, Within R (Run.fetch d.fetcher batch))
    (hsleep : ∀ seconds, Within R (Run.sleep seconds : Run σ τ Unit)) (fuel : Nat)
    (state : RetryState τ) (entries : List Json) :
    Within R (d.rounds options target fuel state entries) := by
  induction fuel generalizing state entries with
  | zero => exact .throw
  | succ fuel ih =>
      rw [rounds_succ]
      refine Within.now.bind fun now => ?_
      split
      · exact .pure
      · exact (within_round hfetch hsleep state entries).bind fun _ => ih _ _

variable {requests : List Request} {state : RetryState τ} {entries entries' : List Json}
  {result : Except Failure (List Json)}

theorem within_gather (hfetch : ∀ batch, Within R (Run.fetch d.fetcher batch))
    (hsleep : ∀ seconds, Within R (Run.sleep seconds : Run σ τ Unit)) :
    Within R (d.gather requests options) := by
  refine (within_target d options).bind fun target => (within_announce d requests).bind fun _ => ?_
  refine Within.now.bind fun start => (within_rounds hfetch hsleep _ _ _).bind fun x => ?_
  exact within_complete d x.1 x.2

/-- Nothing is put into the store while entries are gathered. -/
theorem puts_gather (allowed : Text → Text → Int → Prop) :
    Within (Puts allowed) (d.gather requests options) := by
  refine within_gather (fun batch => ?_) fun seconds => ?_
  · intro w result w' h
    cases h
    exact .event (.fetch batch) (fun _ _ _ => nofun) rfl
  · intro w result w' h
    cases h
    exact .event (.sleep seconds) (fun _ _ _ => nofun) rfl

theorem strictFailure?_eq_none (hlength : entries.length = requests.length) :
    strictFailure? requests entries = none ↔ ∀ entry ∈ entries, Entry.isError entry = false := by
  have hzip : (requests.zip entries).map Prod.snd = entries :=
    List.map_snd_zip (Nat.le_of_eq hlength)
  have hnone : strictFailure? requests entries = none ↔
      (requests.zip entries).filter (fun pair => Entry.isError pair.2) = [] := by
    unfold strictFailure?
    split
    · rename_i hnil
      exact iff_of_true rfl hnil
    · rename_i hone
      exact iff_of_false nofun (by rw [hone]; nofun)
    · rename_i hnil _
      exact iff_of_false nofun hnil
  rw [hnone, List.filter_eq_nil_iff]
  constructor
  · intro h entry hentry
    rw [← hzip] at hentry
    obtain ⟨pair, hpair, rfl⟩ := List.mem_map.mp hentry
    exact Bool.eq_false_iff.mpr (h pair hpair)
  · intro h pair hpair
    have hentry : pair.2 ∈ entries := hzip ▸ List.mem_map_of_mem hpair
    exact Bool.eq_false_iff.mp (h pair.2 hentry)

end Dispatcher

structure Call where
  requests : List Request
  options : FetchOptions

structure Call.MayPut (call : Call) (key value : Text) (ttl : Int) : Prop where
  key : call.options.storeKey? = some key
  ttl : ttl = call.options.cacheTtl
  entries : ∃ entries, value = (Json.array entries).print ∧
    entries.length = call.requests.length ∧
    (call.options.strict = true → ∀ entry ∈ entries, Entry.isError entry = false)

namespace Dispatcher

open Run

variable [Seconds τ] {d : Dispatcher σ τ} {call : Call} {entries : List Json}

theorem puts_writeEntries {key : Text} (hkey : call.options.storeKey? = some key)
    (hlength : entries.length = call.requests.length)
    (hnone : call.options.strict = true → ∀ entry ∈ entries, Entry.isError entry = false) :
    Within (Puts call.MayPut) (d.writeEntries key entries call.options.cacheTtl) := by
  refine within_writeEntries d ?_
  intro w result w' h
  cases h
  refine .event _ ?_ rfl
  rintro _ _ _ ⟨⟩
  exact ⟨hkey, rfl, entries, rfl, hlength, hnone⟩

theorem puts_finish (hlength : entries.length = call.requests.length) :
    Within (Puts call.MayPut) (d.finish call.requests call.options entries) := by
  rw [finish_eq]
  cases hcomplaint : complaint? call.requests call.options entries with
  | some failure => exact .throw
  | none =>
      refine Within.bind ?_ fun _ => .pure
      unfold keep
      split
      · rename_i key hkey
        refine puts_writeEntries hkey hlength fun hstrict => ?_
        rw [complaint?_of_strict hstrict] at hcomplaint
        exact (strictFailure?_eq_none hlength).mp hcomplaint
      · exact .pure

theorem puts_dispatch : Within (Puts call.MayPut) (d.dispatch call.requests call.options) := by
  rw [dispatch_eq_gather]
  -- how many entries there are is known if they are gathered
  intro w result w' h
  obtain ⟨failure, -, hgather⟩ | ⟨entries, w₁, hgather, hfinish⟩ := ends_bind h
  · exact puts_gather _ hgather
  · exact (puts_gather _ hgather).trans (puts_finish (length_gather hgather) hfinish)

def lookUp (d : Dispatcher σ τ) (options : FetchOptions) : Run σ τ (Option (List Json)) :=
  match options.storeKey? with
  | none => pure none
  | some key => d.readEntries key

theorem fetchAll_eq (d : Dispatcher σ τ) (requests : List Request) (options : FetchOptions) :
    d.fetchAll requests options = (do
      match ← d.lookUp options with
      | some entries => return entries
      | none => d.dispatch requests options) := by
  unfold fetchAll lookUp
  cases options.storeKey? with
  | none => rfl
  | some key => rfl

theorem within_lookUp (d : Dispatcher σ τ) (options : FetchOptions)
    {R : World σ τ → World σ τ → Prop} [Overlooking R] : Within R (d.lookUp options) := by
  unfold lookUp
  split
  · exact .pure
  · exact within_readEntries d _

theorem puts_fetchAll : Within (Puts call.MayPut) (d.fetchAll call.requests call.options) := by
  rw [fetchAll_eq]
  refine (within_lookUp d call.options).bind fun found => ?_
  cases found with
  | some entries => exact .pure
  | none => exact puts_dispatch

def after (d : Dispatcher σ τ) (w : World σ τ) (calls : List Call) : World σ τ :=
  calls.foldl (fun w call =>
    (StateT.run (ExceptT.run (d.fetchAll call.requests call.options)) w).2) w

theorem puts_after (d : Dispatcher σ τ) (w : World σ τ) (calls : List Call) :
    Puts (fun key value ttl => ∃ call ∈ calls, call.MayPut key value ttl) w (d.after w calls) := by
  induction calls generalizing w with
  | nil => exact .nothing rfl
  | cons call calls ih =>
      obtain ⟨result, w', h⟩ := exists_ends (d.fetchAll call.requests call.options) w
      have hafter : d.after w (call :: calls) = d.after w' calls :=
        congrArg (fun ending => d.after ending.2 calls) h
      rw [hafter]
      refine ((puts_fetchAll h).mono fun hput => ?_).trans ((ih w').mono fun hput => ?_)
      · exact ⟨call, List.mem_cons_self, hput⟩
      · obtain ⟨later, hlater, hput⟩ := hput
        exact ⟨later, List.mem_cons_of_mem call hlater, hput⟩

end Dispatcher
end MetricBridge
