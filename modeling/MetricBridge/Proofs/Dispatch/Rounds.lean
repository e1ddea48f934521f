import MetricBridge.Proofs.Dispatch.Turns
import MetricBridge.Proofs.Dispatch.Places
import MetricBridge.Proofs.Dispatch.Reference

namespace MetricBridge

open Run

variable {σ τ : Type} {queries : List Text} {query q : Text} {replies : List (Text × Reply)}
  {reply : Reply} {state state' : RetryState τ} {entries entries' : List Json}

theorem repliesTo_append (q : Text) (replies more : List (Text × Reply)) :
    repliesTo q (replies ++ more) = repliesTo q replies ++ repliesTo q more := by
  unfold repliesTo
  rw [List.filter_append, List.map_append]

theorem isOpen_append {more : List (Text × Reply)} :
    IsOpen (replies ++ more) q ↔ IsOpen replies q ∧ IsOpen more q := by
  unfold IsOpen
  rw [repliesTo_append]
  exact List.forall_mem_append

theorem repliesTo_snoc (q query : Text) (replies : List (Text × Reply)) (reply : Reply) :
    repliesTo q (replies ++ [(query, reply)]) =
      if query = q then repliesTo q replies ++ [reply] else repliesTo q replies := by
  rw [repliesTo_append]
  unfold repliesTo
  by_cases hq : query = q
  · simp [hq]
  · simp [hq]

theorem repliesTo_eq_nil (h : q ∉ replies.map Prod.fst) : repliesTo q replies = [] := by
  unfold repliesTo
  rw [List.filter_eq_nil_iff.mpr, List.map_nil]
  intro pair hpair hq
  exact h (List.mem_map.mpr ⟨pair, hpair, of_decide_eq_true hq⟩)

def standingEntry (replies : List Reply) : Json :=
  (replies.filterMap Reply.entry?).getLast?.getD .null

theorem standingEntry_snoc (replies : List Reply) (reply : Reply) :
    standingEntry (replies ++ [reply]) = reply.entry?.getD (standingEntry replies) := by
  unfold standingEntry
  rw [List.filterMap_append]
  cases h : reply.entry? with
  | none => simp [h]
  | some entry => simp [h]

def Answered (replies : List Reply) : Prop :=
  ∃ earlier last, replies = earlier ++ [last] ∧ last.isTerminal = true ∧
    ∀ r ∈ earlier, r.isTerminal = false

structure Tracks (queries : List Text) (replies : List (Text × Reply)) (state : RetryState τ)
    (entries : List Json) : Prop where
  nodup : (Entries.keys state.pending).Nodup
  places : ∀ {q places}, Entries.find? q state.pending = some places → PlacesOf queries q places
  mem : ∀ {q}, q ∈ Entries.keys state.pending → q ∈ queries
  unanswered : ∀ {q}, q ∈ Entries.keys state.pending →
    ∀ r ∈ repliesTo q replies, r.isTerminal = false
  answered : ∀ {q}, q ∈ queries → q ∉ Entries.keys state.pending → Answered (repliesTo q replies)
  status : ∀ q, Entries.find? q state.lastStatus =
    (repliesTo q replies).getLast?.map Reply.status
  entries_eq : entries = queries.map fun q => standingEntry (repliesTo q replies)

theorem tracks_initial (queries : List Text) (wait start : τ) :
    Tracks queries [] (RetryState.initial queries wait start)
      (List.replicate queries.length Json.null) where
  nodup := (placed_initial queries wait start).nodup
  places := (placed_initial queries wait start).places
  mem := ((placed_initial queries wait start).mem_keys _).mp
  unanswered _ := nofun
  answered hq hpending := absurd (((placed_initial queries wait start).mem_keys _).mpr hq) hpending
  status _ := rfl
  entries_eq := List.map_const'.symm

theorem mem_keys_after (h : (Entries.keys state.pending).Nodup) :
    q ∈ Entries.keys (state.after query reply).pending ↔
      q ∈ Entries.keys state.pending ∧ (reply.isTerminal = true → q ≠ query) := by
  unfold RetryState.after
  dsimp only
  split
  · rename_i hterminal
    rw [Entries.mem_keys_erase h]
    exact ⟨fun ⟨hne, hq⟩ => ⟨hq, fun _ => hne⟩, fun ⟨hq, hne⟩ => ⟨hne hterminal, hq⟩⟩
  · rename_i hterminal
    exact ⟨fun hq => ⟨hq, fun ht => absurd ht hterminal⟩, And.left⟩

namespace Tracks

theorem entries_after (h : Tracks queries replies state entries)
    (hquery : query ∈ Entries.keys state.pending) (reply : Reply) :
    entriesAfter state entries query reply =
      queries.map fun q => standingEntry (repliesTo q (replies ++ [(query, reply)])) := by
  obtain ⟨places, hplaces⟩ := Entries.mem_keys_iff.mp hquery
  unfold entriesAfter
  rw [h.entries_eq, hplaces]
  cases hentry : reply.entry? with
  | none =>
      refine List.map_congr_left fun q _ => ?_
      rw [repliesTo_snoc]
      split
      · rw [standingEntry_snoc, hentry]
        rfl
      · rfl
  | some entry =>
      dsimp only [Option.getD_some]
      rw [placeEntry_map (h.places hplaces)]
      refine List.map_congr_left fun q _ => ?_
      rw [repliesTo_snoc]
      by_cases hq : q = query
      · rw [if_pos hq, if_pos hq.symm, standingEntry_snoc, hentry]
        rfl
      · rw [if_neg hq, if_neg (Ne.symm hq)]

theorem after (h : Tracks queries replies state entries)
    (hquery : query ∈ Entries.keys state.pending) (reply : Reply) :
    Tracks queries (replies ++ [(query, reply)]) (state.after query reply)
      (entriesAfter state entries query reply) where
  nodup := by
    unfold RetryState.after
    dsimp only
    split
    · exact Entries.nodup_keys_erase h.nodup
    · exact h.nodup
  places := by
    intro q places hfind
    have hq := (mem_keys_after h.nodup).mp (Entries.mem_keys_iff.mpr ⟨places, hfind⟩)
    unfold RetryState.after at hfind
    dsimp only at hfind
    split at hfind
    · rename_i hterminal
      rw [Entries.find?_erase_of_ne (Ne.symm (hq.2 hterminal))] at hfind
      exact h.places hfind
    · exact h.places hfind
  mem hq := h.mem ((mem_keys_after h.nodup).mp hq).1
  unanswered := by
    intro q hq r hr
    obtain ⟨hq, hterminal⟩ := (mem_keys_after h.nodup).mp hq
    rw [repliesTo_snoc] at hr
    split at hr
    · rename_i heq
      rcases List.mem_append.mp hr with hr | hr
      · exact h.unanswered hq r hr
      · cases List.mem_singleton.mp hr
        exact Bool.eq_false_iff.mpr fun ht => hterminal ht heq.symm
    · exact h.unanswered hq r hr
  answered := by
    intro q hq hpending
    rw [repliesTo_snoc]
    -- the query was answered by this reply or by an earlier one
    by_cases hkey : q ∈ Entries.keys state.pending
    · have hterminal : reply.isTerminal = true ∧ q = query := by
        by_contra hne
        exact hpending ((mem_keys_after h.nodup).mpr ⟨hkey, fun ht heq => hne ⟨ht, heq⟩⟩)
      rw [if_pos hterminal.2.symm]
      exact ⟨_, reply, rfl, hterminal.1, h.unanswered hkey⟩
    · have hne : query ≠ q := fun heq => hkey (heq ▸ hquery)
      rw [if_neg hne]
      exact h.answered hq hkey
  status := by
    intro q
    change Entries.find? q (Entries.set query reply.status state.lastStatus) = _
    rw [Entries.find?_set, repliesTo_snoc]
    split
    · simp
    · exact h.status q
  entries_eq := h.entries_after hquery reply

theorem terminal_last (h : Tracks queries replies state entries) (hq : q ∈ queries) :
    ∀ r ∈ (repliesTo q replies).dropLast, r.isTerminal = false := by
  intro r hr
  by_cases hkey : q ∈ Entries.keys state.pending
  · exact h.unanswered hkey r (List.dropLast_subset _ hr)
  · obtain ⟨earlier, last, heq, -, hearlier⟩ := h.answered hq hkey
    rw [heq, List.dropLast_concat] at hr
    exact hearlier r hr

theorem mem_keys_of_open (h : Tracks queries replies state entries) (hq : q ∈ queries)
    (hopen : ∀ r ∈ repliesTo q replies, r.isTerminal = false) : q ∈ Entries.keys state.pending := by
  by_contra hkey
  obtain ⟨earlier, last, heq, hlast, -⟩ := h.answered hq hkey
  have hmem : last ∈ repliesTo q replies := by
    rw [heq]
    exact List.mem_append_right earlier List.mem_cons_self
  rw [hopen last hmem] at hlast
  cases hlast

theorem mem_keys_iff (h : Tracks queries replies state entries) :
    q ∈ Entries.keys state.pending ↔ q ∈ queries ∧ IsOpen replies q :=
  ⟨fun hq => ⟨h.mem hq, h.unanswered hq⟩, fun hq => h.mem_keys_of_open hq.1 hq.2⟩

theorem isDone_iff (h : Tracks queries replies state entries) :
    state.isDone = false ↔ ∃ q ∈ queries, IsOpen replies q := by
  constructor
  · intro hdone
    have hpending : state.pending ≠ [] := by
      intro hnil
      rw [RetryState.isDone, hnil] at hdone
      cases hdone
    obtain ⟨p, hp⟩ := List.exists_mem_of_ne_nil _ hpending
    exact ⟨p.1, h.mem_keys_iff.mp (List.mem_map_of_mem hp)⟩
  · rintro ⟨q, hq, hopen⟩
    have hkey := h.mem_keys_iff.mpr ⟨hq, hopen⟩
    cases hpending : state.pending with
    | nil => rw [hpending] at hkey; cases hkey
    | cons p pending => simp [RetryState.isDone, hpending]

/-- What is pending after further replies was pending before them. -/
theorem pending_before {more : List (Text × Reply)} (h : Tracks queries replies state entries)
    (h' : Tracks queries (replies ++ more) state' entries')
    (hq : q ∈ Entries.keys state'.pending) : q ∈ Entries.keys state.pending := by
  refine h.mem_keys_of_open (h'.mem hq) fun r hr => h'.unanswered hq r ?_
  rw [repliesTo_append]
  exact List.mem_append_left _ hr

theorem congr (h : Tracks queries replies state entries)
    (hpending : state'.pending = state.pending) (hstatus : state'.lastStatus = state.lastStatus) :
    Tracks queries replies state' entries := by
  obtain ⟨pending, wait, start, rounds, lastStatus⟩ := state
  obtain ⟨pending', wait', start', rounds', lastStatus'⟩ := state'
  cases hpending
  cases hstatus
  exact ⟨h.nodup, h.places, h.mem, h.unanswered, h.answered, h.status, h.entries_eq⟩

end Tracks

variable {w w' : World σ τ} {failed failed' : Nat}

open Dispatcher

theorem tracks_settle {pairs : List (Text × Reply)}
    (h : Returns (settle state entries failed pairs) w (state', entries', failed') w')
    (ht : Tracks queries replies state entries) (hnodup : (pairs.map Prod.fst).Nodup)
    (hpending : ∀ pair ∈ pairs, pair.1 ∈ Entries.keys state.pending) :
    Tracks queries (replies ++ pairs) state' entries' := by
  induction pairs generalizing state entries failed replies w with
  | nil =>
      obtain ⟨heq, rfl⟩ := returns_pure.mp h
      cases heq
      rwa [List.append_nil]
  | cons pair pairs ih =>
      obtain ⟨query, reply⟩ := pair
      obtain ⟨hquery, hnodup⟩ := List.nodup_cons.mp hnodup
      obtain ⟨hkey, hkeys⟩ := List.forall_mem_cons.mp hpending
      obtain ⟨-, w₁, failed₁, h⟩ := returns_settle_cons h
      -- no query occurs twice in a batch, so the others stay pending
      have hrest : ∀ pair ∈ pairs, pair.1 ∈ Entries.keys (state.after query reply).pending := by
        intro pair hpair
        refine (mem_keys_after ht.nodup).mpr ⟨hkeys pair hpair, fun _ heq => hquery ?_⟩
        exact List.mem_map.mpr ⟨pair, hpair, heq⟩
      have htracks := ih h (ht.after hkey reply) hnodup hrest
      rwa [List.append_assoc] at htracks

variable [Seconds τ] {d : Dispatcher σ τ} {options : FetchOptions} {target : Target}

/-- A round asks the pending queries and takes over the replies to them. -/
theorem tracks_round (h : Returns (d.round options target state entries) w (state', entries') w')
    (ht : Tracks queries replies state entries) :
    Tracks queries (replies ++ answers d.fetcher w.fetches (target.batch state)) state' entries' := by
  obtain ⟨⟨lost, failed, v, v', hsettle⟩, -, rfl, -⟩ := returns_round h
  have hasked := answers_sublist d.fetcher w.fetches (target.batch state)
  rw [batch_queries] at hasked
  have hkeys : ∀ pair ∈ answers d.fetcher w.fetches (target.batch state),
      pair.1 ∈ Entries.keys state.pending :=
    fun pair hpair => hasked.subset (List.mem_map_of_mem hpair)
  exact (tracks_settle hsettle ht (ht.nodup.sublist hasked) hkeys).congr rfl rfl

/-- What the rounds preserve. One takes place at least if anything is pending, and what is pending
at the end was asked in each of them. -/
theorem tracks_rounds {fuel : Nat}
    (h : Returns (d.rounds options target fuel state entries) w (state', entries') w')
    (ht : Tracks queries replies state entries) : ∃ sent, Sends w sent w' ∧
      Tracks queries (replies ++ conversation d.fetcher w.fetches sent) state' entries' ∧
      (sent = [] → state.isDone = true ∨ 0 < state.rounds) ∧
      ∀ q ∈ Entries.keys state'.pending, ∀ batch ∈ sent, q ∈ batch.map (·.query) := by
  induction fuel generalizing state entries replies w with
  | zero => exact absurd h not_returns_throw
  | succ fuel ih =>
      by_cases hstops : d.stops state w.now = true
      · obtain ⟨heq, rfl⟩ := (returns_rounds_of_stops hstops).mp h
        cases heq
        refine ⟨[], (Still.refl w').sends, by rwa [conversation, List.append_nil], fun _ => ?_,
          fun _ _ _ hbatch => absurd hbatch List.not_mem_nil⟩
        simp only [stops, Bool.or_eq_true, Bool.and_eq_true, decide_eq_true_eq] at hstops
        exact hstops.imp id And.left
      · obtain ⟨state₁, entries₁, w₁, hround, h⟩ := (returns_rounds_of_not_stops hstops).mp h
        have hfirst := (returns_round hround).2.2.2.sends
        rw [batchesOf_pause] at hfirst
        obtain ⟨more, hmore, htracks', -, hasked⟩ := ih h (tracks_round hround ht)
        rw [hfirst.fetches_eq, List.append_assoc] at htracks'
        refine ⟨target.batch state :: more, hfirst.trans hmore, htracks',
          fun hnil => absurd hnil (List.cons_ne_nil _ _), fun q hq => ?_⟩
        refine List.forall_mem_cons.mpr ⟨?_, hasked q hq⟩
        rw [batch_queries]
        exact ht.pending_before htracks' hq

end MetricBridge
