import MetricBridge.Proofs.Seconds
import MetricBridge.Proofs.Store.Recency

namespace MetricBridge.MemoryStore

variable {τ : Type} {s s' : MemoryStore τ} {now later used expires : τ} {key value : Text}
  {ttl capacity : Int} {gets : Nat}

theorem size_eq_length_keys (s : MemoryStore τ) : s.size = (Entries.keys s.values).length :=
  (List.length_map Prod.fst).symm

section Tables

variable [LinearOrder τ]

/-- The tables belong together: each value has a time of use, which is past and before its expiry. -/
structure Consistent (now : τ) (s : MemoryStore τ) : Prop where
  nodup : (Entries.keys s.values).Nodup
  keys_eq : Entries.keys s.uses = Entries.keys s.values
  size_le : (s.size : Int) ≤ max 1 s.capacity
  used_le : ∀ {key used}, Entries.find? key s.uses = some used → used ≤ now
  used_lt : ∀ {key used value expires}, Entries.find? key s.uses = some used →
    Entries.find? key s.values = some (value, expires) → used < expires

namespace Consistent

theorem empty (now : τ) (capacity : Int) : Consistent now (empty capacity) where
  nodup := List.nodup_nil
  keys_eq := rfl
  size_le := by simp [MemoryStore.empty, size]
  used_le := nofun
  used_lt := nofun

theorem clear (now : τ) (s : MemoryStore τ) : Consistent now s.clear where
  nodup := List.nodup_nil
  keys_eq := rfl
  size_le := by simp [MemoryStore.clear, size]
  used_le := nofun
  used_lt := nofun

theorem wait (h : Consistent now s) (hle : now ≤ later) : Consistent later s where
  nodup := h.nodup
  keys_eq := h.keys_eq
  size_le := h.size_le
  used_le := fun hused => (h.used_le hused).trans hle
  used_lt := h.used_lt

theorem congr (h : Consistent now s) (hvalues : s'.values = s.values) (huses : s'.uses = s.uses)
    (hcapacity : s'.capacity = s.capacity) : Consistent now s' := by
  obtain ⟨capacity, values, uses, hits, misses, evictions⟩ := s'
  subst hvalues huses hcapacity
  exact ⟨h.nodup, h.keys_eq, h.size_le, h.used_le, h.used_lt⟩

theorem mem_keys_iff (h : Consistent now s) :
    key ∈ Entries.keys s.uses ↔ key ∈ Entries.keys s.values := by
  rw [h.keys_eq]

theorem erase (h : Consistent now s) (hvalues : s'.values = Entries.erase key s.values)
    (huses : s'.uses = Entries.erase key s.uses) (hcapacity : s'.capacity = s.capacity) :
    Consistent now s' where
  nodup := by
    rw [hvalues]
    exact Entries.nodup_keys_erase h.nodup
  keys_eq := by rw [hvalues, huses, Entries.keys_erase, Entries.keys_erase, h.keys_eq]
  size_le := by
    have hlength := (Entries.keys_erase_sublist key s.values).length_le
    have hsize := h.size_le
    rw [size_eq_length_keys] at hsize
    rw [size_eq_length_keys, hvalues, hcapacity]
    omega
  used_le := by
    intro other used hused
    rw [huses] at hused
    exact h.used_le (Entries.find?_of_erase (h.keys_eq ▸ h.nodup) hused)
  used_lt := by
    intro other used value expires hused hvalue
    rw [huses] at hused
    rw [hvalues] at hvalue
    exact h.used_lt (Entries.find?_of_erase (h.keys_eq ▸ h.nodup) hused)
      (Entries.find?_of_erase h.nodup hvalue)

theorem enter (h : Consistent now s) (hlt : now < expires)
    (hroom : key ∉ Entries.keys s.values → (s.size : Int) + 1 ≤ max 1 s.capacity)
    (hvalues : s'.values = Entries.set key (value, expires) s.values)
    (huses : s'.uses = Entries.set key now s.uses) (hcapacity : s'.capacity = s.capacity) :
    Consistent now s' where
  nodup := by
    rw [hvalues]
    exact Entries.nodup_keys_set h.nodup
  keys_eq := by rw [hvalues, huses, Entries.keys_set, Entries.keys_set, h.keys_eq]
  size_le := by
    have hsize := h.size_le
    rw [size_eq_length_keys] at hsize hroom
    rw [size_eq_length_keys, hvalues, hcapacity, Entries.keys_set]
    split
    · exact hsize
    · rename_i hkey
      rw [List.length_append, List.length_singleton]
      exact_mod_cast hroom hkey
  used_le := by
    intro other used hused
    rw [huses, Entries.find?_set] at hused
    split at hused
    · cases hused
      exact le_rfl
    · exact h.used_le hused
  used_lt := by
    intro other used text limit hused hvalue
    rw [huses, Entries.find?_set] at hused
    rw [hvalues, Entries.find?_set] at hvalue
    split at hused
    · rename_i heq
      rw [if_pos heq] at hvalue
      cases hused
      cases hvalue
      exact hlt
    · rename_i hne
      rw [if_neg hne] at hvalue
      exact h.used_lt hused hvalue

end Consistent
end Tables

section Steps

variable [Seconds τ]

theorem mem_of_oldest? {uses : Entries Text τ} {e : Text × τ} (h : oldest? uses = some e) :
    e ∈ uses := by
  induction uses generalizing e with
  | nil => cases h
  | cons d uses ih =>
      rw [oldest?] at h
      split at h
      · rename_i l u hrest
        split at h
        · cases h
          exact List.mem_cons_of_mem _ (ih hrest)
        · cases h
          exact List.mem_cons_self
      · cases h
        exact List.mem_cons_self

theorem requests_get (now : τ) (key : Text) (s : MemoryStore τ) :
    (get now key s).state.requests = s.requests + 1 := by
  simp only [get, requests]
  split
  · exact (Nat.add_assoc _ _ _).symm
  · split
    · exact (Nat.add_assoc _ _ _).symm
    · exact Nat.add_right_comm _ _ _

theorem requests_makeRoom (key : Text) (s : MemoryStore τ) :
    (s.makeRoom key).1.requests = s.requests := by
  simp only [makeRoom, evict]
  split
  · split <;> rfl
  · rfl

theorem requests_put (now : τ) (key value : Text) (ttl : Int) (s : MemoryStore τ) :
    (put now key value ttl s).state.requests = s.requests := by
  simp only [put]
  split
  · rfl
  · split <;> exact requests_makeRoom key s

end Steps

variable [Seconds τ] [LinearOrder τ]

namespace Consistent

theorem mem_of_oldest? (h : Consistent now s) (holdest : oldest? s.uses = some (key, used)) :
    key ∈ Entries.keys s.uses ∧ key ∈ Entries.keys s.values := by
  have hmem : key ∈ Entries.keys s.uses := List.mem_map_of_mem (MemoryStore.mem_of_oldest? holdest)
  exact ⟨hmem, h.mem_keys_iff.mp hmem⟩

theorem makeRoom (h : Consistent now s) (key : Text) : Consistent now (s.makeRoom key).1 := by
  rcases makeRoom_cases key s with hsame | ⟨victim, hvalues, huses⟩
  · rw [hsame]
    exact h
  · exact h.erase hvalues huses (capacity_makeRoom key s)

/-- A new key finds room: the store was not full, or it was empty, or an entry was removed. -/
theorem size_makeRoom (h : Consistent now s) (hkey : key ∉ Entries.keys s.values) :
    ((s.makeRoom key).1.size : Int) + 1 ≤ max 1 s.capacity := by
  by_cases hfull : s.capacity ≤ s.size
  · rw [makeRoom_of_full hfull hkey, evict]
    cases holdest : oldest? s.uses with
    | none =>
        have hempty : Entries.keys s.values = [] := by
          rw [← h.keys_eq, oldest?_eq_none holdest]
          rfl
        simp [size_eq_length_keys, hempty]
    | some entry =>
        have hmem : entry.1 ∈ Entries.keys s.values := (h.mem_of_oldest? holdest).2
        have hlength := Entries.length_keys_erase hmem
        have hsize := h.size_le
        rw [size_eq_length_keys] at hsize
        simp only [size_eq_length_keys]
        omega
  · have hroom : s.makeRoom key = (s, []) := if_neg fun hroom => hfull hroom.1
    have hsize : (s.size : Int) < s.capacity := not_le.mp hfull
    rw [hroom]
    exact (Int.add_one_le_of_lt hsize).trans (le_max_right 1 s.capacity)

variable [AddCommGroup τ] [Seconds.Exact τ]

theorem get (h : Consistent now s) (key : Text) : Consistent now (get now key s).state := by
  cases hfind : Entries.find? key s.values with
  | none =>
      rw [get_missing hfind]
      exact h.congr rfl rfl rfl
  | some entry =>
      obtain ⟨value, expires⟩ := entry
      by_cases hexpired : Seconds.le expires now = true
      · rw [get_expired hfind hexpired]
        exact h.erase rfl rfl rfl
      · have hlt : now < expires := not_le.mp ((Seconds.Exact.le_iff expires now).not.mp hexpired)
        have hkey : key ∈ Entries.keys s.values := Entries.mem_keys_iff.mpr ⟨_, hfind⟩
        rw [get_live hfind hexpired]
        exact h.enter hlt (fun hnew => absurd hkey hnew) (Entries.set_of_find? hfind).symm rfl rfl

theorem put [IsOrderedAddMonoid τ] [Seconds.Whole τ] (h : Consistent now s) (key value : Text)
    (ttl : Int) : Consistent now (put now key value ttl s).state := by
  by_cases hpos : 0 < ttl
  · obtain ⟨seconds, hseconds, hlonger⟩ := Seconds.exists_ofInt? (τ := τ) hpos
    have hlt : now < Seconds.add now seconds := by
      rw [Seconds.Exact.add_eq]
      exact lt_add_of_pos_right now hlonger
    rw [put_stored hpos hseconds]
    refine (h.makeRoom key).enter hlt (fun hnew => ?_) rfl rfl rfl
    rw [capacity_makeRoom]
    exact h.size_makeRoom (mem_keys_makeRoom.not.mp hnew)
  · have hsame : MemoryStore.put now key value ttl s = ⟨.ok (), s, []⟩ := if_pos (not_lt.mp hpos)
    rw [hsame]
    exact h

end Consistent

/-- What becomes of a store that was empty at first: the last reading of the clock, the number of
look-ups, and the store. -/
inductive Reached (capacity : Int) : τ → Nat → MemoryStore τ → Prop
  | empty (now : τ) : Reached capacity now 0 (empty capacity)
  | wait {now later : τ} {gets : Nat} {s : MemoryStore τ} :
      Reached capacity now gets s → now ≤ later → Reached capacity later gets s
  | get {now : τ} {gets : Nat} {s : MemoryStore τ} (key : Text) :
      Reached capacity now gets s → Reached capacity now (gets + 1) (get now key s).state
  | put {now : τ} {gets : Nat} {s : MemoryStore τ} (key value : Text) (ttl : Int) :
      Reached capacity now gets s → Reached capacity now gets (put now key value ttl s).state
  | clear {now : τ} {gets : Nat} {s : MemoryStore τ} :
      Reached capacity now gets s → Reached capacity now gets s.clear

namespace Reached

theorem capacity_eq (h : Reached capacity now gets s) : s.capacity = capacity := by
  induction h with
  | empty now => rfl
  | wait _ _ ih => exact ih
  | get key _ ih => exact (capacity_get _ key _).trans ih
  | put key value ttl _ ih => exact (capacity_put _ key value ttl _).trans ih
  | clear _ ih => exact ih

theorem requests_eq (h : Reached capacity now gets s) : s.requests = gets := by
  induction h with
  | empty now => rfl
  | wait _ _ ih => exact ih
  | get key _ ih => rw [requests_get, ih]
  | put key value ttl _ ih => rw [requests_put, ih]
  | clear _ ih => exact ih

variable [AddCommGroup τ] [IsOrderedAddMonoid τ] [Seconds.Exact τ] [Seconds.Whole τ]

theorem consistent (h : Reached capacity now gets s) : Consistent now s := by
  induction h with
  | empty now => exact .empty now capacity
  | wait _ hle ih => exact ih.wait hle
  | get key _ ih => exact ih.get key
  | put key value ttl _ ih => exact ih.put key value ttl
  | clear _ _ => exact .clear _ _

end Reached

/-- Whatever was done with a store that was empty at first, if time is exact and the clock did not go back:
the tables have the same keys, at most as many as there is room for; each time of use is past, and before
the expiry; a key that is removed, because it has expired or to make room, is in both tables; and each
look-up was counted once. -/
theorem tables_agree [AddCommGroup τ] [IsOrderedAddMonoid τ] [Seconds.Exact τ] [Seconds.Whole τ]
    (h : Reached capacity now gets s) :
    (Entries.keys s.values).Nodup ∧ Entries.keys s.uses = Entries.keys s.values ∧
      (s.size : Int) ≤ max 1 capacity ∧
      (∀ key used, Entries.find? key s.uses = some used → used ≤ now ∧
        ∃ value expires, Entries.find? key s.values = some (value, expires) ∧ used < expires) ∧
      (∀ key entry, Entries.find? key s.values = some entry → key ∈ Entries.keys s.uses) ∧
      (∀ victim used, oldest? s.uses = some (victim, used) →
        victim ∈ Entries.keys s.values ∧ victim ∈ Entries.keys s.uses) ∧
      s.hits + s.misses = gets := by
  have hc := h.consistent
  have hsize := hc.size_le
  rw [h.capacity_eq] at hsize
  refine ⟨hc.nodup, hc.keys_eq, hsize, fun key used hused => ⟨hc.used_le hused, ?_⟩,
    fun key entry hfind => ?_, fun victim used holdest => (hc.mem_of_oldest? holdest).symm,
    h.requests_eq⟩
  · have hkey : key ∈ Entries.keys s.values :=
      hc.mem_keys_iff.mp (Entries.mem_keys_iff.mpr ⟨used, hused⟩)
    obtain ⟨⟨value, expires⟩, hfind⟩ := Entries.mem_keys_iff.mp hkey
    exact ⟨value, expires, hfind, hc.used_lt hused hfind⟩
  · exact hc.mem_keys_iff.mpr (Entries.mem_keys_iff.mpr ⟨entry, hfind⟩)

/-- A value was found and expired later; then one key took the place of another. -/
theorem tables_agree_expired_evicted :
    let first := (get 10 "a" (put 10 "a" "1" 5 (empty 1)).state).state
    let second := (put 15 "c" "3" 60 (put 15 "b" "2" 60 (get 15 "a" first).state).state).state
    let s : MemoryStore Int := (get 16 "b" second).state
    Reached 1 16 3 s ∧
    ((Entries.keys s.values).Nodup ∧ Entries.keys s.uses = Entries.keys s.values ∧
      (s.size : Int) ≤ max 1 1 ∧
      (∀ key used, Entries.find? key s.uses = some used → used ≤ 16 ∧
        ∃ value expires, Entries.find? key s.values = some (value, expires) ∧ used < expires) ∧
      (∀ key entry, Entries.find? key s.values = some entry → key ∈ Entries.keys s.uses) ∧
      (∀ victim used, oldest? s.uses = some (victim, used) →
        victim ∈ Entries.keys s.values ∧ victim ∈ Entries.keys s.uses) ∧
      s.hits + s.misses = 3) ∧
    s.values = [(lit "c", lit "3", 75)] ∧ s.uses = [(lit "c", 15)] ∧ s.hits = 1 ∧ s.evictions = 1 := by
  intro first second s
  have hfirst : Reached 1 10 1 first := .get "a" (.put "a" "1" 5 (.empty 10))
  have hsecond : Reached 1 15 2 second :=
    .put "c" "3" 60 (.put "b" "2" 60 (.get "a" (hfirst.wait (by decide))))
  have hreached : Reached 1 16 3 s := .get "b" (hsecond.wait (by decide))
  exact ⟨hreached, tables_agree hreached, by decide +kernel⟩

end MetricBridge.MemoryStore
