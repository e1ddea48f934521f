import MetricBridge.Dispatch.Basic
import MetricBridge.Proofs.Entries

namespace MetricBridge

variable {queries : List Text} {query : Text} {places : List Nat} {entry : Json}
  {entries : List Json} {pending : Entries Text (List Nat)}

def PlacesOf (queries : List Text) (query : Text) (places : List Nat) : Prop :=
  ∀ i, i ∈ places ↔ queries[i]? = some query

theorem getElem?_placeEntry (places : List Nat) (entry : Json) (entries : List Json) (i : Nat) :
    (placeEntry places entry entries)[i]? =
      if i ∈ places then (entries[i]?).map fun _ => entry else entries[i]? := by
  induction places generalizing entries with
  | nil => rfl
  | cons place places ih =>
      have hcons : placeEntry (place :: places) entry entries =
          placeEntry places entry (entries.set place entry) := rfl
      rw [hcons, ih, List.getElem?_set]
      by_cases hi : place = i
      · subst hi
        by_cases hlength : place < entries.length
        · simp [hlength]
        · simp [hlength]
      · have hi' : ¬i = place := Ne.symm hi
        simp [hi, hi']

/-- An entry at all places of a query is the entry of that query. -/
theorem placeEntry_map (h : PlacesOf queries query places) (f : Text → Json) :
    placeEntry places entry (queries.map f) =
      queries.map fun q => if q = query then entry else f q := by
  refine List.ext_getElem? fun i => ?_
  rw [getElem?_placeEntry, List.getElem?_map, List.getElem?_map]
  by_cases hi : i ∈ places
  · rw [if_pos hi, (h i).mp hi]
    simp
  · rw [if_neg hi]
    cases hq : queries[i]? with
    | none => rfl
    | some q =>
        have hne : q ≠ query := fun heq => hi ((h i).mpr (heq ▸ hq))
        simp [hne]

theorem PlacesOf.exists_head (h : PlacesOf queries query places) (hquery : query ∈ queries) :
    ∃ i, places.head? = some i ∧ queries[i]? = some query := by
  obtain ⟨i, hi⟩ := List.mem_iff_getElem?.mp hquery
  cases places with
  | nil => exact absurd ((h i).mpr hi) List.not_mem_nil
  | cons place places => exact ⟨place, rfl, (h place).mp List.mem_cons_self⟩

structure Placed (queries : List Text) (pending : Entries Text (List Nat)) : Prop where
  nodup : (Entries.keys pending).Nodup
  mem_keys : ∀ query, query ∈ Entries.keys pending ↔ query ∈ queries
  places : ∀ {query places}, Entries.find? query pending = some places →
    PlacesOf queries query places

theorem Placed.getD (h : Placed queries pending) (query : Text) :
    PlacesOf queries query ((Entries.find? query pending).getD []) := by
  cases hfind : Entries.find? query pending with
  | some places => exact h.places hfind
  | none =>
      intro i
      refine ⟨nofun, fun hi => ?_⟩
      obtain ⟨places, hplaces⟩ :=
        Entries.mem_keys_iff.mp ((h.mem_keys query).mpr (List.mem_of_getElem? hi))
      rw [hfind] at hplaces
      cases hplaces

theorem getElem?_snoc_eq_some {q : Text} {i : Nat} : (queries ++ [query])[i]? = some q ↔
    queries[i]? = some q ∨ i = queries.length ∧ query = q := by
  rcases Nat.lt_trichotomy i queries.length with hi | rfl | hi
  · rw [List.getElem?_append_left hi]
    exact ⟨.inl, fun h => h.elim id fun h => absurd h.1 (Nat.ne_of_lt hi)⟩
  · simp
  · have hlast : (queries ++ [query]).length ≤ i := by
      rw [List.length_append]
      exact hi
    rw [List.getElem?_eq_none hlast, List.getElem?_eq_none (Nat.le_of_lt hi)]
    exact ⟨nofun, fun h => h.elim nofun fun h => absurd h.1 (Nat.ne_of_gt hi)⟩

theorem Placed.snoc (h : Placed queries pending) (query : Text) : Placed (queries ++ [query])
    (Entries.set query ((Entries.find? query pending).getD [] ++ [queries.length]) pending) where
  nodup := Entries.nodup_keys_set h.nodup
  mem_keys q := by
    rw [Entries.mem_keys_set, h.mem_keys, List.mem_append, List.mem_singleton]
    exact or_comm
  places := by
    intro q places hplaces i
    rw [Entries.find?_set] at hplaces
    rw [getElem?_snoc_eq_some]
    split at hplaces
    · rename_i hq
      subst hq
      cases hplaces
      rw [List.mem_append, List.mem_singleton, h.getD query i]
      simp
    · rename_i hq
      rw [h.places hplaces i]
      simp [hq]

theorem placed_placesFrom (h : Placed queries pending) (more : List Text) :
    Placed (queries ++ more) (RetryState.placesFrom queries.length pending more) := by
  induction more generalizing queries pending with
  | nil => rwa [List.append_nil]
  | cons query more ih =>
      have hsnoc := ih (h.snoc query)
      rwa [List.length_append, List.append_assoc] at hsnoc

theorem placed_initial {τ : Type} (queries : List Text) (wait start : τ) :
    Placed queries (RetryState.initial queries wait start).pending :=
  have hempty : Placed [] [] := ⟨List.nodup_nil, fun _ => Iff.rfl, nofun⟩
  placed_placesFrom hempty queries

theorem keys_placesFrom (h : Entries.keys pending = queries.eraseDups) (index : Nat)
    (more : List Text) : Entries.keys (RetryState.placesFrom index pending more) =
      (queries ++ more).eraseDups := by
  induction more generalizing queries pending index with
  | nil => rw [List.append_nil]; exact h
  | cons query more ih =>
      rw [RetryState.placesFrom, List.append_cons queries]
      refine ih ?_ (index + 1)
      rw [Entries.keys_set, h, Entries.eraseDups_snoc]
      simp

/-- All queries are pending in the beginning, in the order in which they first occur. -/
theorem keys_placesFrom_nil (queries : List Text) :
    Entries.keys (RetryState.placesFrom 0 [] queries) = queries.eraseDups := by
  have hempty : Entries.keys ([] : Entries Text (List Nat)) = ([] : List Text).eraseDups := rfl
  exact keys_placesFrom hempty 0 queries

theorem nodup_eraseDups (queries : List Text) : queries.eraseDups.Nodup := by
  rw [← keys_placesFrom_nil]
  exact (placed_initial queries () ()).nodup

theorem eq_nil_of_isDone_initial {τ : Type} {wait start : τ}
    (h : (RetryState.initial queries wait start).isDone = true) : queries = [] := by
  have hpending : (RetryState.initial queries wait start).pending = [] := List.isEmpty_iff.mp h
  refine List.eq_nil_iff_forall_not_mem.mpr fun query hquery => ?_
  have hkey := ((placed_initial queries wait start).mem_keys query).mpr hquery
  rw [hpending] at hkey
  cases hkey

end MetricBridge
