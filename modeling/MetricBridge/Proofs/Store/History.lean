import MetricBridge.Proofs.Decimal.Order
import MetricBridge.Proofs.Store.Keeping

namespace MetricBridge

inductive StoreAction where
  | get (key : Text)
  | put (key value : Text) (ttl : Int)
  | clear

namespace StoreAction

def InRange : StoreAction → Prop
  | put _ _ ttl => (Float.ofInt ttl).isInf = false
  | get _ | clear => True

instance : DecidablePred InRange
  | put _ _ _ => inferInstanceAs (Decidable (_ = _))
  | get _ | clear => inferInstanceAs (Decidable True)

/-- A text that is put has no pair of surrogates, nor has its key. -/
def Joined : StoreAction → Prop
  | put key value _ => key.IsJoined ∧ value.IsJoined
  | get _ | clear => True

instance : DecidablePred Joined
  | put _ _ _ => inferInstanceAs (Decidable (_ ∧ _))
  | get _ | clear => inferInstanceAs (Decidable True)

end StoreAction

abbrev StoreHistory := List (Float × StoreAction)

namespace StoreHistory

/-- The latest text that was put under the key for a positive time since everything was removed, and when
this time is over. -/
def latest? (key : Text) (h : StoreHistory) : Option (Text × Float) :=
  h.foldl (fun found e => match e.2 with
    | .get _ => found
    | .put k value ttl => if k = key ∧ 0 < ttl then some (value, e.1 + Float.ofInt ttl) else found
    | .clear => none) none

def valueAt? (now : Float) (key : Text) (h : StoreHistory) : Option Text :=
  (latest? key h).bind fun entry => if now < entry.2 then some entry.1 else none

def answer? (now : Float) (action : StoreAction) (h : StoreHistory) : Option Text :=
  match action with
  | .get key => valueAt? now key h
  | .put .. | .clear => none

def putKeys (h : StoreHistory) : Finset Text :=
  (h.filterMap fun e => match e.2 with
    | .put key _ _ => some key
    | .get _ | .clear => none).toFinset

/-- The clock does not go back, times are in range, and there is room for all keys. -/
structure Proper (capacity : Int) (h : StoreHistory) : Prop where
  ordered : h.IsChain fun e e' => e.1 ≤ e'.1
  inRange : ∀ e ∈ h, e.2.InRange
  room : ((putKeys h).card : Int) ≤ capacity

variable {h : StoreHistory} {now : Float} {action : StoreAction} {key value : Text} {ttl capacity : Int}

@[simp] theorem latest?_snoc (e : Float × StoreAction) : latest? key (h ++ [e]) = match e.2 with
    | .get _ => latest? key h
    | .put k value ttl =>
        if k = key ∧ 0 < ttl then some (value, e.1 + Float.ofInt ttl) else latest? key h
    | .clear => none := by
  rw [latest?, List.foldl_append]
  rfl

theorem putKeys_append (h h' : StoreHistory) : putKeys (h ++ h') = putKeys h ∪ putKeys h' := by
  rw [putKeys, List.filterMap_append, List.toFinset_append]
  rfl

namespace Proper

theorem init {e : Float × StoreAction} (hp : Proper capacity (h ++ [e])) : Proper capacity h where
  ordered := hp.ordered.left_of_append
  inRange e he := hp.inRange e (List.mem_append_left _ he)
  room := by
    have hle : (putKeys h).card ≤ (putKeys (h ++ [e])).card :=
      Finset.card_le_card (putKeys_append h [e] ▸ Finset.subset_union_left)
    exact (Int.ofNat_le.mpr hle).trans hp.room

theorem le_last {e : Float × StoreAction} (hp : Proper capacity (h ++ [e])) :
    ∀ e' ∈ h, e'.1 ≤ e.1 := by
  have htrans : IsTrans (Float × StoreAction) fun e e' => e.1 ≤ e'.1 :=
    ⟨fun _ _ _ => floatLe_trans⟩
  exact fun e' he' => (List.pairwise_append.mp hp.ordered.pairwise).2.2 e' he' e List.mem_cons_self

end Proper

def live? (now : Float) (key : Text) (values : Entries Text (Text × Float)) : Option Text :=
  (Entries.find? key values).bind fun entry => if Seconds.le entry.2 now then none else some entry.1

/-- The values that a store has are those that were put into it, as far as they have not expired. -/
structure Recalls (h : StoreHistory) (values : Entries Text (Text × Float)) : Prop where
  nodup : (Entries.keys values).Nodup
  numbers : ∀ entry ∈ values, entry.2.2.isNaN = false
  keys : ∀ key ∈ Entries.keys values, key ∈ putKeys h
  found : ∀ now key, (∀ e ∈ h, e.1 ≤ now) → live? now key values = valueAt? now key h

variable {values values' : Entries Text (Text × Float)}

theorem Recalls.nil : Recalls [] [] where
  nodup := List.nodup_nil
  numbers := nofun
  keys := nofun
  found _ _ _ := rfl

structure Pruned (now : Float) (values values' : Entries Text (Text × Float)) : Prop where
  nodup : (Entries.keys values').Nodup
  subset : values' ⊆ values
  found : ∀ later key, now ≤ later → live? later key values' = live? later key values

namespace Pruned

theorem refl (hnodup : (Entries.keys values).Nodup) : Pruned now values values :=
  ⟨hnodup, List.Subset.refl _, fun _ _ _ => rfl⟩

theorem erase (hnodup : (Entries.keys values).Nodup) {entry : Text × Float}
    (hfind : Entries.find? key values = some entry) (hexpired : entry.2 ≤ now) :
    Pruned now values (Entries.erase key values) where
  nodup := Entries.nodup_keys_erase hnodup
  subset _ he := Entries.mem_of_mem_erase he
  found later other hlater := by
    unfold live?
    by_cases hkey : key = other
    · subst hkey
      have hle : Seconds.le entry.2 later = true := decide_eq_true (floatLe_trans hexpired hlater)
      simp [Entries.find?_erase_self hnodup, hfind, hle]
    · rw [Entries.find?_erase_of_ne hkey]

theorem filter (hnodup : (Entries.keys values).Nodup)
    (hnumbers : ∀ entry ∈ values, entry.2.2.isNaN = false) :
    Pruned now values (values.filter fun entry => now < entry.2.2) where
  nodup := hnodup.sublist (List.filter_sublist.map Prod.fst)
  subset := List.filter_sublist.subset
  found later key hlater := by
    unfold live?
    rw [Entries.find?_filter hnodup]
    cases hfind : Entries.find? key values with
    | none => rfl
    | some entry =>
        by_cases hlive : now < entry.2
        · simp [hlive, Option.filter]
        · have hnumber := hnumbers _ (Entries.mem_of_find? hfind)
          have hexpired : entry.2 ≤ now :=
            not_not.mp fun hle => hlive ((floatNot_le hnumber (isNaN_of_le hlater).1).mp hle)
          have hle : Seconds.le entry.2 later = true := decide_eq_true (floatLe_trans hexpired hlater)
          simp [hlive, hle, Option.filter]

end Pruned

theorem Recalls.keep (hr : Recalls h values) (hpruned : Pruned now values values')
    (hlatest : ∀ key, latest? key (h ++ [(now, action)]) = latest? key h) :
    Recalls (h ++ [(now, action)]) values' where
  nodup := hpruned.nodup
  numbers entry he := hr.numbers entry (hpruned.subset he)
  keys key hkey := by
    have hkey := hr.keys key (List.map_subset Prod.fst hpruned.subset hkey)
    exact putKeys_append h _ ▸ Finset.mem_union_left _ hkey
  found later key hlater := by
    have hh := fun e he => hlater e (List.mem_append_left _ he)
    have hnow := hlater (now, action) List.mem_append_cons_self
    rw [hpruned.found later key hnow, hr.found later key hh, valueAt?, valueAt?, hlatest]

theorem Recalls.clear (h : StoreHistory) (now : Float) : Recalls (h ++ [(now, .clear)]) [] where
  nodup := List.nodup_nil
  numbers := nofun
  keys := nofun
  found later key _ := by simp [live?, valueAt?, Entries.find?]

theorem Recalls.put (hr : Recalls h values) (hpruned : Pruned now values values') (hpos : 0 < ttl)
    (hnow : now.isNaN = false) (hrange : (Float.ofInt ttl).isInf = false) :
    Recalls (h ++ [(now, .put key value ttl)])
      (Entries.set key (value, now + Float.ofInt ttl) values') where
  nodup := Entries.nodup_keys_set hpruned.nodup
  numbers entry he := by
    rcases Entries.mem_of_mem_set he with rfl | he
    · exact isNaN_add hnow (isNaN_ofInt ttl) hrange
    · exact hr.numbers entry (hpruned.subset he)
  keys k hk := by
    rw [putKeys_append]
    rcases Entries.mem_keys_set.mp hk with rfl | hk
    · exact Finset.mem_union_right _ (by simp [putKeys])
    · exact Finset.mem_union_left _ (hr.keys k (List.map_subset Prod.fst hpruned.subset hk))
  found later k hlater := by
    -- the new text is found until its time is over, every other key as before
    have hh := fun e he => hlater e (List.mem_append_left _ he)
    have hnow' := hlater (now, .put key value ttl) List.mem_append_cons_self
    have hfound := (hpruned.found later k hnow').trans (hr.found later k hh)
    unfold live? valueAt? at hfound ⊢
    rw [Entries.find?_set, latest?_snoc]
    by_cases hkey : key = k
    · have hexpires := floatNot_le (isNaN_add hnow (isNaN_ofInt ttl) hrange) (isNaN_of_le hnow').2
      have hle : Seconds.le (now + Float.ofInt ttl) later = decide (now + Float.ofInt ttl ≤ later) := rfl
      by_cases hexpired : now + Float.ofInt ttl ≤ later
      · simp [hkey, hpos, ← hexpires, hle, hexpired]
      · simp [hkey, hpos, ← hexpires, hle, hexpired]
    · simpa [hkey] using hfound

end StoreHistory
end MetricBridge
