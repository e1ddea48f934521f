import MetricBridge.Proofs.Store.Alike

namespace MetricBridge

abbrev StoreHistory.Ordered (h : StoreHistory) : Prop := h.IsChain fun e e' => e.1 ≤ e'.1

def LastBefore {α : Type} (xs : List α) (a b : α) : Prop :=
  ∃ front back, xs = front ++ a :: back ∧ a ∉ back ∧ b ∈ back

namespace LastBefore

variable {α : Type} {xs : List α} {a b c : α}

theorem of_mem (ha : a ∈ xs) (hne : a ≠ b) : LastBefore (xs ++ [b]) a b := by
  obtain ⟨back, front, hreverse, hback⟩ := List.eq_append_cons_of_mem (List.mem_reverse.mpr ha)
  have hxs : xs = front.reverse ++ a :: back.reverse := by
    rw [← List.reverse_reverse xs, hreverse]
    simp
  refine ⟨front.reverse, back.reverse ++ [b], by rw [hxs]; simp, ?_, by simp⟩
  simpa using ⟨hback, hne⟩

theorem snoc (h : LastBefore xs a b) (hne : a ≠ c) : LastBefore (xs ++ [c]) a b := by
  obtain ⟨front, back, rfl, ha, hb⟩ := h
  refine ⟨front, back ++ [c], by simp, ?_, List.mem_append_left _ hb⟩
  simpa using ⟨ha, hne⟩

end LastBefore

namespace MemoryStore

section Steps

variable {τ : Type} [Seconds τ] {y : MemoryStore τ} {now expires seconds : τ} {key value : Text} {ttl : Int}

theorem get_missing (hfind : Entries.find? key y.values = none) :
    get now key y = ⟨.ok none, { y with misses := y.misses + 1 }, []⟩ := by
  rw [get, hfind]

theorem get_expired (hfind : Entries.find? key y.values = some (value, expires))
    (hexpired : Seconds.le expires now = true) : get now key y = ⟨.ok none, { y with
      values := Entries.erase key y.values
      uses := Entries.erase key y.uses
      misses := y.misses + 1 }, [debug (lit "Cache EXPIRED: " ++ key)]⟩ := by
  simp only [get, hfind, if_pos hexpired]

theorem get_live (hfind : Entries.find? key y.values = some (value, expires))
    (hlive : ¬Seconds.le expires now = true) : get now key y =
      ⟨.ok (some value), { y with uses := Entries.set key now y.uses, hits := y.hits + 1 }, []⟩ := by
  simp only [get, hfind, if_neg hlive]

theorem makeRoom_of_mem (hkey : key ∈ Entries.keys y.values) : y.makeRoom key = (y, []) :=
  if_neg fun hfull => by simp [Entries.has_iff.mpr hkey] at hfull

theorem makeRoom_of_full (hfull : y.capacity ≤ y.size) (hkey : key ∉ Entries.keys y.values) :
    y.makeRoom key = y.evict :=
  if_pos ⟨hfull, by simpa [← Entries.has_iff] using hkey⟩

theorem makeRoom_cases (key : Text) (y : MemoryStore τ) : (y.makeRoom key).1 = y ∨
    ∃ victim, (y.makeRoom key).1.values = Entries.erase victim y.values ∧
      (y.makeRoom key).1.uses = Entries.erase victim y.uses := by
  unfold makeRoom evict
  split
  · split
    · exact .inl rfl
    · exact .inr ⟨_, rfl, rfl⟩
  · exact .inl rfl

theorem capacity_makeRoom (key : Text) (y : MemoryStore τ) :
    (y.makeRoom key).1.capacity = y.capacity := by
  simp only [makeRoom, evict]
  split
  · split <;> rfl
  · rfl

theorem capacity_get (now : τ) (key : Text) (y : MemoryStore τ) :
    (get now key y).state.capacity = y.capacity := by
  simp only [get]
  split
  · rfl
  · split <;> rfl

theorem capacity_put (now : τ) (key value : Text) (ttl : Int) (y : MemoryStore τ) :
    (put now key value ttl y).state.capacity = y.capacity := by
  simp only [put]
  split
  · rfl
  · split <;> exact capacity_makeRoom key y

theorem mem_keys_makeRoom :
    key ∈ Entries.keys (y.makeRoom key).1.values ↔ key ∈ Entries.keys y.values := by
  by_cases hkey : key ∈ Entries.keys y.values
  · rw [makeRoom_of_mem hkey]
  · rcases makeRoom_cases key y with hsame | ⟨victim, hvalues, -⟩
    · rw [hsame]
    · rw [hvalues]
      exact ⟨fun h => (Entries.keys_erase_sublist victim y.values).subset h, fun h => absurd h hkey⟩

theorem put_stored (hpos : 0 < ttl) (hseconds : Seconds.ofInt? ttl = some seconds) :
    (put now key value ttl y).state = { (y.makeRoom key).1 with
      values := Entries.set key (value, Seconds.add now seconds) (y.makeRoom key).1.values
      uses := Entries.set key now (y.makeRoom key).1.uses } := by
  simp only [put, if_neg (Int.not_le.mpr hpos), hseconds]

theorem put_rejected (hpos : 0 < ttl) (hnone : (Seconds.ofInt? ttl : Option τ) = none) :
    (put now key value ttl y).state = (y.makeRoom key).1 := by
  simp only [put, if_neg (Int.not_le.mpr hpos), hnone]

theorem find?_put_of_ne {other : Text} (hpos : 0 < ttl) (hne : key ≠ other) :
    Entries.find? other (put now key value ttl y).state.values =
      Entries.find? other (y.makeRoom key).1.values := by
  cases hseconds : (Seconds.ofInt? ttl : Option τ) with
  | none => rw [put_rejected hpos hseconds]
  | some seconds => rw [put_stored hpos hseconds, Entries.find?_set, if_neg hne]

theorem oldest?_eq_none {uses : Entries Text τ} (h : oldest? uses = none) : uses = [] := by
  cases uses with
  | nil => rfl
  | cons e uses =>
      rw [oldest?] at h
      split at h
      · split at h <;> cases h
      · cases h

end Steps

variable {h : StoreHistory} {now t : Float} {key value k : Text} {ttl capacity : Int}
  {uses : Entries Text Float}

def used? (now : Float) (y : MemoryStore Float) : StoreAction → Option Text
  | .get key => match (get now key y).result with
    | .ok (some _) => some key
    | _ => none
  | .put key _ ttl => if 0 < ttl ∧ (Seconds.ofInt? ttl : Option Float).isSome then some key else none
  | .clear => none

structure Course where
  store : MemoryStore Float
  uses : List (Text × Float)
  entered : List Text

namespace Course

def step (c : Course) (e : Float × StoreAction) : Course :=
  let next := (act e.1 e.2 c.store).2
  match used? e.1 c.store e.2 with
  | none => { c with store := next }
  | some key => {
      store := next
      uses := c.uses ++ [(key, e.1)]
      entered := if Entries.has key c.store.values then c.entered else c.entered ++ [key] }

def lastTime? (c : Course) (key : Text) : Option Float := Entries.find? key c.uses.reverse

def Older (c : Course) (k l : Text) : Prop :=
  ∃ t u, c.lastTime? k = some t ∧ c.lastTime? l = some u ∧ t ≤ u ∧
    if t < u then LastBefore (Entries.keys c.uses) k l else LastBefore c.entered k l

/-- The store knows the keys in the order in which they were entered, and when they were last used. -/
structure Tracked (c : Course) : Prop where
  nodup : (Entries.keys c.store.values).Nodup
  keys_eq : Entries.keys c.store.uses = Entries.keys c.store.values
  times : ∀ k t, Entries.find? k c.store.uses = some t → c.lastTime? k = some t
  mem_entered : ∀ k ∈ Entries.keys c.store.uses, k ∈ c.entered
  order : (Entries.keys c.store.uses).Pairwise (LastBefore c.entered)

variable {c c' : Course}

theorem Tracked.erase (hc : Tracked c) (key : Text)
    (hvalues : c'.store.values = Entries.erase key c.store.values)
    (huses : c'.store.uses = Entries.erase key c.store.uses)
    (hlog : c'.uses = c.uses) (hentered : c'.entered = c.entered) : Tracked c' := by
  have hnodup : (Entries.keys c.store.uses).Nodup := hc.keys_eq ▸ hc.nodup
  have hsub : (Entries.keys c'.store.uses).Sublist (Entries.keys c.store.uses) :=
    huses ▸ Entries.keys_erase_sublist key c.store.uses
  constructor
  · rw [hvalues]
    exact Entries.nodup_keys_erase hc.nodup
  · rw [hvalues, huses, Entries.keys_erase, Entries.keys_erase, hc.keys_eq]
  · intro k t hfind
    rw [huses] at hfind
    by_cases hk : key = k
    · rw [hk, Entries.find?_erase_self hnodup] at hfind
      cases hfind
    · rw [Entries.find?_erase_of_ne hk] at hfind
      rw [lastTime?, hlog]
      exact hc.times k t hfind
  · intro k hk
    rw [hentered]
    exact hc.mem_entered k (hsub.subset hk)
  · rw [hentered]
    exact hc.order.sublist hsub

theorem times_touch (hc : Tracked c) {key : Text} {now : Float}
    (huses : c'.store.uses = Entries.set key now c.store.uses) (hlog : c'.uses = c.uses ++ [(key, now)])
    (k : Text) (t : Float) (hfind : Entries.find? k c'.store.uses = some t) : c'.lastTime? k = some t := by
  rw [lastTime?, hlog, List.reverse_append, List.reverse_singleton, List.singleton_append,
    Entries.find?_cons]
  rw [huses, Entries.find?_set] at hfind
  split at hfind
  · exact (if_pos ‹_›).trans hfind
  · exact (if_neg ‹_›).trans (hc.times k t hfind)

theorem Tracked.renew (hc : Tracked c) {key : Text} {now : Float}
    (hkey : key ∈ Entries.keys c.store.values)
    (hvalues : Entries.keys c'.store.values = Entries.keys c.store.values)
    (huses : c'.store.uses = Entries.set key now c.store.uses)
    (hlog : c'.uses = c.uses ++ [(key, now)]) (hentered : c'.entered = c.entered) : Tracked c' := by
  have hkeys : Entries.keys c'.store.uses = Entries.keys c.store.uses := by
    rw [huses, Entries.keys_set, if_pos (hc.keys_eq ▸ hkey)]
  refine ⟨hvalues ▸ hc.nodup, ?_, times_touch hc huses hlog, ?_, ?_⟩
  · rw [hkeys, hvalues, hc.keys_eq]
  · rw [hkeys, hentered]
    exact hc.mem_entered
  · rw [hkeys, hentered]
    exact hc.order

theorem Tracked.enter (hc : Tracked c) {key : Text} {now : Float}
    (hkey : key ∉ Entries.keys c.store.values)
    (hvalues : Entries.keys c'.store.values = Entries.keys c.store.values ++ [key])
    (huses : c'.store.uses = Entries.set key now c.store.uses)
    (hlog : c'.uses = c.uses ++ [(key, now)]) (hentered : c'.entered = c.entered ++ [key]) :
    Tracked c' := by
  rw [← hc.keys_eq] at hkey
  have hkeys : Entries.keys c'.store.uses = Entries.keys c.store.uses ++ [key] := by
    rw [huses, Entries.keys_set, if_neg hkey]
  have hne : ∀ k ∈ Entries.keys c.store.uses, k ≠ key := by
    rintro k hk rfl
    exact hkey hk
  refine ⟨?_, ?_, times_touch hc huses hlog, ?_, ?_⟩
  · rw [hvalues, ← hc.keys_eq, List.nodup_append]
    exact ⟨hc.keys_eq ▸ hc.nodup, List.nodup_singleton key, by simpa using hne⟩
  · rw [hkeys, hvalues, hc.keys_eq]
  · rw [hkeys, hentered]
    intro k hk
    rw [List.mem_append] at hk ⊢
    exact hk.imp_left (hc.mem_entered k)
  · rw [hkeys, hentered, List.pairwise_append]
    refine ⟨hc.order.imp_of_mem fun hk _ h => h.snoc (hne _ hk), List.pairwise_singleton _ _, ?_⟩
    intro k hk l hl
    cases List.mem_singleton.mp hl
    exact .of_mem (hc.mem_entered k hk) (hne k hk)

theorem tracked_get (hc : Tracked c) (now : Float) (key : Text) : Tracked (c.step (now, .get key)) := by
  cases hfind : Entries.find? key c.store.values with
  | none =>
      simp only [step, used?, act, get_missing hfind]
      exact ⟨hc.nodup, hc.keys_eq, hc.times, hc.mem_entered, hc.order⟩
  | some entry =>
      have hkey : key ∈ Entries.keys c.store.values := Entries.mem_keys_iff.mpr ⟨entry, hfind⟩
      by_cases hexpired : Seconds.le entry.2 now = true
      · simp only [step, used?, act, get_expired hfind hexpired]
        exact hc.erase key rfl rfl rfl rfl
      · simp only [step, used?, act, get_live hfind hexpired]
        exact hc.renew hkey rfl rfl rfl (if_pos (Entries.has_iff.mpr hkey))

theorem tracked_makeRoom (hc : Tracked c) (key : Text) :
    Tracked { c with store := (c.store.makeRoom key).1 } := by
  rcases makeRoom_cases key c.store with hsame | ⟨victim, hvalues, huses⟩
  · rw [hsame]
    exact hc
  · exact hc.erase victim hvalues huses rfl rfl

theorem tracked_put (hc : Tracked c) (now : Float) (key value : Text) (ttl : Int) :
    Tracked (c.step (now, .put key value ttl)) := by
  by_cases hpos : 0 < ttl
  · cases hseconds : (Seconds.ofInt? ttl : Option Float) with
    | none =>
        have hunused : used? now c.store (.put key value ttl) = none := if_neg (by simp [hseconds])
        rw [step, hunused]
        simp only [act, put_rejected hpos hseconds]
        exact tracked_makeRoom hc key
    | some seconds =>
        have hused : used? now c.store (.put key value ttl) = some key :=
          if_pos ⟨hpos, by rw [hseconds]; rfl⟩
        rw [step, hused]
        simp only [act, put_stored hpos hseconds]
        by_cases hkey : key ∈ Entries.keys c.store.values
        · refine hc.renew hkey ?_ ?_ rfl (if_pos (Entries.has_iff.mpr hkey))
          · simp only [makeRoom_of_mem hkey, Entries.keys_set, if_pos hkey]
          · simp only [makeRoom_of_mem hkey]
        · have hnew := mem_keys_makeRoom.not.mpr hkey
          refine (tracked_makeRoom hc key).enter hnew ?_ rfl rfl (if_neg (Entries.has_iff.not.mpr hkey))
          simp only [Entries.keys_set, if_neg hnew]
  · have hunused : used? now c.store (.put key value ttl) = none := if_neg fun h => hpos h.1
    rw [step, hunused]
    simp only [act, put_of_nonpos (Int.not_lt.mp hpos)]
    exact hc

theorem tracked_step (hc : Tracked c) (e : Float × StoreAction) : Tracked (c.step e) := by
  obtain ⟨now, action⟩ := e
  cases action with
  | get key => exact tracked_get hc now key
  | put key value ttl => exact tracked_put hc now key value ttl
  | clear => exact ⟨List.nodup_nil, rfl, nofun, nofun, List.Pairwise.nil⟩

end Course

def course (capacity : Int) (h : StoreHistory) : Course := h.foldl Course.step ⟨empty capacity, [], []⟩

theorem course_snoc (capacity : Int) (h : StoreHistory) (e : Float × StoreAction) :
    course capacity (h ++ [e]) = (course capacity h).step e := by
  rw [course, List.foldl_append]
  rfl

theorem step_store (c : Course) (e : Float × StoreAction) : (c.step e).store = (act e.1 e.2 c.store).2 := by
  rw [Course.step]
  split <;> rfl

theorem course_store (capacity : Int) (h : StoreHistory) :
    (course capacity h).store = after h (empty capacity) := by
  induction h using List.reverseRecOn with
  | nil => rfl
  | append_singleton h e ih =>
      rw [course_snoc, step_store, ih, after, after, List.foldl_append]
      rfl

theorem capacity_act (now : Float) (action : StoreAction) (y : MemoryStore Float) :
    (act now action y).2.capacity = y.capacity := by
  cases action with
  | get key => exact capacity_get now key y
  | put key value ttl => exact capacity_put now key value ttl y
  | clear => rfl

theorem course_capacity (capacity : Int) (h : StoreHistory) :
    (course capacity h).store.capacity = capacity := by
  induction h using List.reverseRecOn with
  | nil => rfl
  | append_singleton h e ih => rw [course_snoc, step_store, capacity_act, ih]

theorem course_tracked (capacity : Int) (h : StoreHistory) : (course capacity h).Tracked := by
  induction h using List.reverseRecOn with
  | nil => exact ⟨List.nodup_nil, rfl, nofun, nofun, List.Pairwise.nil⟩
  | append_singleton h e ih =>
      rw [course_snoc]
      exact Course.tracked_step ih e

theorem course_times (capacity : Int) (h : StoreHistory) :
    ((course capacity h).uses.map Prod.snd).Sublist (h.map Prod.fst) := by
  induction h using List.reverseRecOn with
  | nil => exact List.Sublist.slnil
  | append_singleton h e ih =>
      rw [course_snoc, Course.step, List.map_append]
      split
      · exact ih.trans (List.sublist_append_left _ _)
      · rw [List.map_append]
        exact ih.append (List.Sublist.refl _)

/-- The oldest entry is the first of those with the earliest time. -/
theorem oldest?_eq_some {uses : Entries Text Float} (hnumbers : ∀ e ∈ uses, e.2.isNaN = false)
    (h : oldest? uses = some (k, t)) : ∃ front back, uses = front ++ (k, t) :: back ∧
      (∀ e ∈ front, ¬e.2 ≤ t) ∧ ∀ e ∈ back, t ≤ e.2 := by
  induction uses generalizing k t with
  | nil => cases h
  | cons e uses ih =>
      obtain ⟨l, u⟩ := e
      obtain ⟨hu, hothers⟩ := List.forall_mem_cons.mp hnumbers
      rw [oldest?] at h
      split at h
      · rename_i m v hrest
        obtain ⟨front, back, rfl, hfront, hback⟩ := ih hothers hrest
        have hv : v.isNaN = false := hothers (m, v) (by simp)
        split at h
        · rename_i hlt
          cases h
          have hle : ¬u ≤ t := (floatNot_le hu hv).mpr (of_decide_eq_true hlt)
          exact ⟨(l, u) :: front, back, rfl, List.forall_mem_cons.mpr ⟨hle, hfront⟩, hback⟩
        · rename_i hlt
          cases h
          have hle : t ≤ v := not_not.mp fun hle => hlt (decide_eq_true ((floatNot_le hu hv).mp hle))
          refine ⟨[], _, rfl, nofun, fun e he => ?_⟩
          rcases List.mem_append.mp he with hmem | hmem
          · exact floatLe_trans hle (floatLe_of_not_le (hothers e he) hv (hfront e hmem))
          · rcases List.mem_cons.mp hmem with rfl | hmem
            · exact hle
            · exact floatLe_trans hle (hback e hmem)
      · rename_i hrest
        cases h
        rw [oldest?_eq_none hrest]
        exact ⟨[], [], rfl, nofun, nofun⟩

namespace Course

variable {c : Course}

theorem exists_of_lastTime? (h : c.lastTime? k = some t) :
    ∃ front back, c.uses = front ++ (k, t) :: back ∧ k ∉ Entries.keys back := by
  obtain ⟨back, front, hreverse, hback⟩ := Entries.exists_of_find? h
  refine ⟨front.reverse, back.reverse, ?_, by simpa [Entries.keys] using hback⟩
  rw [← List.reverse_reverse c.uses, hreverse]
  simp

/-- If the times are in order, a key that was last used at a later time was also used later. -/
theorem lastBefore_of_lt {l : Text} {u : Float} (hordered : (c.uses.map Prod.snd).Pairwise (· ≤ ·))
    (hk : c.lastTime? k = some t) (hl : c.lastTime? l = some u) (hlt : ¬u ≤ t) (hne : k ≠ l) :
    LastBefore (Entries.keys c.uses) k l := by
  obtain ⟨front, back, huses, hback⟩ := exists_of_lastTime? hk
  refine ⟨Entries.keys front, Entries.keys back, by rw [huses]; simp [Entries.keys], hback, ?_⟩
  by_contra habsent
  have hmem : (l, u) ∈ c.uses := List.mem_reverse.mp (Entries.mem_of_find? hl)
  rw [huses] at hmem hordered
  rcases List.mem_append.mp hmem with hmem | hmem
  · rw [List.map_append, List.pairwise_append] at hordered
    exact hlt (hordered.2.2 u (List.mem_map_of_mem hmem) t (by simp))
  · rcases List.mem_cons.mp hmem with heq | hmem
    · exact hne (congrArg Prod.fst heq).symm
    · exact habsent (List.mem_map_of_mem hmem)

theorem Older.of_lt (hordered : (c.uses.map Prod.snd).Pairwise (· ≤ ·)) {l : Text} {u : Float}
    (hk : c.lastTime? k = some t) (hl : c.lastTime? l = some u) (hlt : t < u) (hle : t ≤ u) (hne : k ≠ l) :
    c.Older k l := by
  obtain ⟨ht, hu⟩ := isNaN_of_le hle
  refine ⟨t, u, hk, hl, hle, ?_⟩
  rw [if_pos hlt]
  exact lastBefore_of_lt hordered hk hl ((floatNot_le hu ht).mpr hlt) hne

theorem Older.of_not_lt {l : Text} {u : Float} (hk : c.lastTime? k = some t) (hl : c.lastTime? l = some u)
    (hlt : ¬t < u) (hle : t ≤ u) (hentered : LastBefore c.entered k l) : c.Older k l := by
  refine ⟨t, u, hk, hl, hle, ?_⟩
  rw [if_neg hlt]
  exact hentered

theorem Tracked.lastTime?_of_mem (hc : Tracked c) (hmem : (k, t) ∈ c.store.uses) :
    c.lastTime? k = some t :=
  hc.times k t (Entries.find?_of_mem (hc.keys_eq ▸ hc.nodup) hmem)

/-- The entry with the earliest time of use is older than all others. -/
theorem Tracked.older_of_oldest? (hc : Tracked c) (hordered : (c.uses.map Prod.snd).Pairwise (· ≤ ·))
    (hnumbers : ∀ e ∈ c.uses, e.2.isNaN = false) {victim : Text}
    (holdest : oldest? c.store.uses = some (victim, t)) : victim ∈ Entries.keys c.store.values ∧
      ∀ other ∈ Entries.keys c.store.values, other ≠ victim → c.Older victim other := by
  have hnumber : ∀ e ∈ c.store.uses, e.2.isNaN = false := fun e he =>
    hnumbers e (List.mem_reverse.mp (Entries.mem_of_find? (hc.lastTime?_of_mem he)))
  obtain ⟨front, back, huses, hfront, hback⟩ := oldest?_eq_some hnumber holdest
  have hvictim : (victim, t) ∈ c.store.uses := by simp [huses]
  have ht := hc.lastTime?_of_mem hvictim
  have hnodup : (Entries.keys c.store.uses).Nodup := hc.keys_eq ▸ hc.nodup
  rw [← hc.keys_eq]
  constructor
  · exact Entries.mem_keys_iff.mpr ⟨t, Entries.find?_of_mem hnodup hvictim⟩
  intro other hother hne
  obtain ⟨u, hfind⟩ := Entries.mem_keys_iff.mp hother
  have hmem := Entries.mem_of_find? hfind
  have hu := hc.lastTime?_of_mem hmem
  have hun : u.isNaN = false := hnumber (other, u) hmem
  have htn : t.isNaN = false := hnumber (victim, t) hvictim
  rw [huses, List.mem_append, List.mem_cons] at hmem
  rcases hmem with hmem | heq | hmem
  · have hnot := hfront (other, u) hmem
    exact .of_lt hordered ht hu ((floatNot_le hun htn).mp hnot) (floatLe_of_not_le hun htn hnot)
      (Ne.symm hne)
  · exact absurd (congrArg Prod.fst heq) hne
  · have hle : t ≤ u := hback (other, u) hmem
    by_cases hlt : t < u
    · exact .of_lt hordered ht hu hlt hle (Ne.symm hne)
    · -- used at the same time: the entries stand in the order in which they were entered
      have horder := hc.order
      rw [huses, Entries.keys, List.map_append, List.map_cons, List.pairwise_append,
        List.pairwise_cons] at horder
      exact .of_not_lt ht hu hlt hle (horder.2.1.1 _ (List.mem_map.mpr ⟨_, hmem, rfl⟩))

end Course

/-- A store that is full removes for a new key the entry that was last used first; of entries that were
last used at the same time the one that was entered first. All other entries stay. -/
theorem evicts_least_recent (hcapacity : 1 ≤ capacity)
    (hordered : StoreHistory.Ordered (h ++ [(now, .put key value ttl)]))
    (hpos : 0 < ttl) (hfull : capacity ≤ (after h (empty capacity)).size)
    (hnew : key ∉ Entries.keys (after h (empty capacity)).values) :
    ∃ victim ∈ Entries.keys (after h (empty capacity)).values,
      (∀ other ∈ Entries.keys (after h (empty capacity)).values, other ≠ victim →
        (course capacity h).Older victim other) ∧
      ∀ other, other ≠ key →
        Entries.find? other (put now key value ttl (after h (empty capacity))).state.values =
          if other = victim then none else Entries.find? other (after h (empty capacity)).values := by
  rw [← course_store]
  rw [← course_store] at hfull hnew
  have htracked := course_tracked capacity h
  have hpairwise : (h.map Prod.fst ++ [now]).Pairwise (· ≤ ·) := by
    have htrans : IsTrans (Float × StoreAction) fun e e' => e.1 ≤ e'.1 := ⟨fun _ _ _ => floatLe_trans⟩
    simpa using List.pairwise_map.mpr hordered.pairwise
  obtain ⟨htimes, -, hlast⟩ := List.pairwise_append.mp hpairwise
  have hsub := course_times capacity h
  have hnumbers : ∀ e ∈ (course capacity h).uses, e.2.isNaN = false := fun e he =>
    (isNaN_of_le (hlast e.2 (hsub.subset (List.mem_map_of_mem he)) now (by simp))).1
  cases holdest : oldest? (course capacity h).store.uses with
  | none =>
      have hempty : Entries.keys (course capacity h).store.values = [] := by
        rw [← htracked.keys_eq, oldest?_eq_none holdest]
        rfl
      have hsize : (course capacity h).store.size = 0 := by
        rw [size, ← List.length_map Prod.fst]
        exact congrArg List.length hempty
      omega
  | some entry =>
      obtain ⟨victim, t⟩ := entry
      obtain ⟨hvictim, holder⟩ := htracked.older_of_oldest? (htimes.sublist hsub) hnumbers holdest
      refine ⟨victim, hvictim, holder, fun other hne => ?_⟩
      have hroom : ((course capacity h).store.makeRoom key).1.values =
          Entries.erase victim (course capacity h).store.values := by
        rw [makeRoom_of_full (by rwa [course_capacity]) hnew, evict, holdest]
      rw [find?_put_of_ne hpos (Ne.symm hne), hroom]
      by_cases hother : other = victim
      · rw [if_pos hother, hother]
        exact Entries.find?_erase_self htracked.nodup
      · rw [if_neg hother]
        exact Entries.find?_erase_of_ne (Ne.symm hother)

/-- At one time a key that was used last is removed, because it was entered first. -/
theorem evicts_least_recent_entered :
    let h : StoreHistory := [(1000, .put "a" "1" 60), (1000, .put "b" "2" 60), (1000, .get "a")]
    let y := after h (empty 2)
    StoreHistory.Ordered (h ++ [(1000, .put "c" "3" 60)]) ∧ 2 ≤ y.size ∧
    lit "c" ∉ Entries.keys y.values ∧
    (∃ victim ∈ Entries.keys y.values,
      (∀ other ∈ Entries.keys y.values, other ≠ victim → (course 2 h).Older victim other) ∧
      ∀ other, other ≠ lit "c" → Entries.find? other (put 1000 "c" "3" 60 y).state.values =
        if other = victim then none else Entries.find? other y.values) ∧
    LastBefore (Entries.keys (course 2 h).uses) "b" "a" ∧
    Entries.keys (put 1000 "c" "3" 60 y).state.values = [lit "b", lit "c"] := by
  intro h y
  have hordered : StoreHistory.Ordered (h ++ [(1000, .put "c" "3" 60)]) := by decide +kernel
  have hfull : 2 ≤ y.size := by decide +kernel
  have hnew : lit "c" ∉ Entries.keys y.values := by decide +kernel
  have hlast : LastBefore (Entries.keys (course 2 h).uses) "b" "a" :=
    ⟨["a"], ["a"], by decide +kernel, by decide, by decide⟩
  have hevicts := evicts_least_recent (by decide) hordered (by decide) (Int.ofNat_le.mpr hfull) hnew
  exact ⟨hordered, hfull, hnew, hevicts, hlast, by decide +kernel⟩

end MemoryStore
end MetricBridge
