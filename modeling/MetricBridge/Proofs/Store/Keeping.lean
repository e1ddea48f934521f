import MetricBridge.Proofs.Dispatch.Mirroring
import MetricBridge.Proofs.Json.Ascii
import MetricBridge.Store.Memory

namespace MetricBridge

variable {σ τ : Type} [Seconds τ]

/-- The time is compared as it was when it is written as JSON and read. -/
def Seconds.IsKept (t : τ) : Prop :=
  ∀ now : τ, Seconds.reached? now (Json.reread (Seconds.toJson t)) = some (Seconds.le t now)

namespace Store

inductive Reads (s : Store σ τ) (Same : σ → σ → Prop) (allowed : τ → Text → Prop) (y : σ) : σ → Prop
  | refl : Reads s Same allowed y y
  | get {z : σ} (h : Reads s Same allowed y z) (now : τ) (key : Text) (hallowed : allowed now key) :
      Reads s Same allowed y (s.get now key z).state
  | outside {z z' : σ} (h : Reads s Same allowed y z) (hsame : Same z z') : Reads s Same allowed y z'

omit [Seconds τ] in
theorem Reads.invariant (P : σ → Prop) {s : Store σ τ} {Same : σ → σ → Prop}
    {allowed : τ → Text → Prop} {y z : σ} (h : s.Reads Same allowed y z) (hy : P y)
    (hget : ∀ z now key, allowed now key → P z → P (s.get now key z).state)
    (hsame : ∀ z z', Same z z' → P z → P z') : P z := by
  induction h with
  | refl => exact hy
  | get _ now key hallowed ih => exact hget _ now key hallowed ih
  | outside _ hz ih => exact hsame _ _ hz ih

/-- The key has the value until it expires and no value from then on. Look-ups change nothing about that,
but for those that find it expired, and the store stays in order. -/
structure Holds (s : Store σ τ) (Same : σ → σ → Prop) (InOrder : σ → Prop) (key value : Text)
    (expires : τ) (y : σ) : Prop where
  found : ∀ z, s.Reads Same (fun now other => other = key → Seconds.le expires now = false) y z →
    ∀ now, Seconds.le expires now = false → (s.get now key z).result = .ok (some value)
  expired : ∀ z, s.Reads Same (fun _ _ => True) y z →
    ∀ now, Seconds.le expires now = true → (s.get now key z).result = .ok none
  inOrder : ∀ z, s.Reads Same (fun _ _ => True) y z → InOrder z

def outcome (τ : Type) [Seconds τ] (ttl : Int) : Except StoreFault Unit :=
  if ttl ≤ 0 ∨ (Seconds.ofInt? ttl : Option τ).isSome then .ok () else .error .timeOutOfRange

/-- A sound store that took a text is in order. A store in order takes texts and stays in order, and
keeps the values of the key. -/
structure Keeps (s : Store σ τ) (key : Text) (Sound InOrder : σ → Prop) (Same : σ → σ → Prop) :
    Prop where
  sound_get {now other y} : Sound y → Sound (s.get now other y).state
  inOrder_of_put {now other value ttl y} : Sound y → 0 < ttl →
    (s.put now other value ttl y).result = .ok () → InOrder y
  result_put {now other value ttl y} : InOrder y →
    (s.put now other value ttl y).result = outcome τ ttl
  inOrder_get {now other y} : InOrder y → InOrder (s.get now other y).state
  inOrder_put {now other value ttl y} : InOrder y → InOrder (s.put now other value ttl y).state
  holds_put {now value ttl y seconds} : InOrder y → 0 < ttl → Seconds.ofInt? ttl = some seconds →
    value.IsJoined → Seconds.IsKept (Seconds.add now seconds) →
    s.Holds Same InOrder key value (Seconds.add now seconds) (s.put now key value ttl y).state

theorem Keeps.takes {s : Store σ τ} {key : Text} {Sound InOrder : σ → Prop} {Same : σ → σ → Prop}
    (h : s.Keeps key Sound InOrder Same) : s.Takes fun y y' => InOrder y ∧ InOrder y' := by
  rintro y y' ⟨hy, hy'⟩ now other value ttl
  exact ⟨(h.result_put hy).trans (h.result_put hy').symm, h.inOrder_put hy, h.inOrder_put hy'⟩

end Store

namespace MemoryStore

variable {y : MemoryStore τ} {now expires : τ} {key other value : Text} {ttl : Int}

def InOrder (y : MemoryStore τ) : Prop := (Entries.keys y.values).Nodup

theorem values_get (now : τ) (key : Text) (y : MemoryStore τ) :
    (get now key y).state.values = y.values ∨
      (get now key y).state.values = Entries.erase key y.values ∧
        ∃ value expires, Entries.find? key y.values = some (value, expires) ∧
          Seconds.le expires now = true := by
  unfold get
  split
  · exact .inl rfl
  · rename_i value expires hfind
    split
    · rename_i hexpired
      exact .inr ⟨rfl, value, expires, hfind, hexpired⟩
    · exact .inl rfl

theorem inOrder_get (h : y.InOrder) : (get now key y).state.InOrder := by
  unfold InOrder
  rcases values_get now key y with heq | ⟨heq, -⟩
  · rw [heq]
    exact h
  · rw [heq]
    exact Entries.nodup_keys_erase h

theorem find?_get_of_ne (h : other ≠ key) (now : τ) (y : MemoryStore τ) :
    Entries.find? key (get now other y).state.values = Entries.find? key y.values := by
  rcases values_get now other y with heq | ⟨heq, -⟩
  · rw [heq]
  · rw [heq, Entries.find?_erase_of_ne h]

theorem inOrder_makeRoom (key : Text) (h : y.InOrder) : (y.makeRoom key).1.InOrder := by
  unfold makeRoom evict
  split
  · split
    · exact h
    · exact Entries.nodup_keys_erase h
  · exact h

theorem put_of_pos (h : 0 < ttl) {seconds : τ} (hseconds : Seconds.ofInt? ttl = some seconds) :
    (put now key value ttl y).state.values =
      Entries.set key (value, Seconds.add now seconds) (y.makeRoom key).1.values := by
  unfold put
  rw [if_neg (by omega)]
  simp [hseconds]

theorem inOrder_put (h : y.InOrder) : (put now key value ttl y).state.InOrder := by
  unfold put
  split
  · exact h
  · dsimp only
    split
    · exact inOrder_makeRoom key h
    · exact Entries.nodup_keys_set (inOrder_makeRoom key h)

theorem result_put : (put now key value ttl y).result = Store.outcome τ ttl := by
  unfold put Store.outcome
  by_cases hpos : ttl ≤ 0
  · simp [hpos]
  · cases (Seconds.ofInt? ttl : Option τ) <;> simp [hpos]

theorem result_get (now : τ) (key : Text) (y : MemoryStore τ) :
    (get now key y).result = .ok ((Entries.find? key y.values).bind fun entry =>
      if Seconds.le entry.2 now then none else some entry.1) := by
  unfold get
  split
  · rename_i hfind
    rw [hfind]
    rfl
  · rename_i hfind
    rw [hfind]
    split <;> simp [*]

/-- A value in memory is found until it expires. -/
theorem holds_of_find? (h : y.InOrder) (hfind : Entries.find? key y.values = some (value, expires)) :
    store.Holds Eq InOrder key value expires y where
  found := by
    intro z hreads now hnow
    have hfind : Entries.find? key z.values = some (value, expires) := by
      refine hreads.invariant (fun z => Entries.find? key z.values = some (value, expires)) hfind
        (fun z now other hallowed hz => ?_) fun _ _ heq hz => heq ▸ hz
      by_cases hother : other = key
      · subst hother
        rcases values_get now other z with heq | ⟨-, value', expires', hfind', hexpired⟩
        · exact (congrArg (Entries.find? other) heq).trans hz
        · cases hfind'.symm.trans hz
          cases hexpired.symm.trans (hallowed rfl)
      · exact (find?_get_of_ne hother now z).trans hz
    refine (result_get now key z).trans ?_
    simp [hfind, hnow]
  expired := by
    intro z hreads now hnow
    have hfind : z.InOrder ∧ (Entries.find? key z.values = some (value, expires) ∨
        Entries.find? key z.values = none) := by
      refine hreads.invariant (fun z => z.InOrder ∧
        (Entries.find? key z.values = some (value, expires) ∨ Entries.find? key z.values = none))
        ⟨h, .inl hfind⟩ (fun z now other _ hz => ⟨inOrder_get hz.1, ?_⟩) fun _ _ heq hz => heq ▸ hz
      by_cases hother : other = key
      · subst hother
        rcases values_get now other z with heq | ⟨heq, -⟩
        · exact heq ▸ hz.2
        · exact .inr ((congrArg (Entries.find? other) heq).trans (Entries.find?_erase_self hz.1))
      · have hsame := find?_get_of_ne hother now z
        exact hz.2.imp hsame.trans hsame.trans
    refine (result_get now key z).trans ?_
    rcases hfind.2 with hfind | hfind
    · simp [hfind, hnow]
    · simp [hfind]
  inOrder _ hreads := hreads.invariant InOrder h (fun _ _ _ _ hz => inOrder_get hz)
    fun _ _ heq hz => heq ▸ hz

theorem keeps (key : Text) : (store : Store (MemoryStore τ) τ).Keeps key InOrder InOrder Eq where
  sound_get := inOrder_get
  inOrder_of_put h _ _ := h
  result_put _ := result_put
  inOrder_get := inOrder_get
  inOrder_put := inOrder_put
  holds_put := by
    intro now value ttl y seconds hy hpos hseconds _ _
    refine holds_of_find? (inOrder_put hy) ?_
    change Entries.find? key (put now key value ttl y).state.values = _
    rw [put_of_pos hpos hseconds, Entries.find?_set, if_pos rfl]

end MemoryStore
end MetricBridge
