import MetricBridge.Proofs.Store.Choice

namespace MetricBridge

variable {P : Text → Text → Prop} {key value : Text} {ttl : Int}

namespace MemoryStore

variable {τ : Type} [Seconds τ] {y : MemoryStore τ} {now : τ}

def Only (P : Text → Text → Prop) (y : MemoryStore τ) : Prop :=
  ∀ entry ∈ y.values, P entry.1 entry.2.1

theorem only_get (h : y.Only P) (now : τ) (key : Text) : (get now key y).state.Only P := by
  unfold Only
  rcases values_get now key y with heq | ⟨heq, -⟩
  · rw [heq]
    exact h
  · rw [heq]
    exact fun entry he => h entry (Entries.mem_of_mem_erase he)

theorem only_makeRoom (h : y.Only P) (key : Text) : (y.makeRoom key).1.Only P := by
  unfold makeRoom evict
  split
  · split
    · exact h
    · exact fun entry he => h entry (Entries.mem_of_mem_erase he)
  · exact h

theorem only_put (h : y.Only P) (hvalue : P key value) (now : τ) (ttl : Int) :
    (put now key value ttl y).state.Only P := by
  unfold put
  split
  · exact h
  · dsimp only
    split
    · exact only_makeRoom h key
    · intro entry he
      rcases Entries.mem_of_mem_set he with rfl | he
      · exact hvalue
      · exact only_makeRoom h key entry he

theorem Only.found (h : y.Only P) (hget : (get now key y).result = .ok (some value)) :
    P key value := by
  rw [result_get] at hget
  obtain ⟨⟨_, expires⟩, hfind, hlive⟩ := Option.bind_eq_some_iff.mp (Except.ok.inj hget)
  dsimp only at hlive
  split at hlive
  · cases hlive
  · cases hlive
    exact h _ (Entries.mem_of_find? hfind)

end MemoryStore

namespace DiskStore

variable {folder : Path} {files files' : Files} {entries : Entries Text Json} {now : Float}

def Only (folder : Path) (P : Text → Text → Prop) (files : Files) : Prop :=
  ∀ entries log, load folder files = (.ok entries, log) → ∀ entry ∈ entries, ∀ value,
    entry.2.field? "value" = some (.string value) → P entry.1 value

theorem Only.found (h : Only folder P files)
    (hget : (get folder now key files).result = .ok (some value)) : P key value := by
  unfold get at hget
  split at hget
  · cases hget
  · rename_i entries log hload
    obtain ⟨entry, hfind, hlive⟩ := Option.bind_eq_some_iff.mp (Except.ok.inj hget)
    obtain ⟨expires, -, hlive⟩ := Option.bind_eq_some_iff.mp hlive
    obtain ⟨expired, -, hlive⟩ := Option.bind_eq_some_iff.mp hlive
    split at hlive
    · cases hlive
    · obtain ⟨text, hfield, htext⟩ := Option.bind_eq_some_iff.mp hlive
      cases text <;> cases htext
      exact h entries log hload _ (Entries.mem_of_find? hfind) value hfield

theorem only_put (h : Only folder P files) (horder : InOrder folder files) (hkey : key.IsJoined)
    (hjoined : value.IsJoined) (hvalue : P key value) (now : Float) (ttl : Int) :
    Only folder P (put folder now key value ttl files).state := by
  by_cases hpos : ttl ≤ 0
  · rw [put_of_nonpos hpos]
    exact h
  cases hseconds : (Seconds.ofInt? ttl : Option Float) with
  | none =>
      rw [(put_out_of_range horder (by omega) hseconds).2]
      exact h
  | some seconds =>
      obtain ⟨entries, log, files', hload, hsave, hput⟩ :=
        put_of_pos now key value horder (by omega) hseconds
      rw [hput]
      intro entries' log' hload' entry he value' hfield
      rw [load_renewed hload (contains_save hsave), Text.joined_eq_self hkey,
        Text.joined_eq_self hjoined] at hload'
      cases hload'
      rcases Entries.mem_of_mem_set he with rfl | he
      · cases hfield
        exact hvalue
      · exact h _ _ hload _ (List.mem_of_mem_filter he) _ hfield

end DiskStore

namespace StoreChoice

variable {choice : StoreChoice} {y y' : choice.State} {now : Float}

def Only (P : Text → Text → Prop) : (choice : StoreChoice) → choice.State → Prop
  | disk folder, files => DiskStore.Only folder P files
  | memory _, y => MemoryStore.Only P y

theorem Only.found (h : choice.Only P y)
    (hget : (choice.store.get now key y).result = .ok (some value)) : P key value := by
  cases choice with
  | disk folder => exact DiskStore.Only.found h hget
  | memory capacity => exact MemoryStore.Only.found h hget

theorem only_get (h : choice.Only P y) (now : Float) (key : Text) :
    choice.Only P (choice.store.get now key y).state := by
  cases choice with
  | disk folder =>
      have hstate : (DiskStore.get folder now key y).state = y := (DiskStore.get_eq now key y).1
      exact hstate.symm ▸ h
  | memory capacity => exact MemoryStore.only_get h now key

theorem only_put (h : choice.Only P y) (horder : choice.InOrder y) (hkey : choice.Admits key)
    (hjoined : value.IsJoined) (hvalue : P key value) (now : Float) (ttl : Int) :
    choice.Only P (choice.store.put now key value ttl y).state := by
  cases choice with
  | disk folder => exact DiskStore.only_put h horder hkey hjoined hvalue now ttl
  | memory capacity => exact MemoryStore.only_put h hvalue now ttl

theorem Only.mono {Q : Text → Text → Prop} (h : choice.Only P y)
    (himp : ∀ key value, P key value → Q key value) : choice.Only Q y := by
  cases choice with
  | disk folder => exact fun _ _ hload _ he _ hfield => himp _ _ (h _ _ hload _ he _ hfield)
  | memory capacity => exact fun _ he => himp _ _ (h _ he)

end StoreChoice
end MetricBridge
