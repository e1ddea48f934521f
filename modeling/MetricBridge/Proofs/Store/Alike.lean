import MetricBridge.Proofs.Json.Floats
import MetricBridge.Proofs.Store.Disk
import MetricBridge.Proofs.Store.History

namespace MetricBridge

open StoreHistory

variable {h : StoreHistory} {now : Float} {action : StoreAction} {key value : Text} {ttl capacity : Int}
  {values : Entries Text (Text × Float)}

theorem Seconds.ofInt?_float (hrange : (Float.ofInt ttl).isInf = false) :
    Seconds.ofInt? ttl = some (Float.ofInt ttl) :=
  if_neg (ne_true_of_eq_false hrange)

theorem Store.outcome_float (hrange : (Float.ofInt ttl).isInf = false) :
    Store.outcome Float ttl = .ok () := by
  rw [Store.outcome, Seconds.ofInt?_float hrange, if_pos (.inr rfl)]

theorem Store.outcome_eq_ok_iff (hpos : 0 < ttl) :
    Store.outcome Float ttl = .ok () ↔ (Float.ofInt ttl).isInf = false := by
  cases hinf : (Float.ofInt ttl).isInf with
  | false => simp [Store.outcome_float hinf]
  | true =>
      have hnone : (Seconds.ofInt? ttl : Option Float) = none := if_pos hinf
      simp [Store.outcome, hnone, hpos]

namespace MemoryStore

def act (now : Float) :
    StoreAction → MemoryStore Float → Except StoreFault (Option Text) × MemoryStore Float
  | .get key, y => ((get now key y).result, (get now key y).state)
  | .put key value ttl, y =>
      ((put now key value ttl y).result.map fun _ => none, (put now key value ttl y).state)
  | .clear, y => (.ok none, y.clear)

def after (h : StoreHistory) (y : MemoryStore Float) : MemoryStore Float :=
  h.foldl (fun y e => (act e.1 e.2 y).2) y

variable {y : MemoryStore Float}

theorem pruned_get (hnodup : (Entries.keys y.values).Nodup) (now : Float) (key : Text) :
    Pruned now y.values (get now key y).state.values := by
  rcases values_get now key y with heq | ⟨heq, text, expires, hfind, hexpired⟩
  · rw [heq]
    exact .refl hnodup
  · rw [heq]
    exact .erase hnodup hfind (of_decide_eq_true hexpired)

theorem put_of_nonpos (h : ttl ≤ 0) : put now key value ttl y = ⟨.ok (), y, []⟩ := if_pos h

/-- With room for all keys nothing is removed. -/
theorem makeRoom_eq (hr : Recalls h y.values)
    (hp : Proper y.capacity (h ++ [(now, .put key value ttl)])) : y.makeRoom key = (y, []) := by
  refine if_neg fun hfull => ?_
  obtain ⟨hfull, hnew⟩ := hfull
  have hkey : key ∉ Entries.keys y.values := by
    rw [← Entries.find?_eq_none]
    simpa [Entries.has] using hnew
  have hsubset : insert key (Entries.keys y.values).toFinset ⊆
      putKeys (h ++ [(now, .put key value ttl)]) := by
    rw [putKeys_append]
    refine Finset.insert_subset (Finset.mem_union_right _ (by simp [putKeys])) fun k hk => ?_
    exact Finset.mem_union_left _ (hr.keys k (List.mem_toFinset.mp hk))
  -- so the keys that are there and the new one are not more than the capacity
  have hcard := Finset.card_le_card hsubset
  rw [Finset.card_insert_of_notMem (by simpa using hkey), List.toFinset_card_of_nodup hr.nodup] at hcard
  have hlength : (Entries.keys y.values).length = y.values.length := List.length_map _
  have hroom := hp.room
  omega

theorem act_eq (hr : Recalls h y.values) (hp : Proper y.capacity (h ++ [(now, action)])) :
    (act now action y).1 = .ok (answer? now action h) := by
  cases action with
  | get key =>
      refine (result_get now key y).trans (congrArg Except.ok ?_)
      exact hr.found now key hp.le_last
  | put key value ttl =>
      have hrange := hp.inRange (now, .put key value ttl) (by simp)
      simp only [act, result_put, Store.outcome_float hrange]
      rfl
  | clear => rfl

theorem recalls_act (hr : Recalls h y.values) (hp : Proper y.capacity (h ++ [(now, action)]))
    (hnow : now.isNaN = false) :
    Recalls (h ++ [(now, action)]) (act now action y).2.values ∧
      (act now action y).2.capacity = y.capacity := by
  cases action with
  | get key =>
      refine ⟨hr.keep (pruned_get hr.nodup now key) (by simp), ?_⟩
      unfold act get
      dsimp only
      split
      · rfl
      · split <;> rfl
  | put key value ttl =>
      have hrange := hp.inRange (now, .put key value ttl) (by simp)
      by_cases hpos : ttl ≤ 0
      · have hsame : (put now key value ttl y).state = y := by rw [put_of_nonpos hpos]
        simp only [act, hsame]
        exact ⟨hr.keep (.refl hr.nodup) (by simp [hpos]), trivial⟩
      · have hstate : (put now key value ttl y).state = { y with
            values := Entries.set key (value, now + Float.ofInt ttl) y.values
            uses := Entries.set key now y.uses } := by
          unfold put
          rw [if_neg hpos, makeRoom_eq hr hp, Seconds.ofInt?_float hrange]
          rfl
        simp only [act, hstate]
        exact ⟨hr.put (.refl hr.nodup) (by omega) hnow hrange, trivial⟩
  | clear => exact ⟨.clear h now, rfl⟩

theorem recalls_after (hp : Proper capacity h) (hnumbers : ∀ e ∈ h, e.1.isNaN = false) :
    Recalls h (after h (empty capacity)).values ∧ (after h (empty capacity)).capacity = capacity := by
  induction h using List.reverseRecOn with
  | nil => exact ⟨.nil, rfl⟩
  | append_singleton h e ih =>
      obtain ⟨hr, hcapacity⟩ := ih hp.init fun e' he' => hnumbers e' (List.mem_append_left _ he')
      have hp' : Proper _ (h ++ [(e.1, e.2)]) := hcapacity.symm ▸ hp
      have hstep := recalls_act hr hp' (hnumbers e (by simp))
      rw [after, List.foldl_append]
      exact ⟨hstep.1, hstep.2.trans hcapacity⟩

end MemoryStore

namespace DiskStore

variable {folder : Path} {files files' : Files}

def act (folder : Path) (now : Float) : StoreAction → Files → Except StoreFault (Option Text) × Files
  | .get key, files => ((get folder now key files).result, (get folder now key files).state)
  | .put key value ttl, files => ((put folder now key value ttl files).result.map fun _ => none,
      (put folder now key value ttl files).state)
  | .clear, files => match clear folder files with
    | .ok files => (.ok none, files)
    | .error fault => (.error fault, files)

def after (folder : Path) (h : StoreHistory) (files : Files) : Files :=
  h.foldl (fun files e => (act folder e.1 e.2 files).2) files

structure Usable (folder : Path) (files : Files) : Prop where
  nodup : (Entries.keys files).Nodup
  made : files.node? folder = some .folder
  reachable : files.isBlocked (file folder) = false

def entriesOf (values : Entries Text (Text × Float)) : Entries Text Json :=
  values.map fun e => (e.1, entryOf e.2.1 e.2.2)

def Has (folder : Path) (values : Entries Text (Text × Float)) (files : Files) : Prop :=
  files.node? (file folder) = none ∧ values = [] ∨
    files.node? (file folder) = some (.file (Json.object (entriesOf values)).print.utf8)

structure Legible (values : Entries Text (Text × Float)) : Prop where
  nodup : (Entries.keys values).Nodup
  keys : ∀ e ∈ values, e.1.IsJoined
  texts : ∀ e ∈ values, e.2.1.IsJoined

theorem Legible.loaded (hl : Legible values) : Loaded (entriesOf values) where
  nodup := by
    have hkeys : Entries.keys (entriesOf values) = Entries.keys values := by simp [entriesOf, Entries.keys]
    exact hkeys ▸ hl.nodup
  joined entry he := by
    obtain ⟨e, hmem, rfl⟩ := List.mem_map.mp he
    exact hl.keys e hmem
  short entry he := by
    obtain ⟨e, he, rfl⟩ := List.mem_map.mp he
    exact hasShortInts_entryOf _ _

theorem reread_entryOf_eq (hvalue : value.IsJoined) (expires : Float) :
    Json.reread (entryOf value expires) = entryOf value expires := by
  rw [reread_entryOf, Text.joined_eq_self hvalue]

theorem reread_entriesOf (hl : Legible values) :
    (entriesOf values).map (fun entry => (entry.1, Json.reread entry.2)) = entriesOf values := by
  rw [entriesOf, List.map_map]
  exact List.map_congr_left fun e he => Prod.ext rfl (reread_entryOf_eq (hl.texts e he) _)

theorem Has.load_eq (hhas : Has folder values files) (hl : Legible values) :
    load folder files = (.ok (entriesOf values), []) := by
  rcases hhas with ⟨hnone, rfl⟩ | hfile
  · simp [load, hnone, entriesOf]
  · -- the text is read as it was written: floats round-trip, and no text has a pair of surrogates
    have hshort := hasShortInts_object hl.loaded.short
    have htext := Text.ofFile?_utf8 (Json.isPlain_print (.object (entriesOf values)))
    have hparse := Json.parse_print hshort
    rw [Json.reread, hl.loaded.reread_eq, reread_entriesOf hl] at hparse
    simp only [load, hfile, htext, hparse]

theorem result_get (hhas : Has folder values files) (hl : Legible values) (now : Float) (key : Text) :
    (get folder now key files).result = .ok (live? now key values) := by
  have hfind : Entries.find? key (entriesOf values) = (Entries.find? key values).map _ :=
    Entries.find?_map (fun entry : Text × Float => entryOf entry.1 entry.2) values key
  rw [(get_eq now key files).2 _ _ (hhas.load_eq hl), hfind, Option.bind_map]
  rfl

theorem file_ne_folder (folder : Path) : (file folder).resolve ≠ folder.resolve := by
  rw [file, Path.resolve_child (by decide)]
  exact Path.child_ne _ _

namespace Usable

theorem inOrder (hu : Usable folder files) (hhas : Has folder values files) (hl : Legible values) :
    InOrder folder files where
  loads := ⟨_, _, hhas.load_eq hl⟩
  saves entries := by
    have hparent : (file folder).parent = folder := by simp [file, Path.parent, Path.child]
    unfold save
    rw [Files.makeFolders_of_folder hu.made]
    rcases hhas with ⟨hnone, -⟩ | hfile
    · simp [Files.write, hnone, hparent, hu.made]
    · simp [Files.write_of_file hfile]

theorem save (hu : Usable folder files) {entries : Entries Text Json}
    (hsave : save folder entries files = .ok files') : Usable folder files' := by
  unfold DiskStore.save at hsave
  rw [Files.makeFolders_of_folder hu.made] at hsave
  dsimp only at hsave
  split at hsave
  · cases hsave
  rename_i hwrite
  cases hsave
  obtain ⟨rfl, -⟩ := Files.write_eq_ok hwrite
  exact ⟨Entries.nodup_keys_set hu.nodup, (Files.node?_set_of_ne (file_ne_folder folder) _).trans hu.made,
    (Files.isBlocked_congr fun q hq => Files.node?_set_of_ne hq _).trans hu.reachable⟩

theorem erase (hu : Usable folder files) : Usable folder (Entries.erase (file folder).resolve files) :=
  ⟨Entries.nodup_keys_erase hu.nodup, (Files.node?_erase_of_ne (file_ne_folder folder)).trans hu.made,
    (Files.isBlocked_congr fun _ hq => Files.node?_erase_of_ne hq).trans hu.reachable⟩

end Usable

/-- The store has the values, and they can be read and replaced. -/
structure Follows (folder : Path) (h : StoreHistory) (files : Files) : Prop where
  usable : Usable folder files
  has : ∃ values, Recalls h values ∧ Legible values ∧ Has folder values files

theorem Legible.filter (hl : Legible values) (p : Text × Text × Float → Bool) :
    Legible (values.filter p) where
  nodup := hl.nodup.sublist (List.filter_sublist.map Prod.fst)
  keys e he := hl.keys e (List.mem_of_mem_filter he)
  texts e he := hl.texts e (List.mem_of_mem_filter he)

theorem Legible.set (hl : Legible values) (hkey : key.IsJoined) (hvalue : value.IsJoined) (expires : Float) :
    Legible (Entries.set key (value, expires) values) where
  nodup := Entries.nodup_keys_set hl.nodup
  keys e he := by
    rcases Entries.mem_of_mem_set he with rfl | he
    · exact hkey
    · exact hl.keys e he
  texts e he := by
    rcases Entries.mem_of_mem_set he with rfl | he
    · exact hvalue
    · exact hl.texts e he

/-- What is kept when a text is put are the values that have not expired. -/
theorem renewed_entriesOf (now : Float) (key value : Text) (expires : Float)
    (values : Entries Text (Text × Float)) : renewed now key value expires (entriesOf values) =
      entriesOf (Entries.set key (value, expires) (values.filter fun entry => now < entry.2.2)) := by
  have hset := Entries.set_map (fun entry : Text × Float => entryOf entry.1 entry.2) key (value, expires)
    (values.filter fun entry => now < entry.2.2)
  rw [renewed, entriesOf, entriesOf, List.filter_map]
  exact hset

theorem follows_put (hf : Follows folder h files) (hkey : key.IsJoined) (hvalue : value.IsJoined)
    (hnow : now.isNaN = false) (hrange : (Float.ofInt ttl).isInf = false) :
    Follows folder (h ++ [(now, .put key value ttl)]) (put folder now key value ttl files).state := by
  obtain ⟨hu, values, hr, hl, hhas⟩ := hf
  by_cases hpos : ttl ≤ 0
  · rw [put_of_nonpos hpos]
    exact ⟨hu, values, hr.keep (.refl hr.nodup) (by simp [hpos]), hl, hhas⟩
  obtain ⟨entries, log, files', hload, hsave, hput⟩ :=
    put_of_pos now key value (hu.inOrder hhas hl) (by omega) (Seconds.ofInt?_float hrange)
  cases (hhas.load_eq hl).symm.trans hload
  rw [hput]
  refine ⟨hu.save hsave, _, hr.put (.filter hr.nodup hr.numbers) (by omega) hnow hrange,
    (hl.filter _).set hkey hvalue _, .inr ?_⟩
  rw [← renewed_entriesOf]
  exact (contains_save hsave).written

theorem act_clear (hu : Usable folder files) (hhas : Has folder values files) (now : Float) :
    ∃ files', act folder now .clear files = (.ok none, files') ∧ Usable folder files' ∧
      Has folder [] files' := by
  rcases hhas with ⟨hnone, -⟩ | hfile
  · refine ⟨files, ?_, hu, .inl ⟨hnone, rfl⟩⟩
    simp [act, clear, hnone, hu.reachable]
  · refine ⟨_, ?_, hu.erase, .inl ⟨?_, rfl⟩⟩
    · simp only [act, clear, hfile]
    · have hparts : (file folder).resolve.parts ≠ [] := by
        intro hnil
        rw [Files.node?, if_pos (by simpa using hnil)] at hfile
        cases hfile
      rw [Files.node?_of_parts hparts, Entries.find?_erase_self hu.nodup]

theorem act_eq (hf : Follows folder h files) (hp : Proper capacity (h ++ [(now, action)])) :
    (act folder now action files).1 = .ok (answer? now action h) := by
  obtain ⟨hu, values, hr, hl, hhas⟩ := hf
  cases action with
  | get key =>
      refine (result_get hhas hl now key).trans (congrArg Except.ok ?_)
      exact hr.found now key hp.le_last
  | put key value ttl =>
      have hrange := hp.inRange (now, .put key value ttl) (by simp)
      simp only [act, result_put (hu.inOrder hhas hl), Store.outcome_float hrange]
      rfl
  | clear =>
      obtain ⟨files', hact, -⟩ := act_clear hu hhas now
      rw [hact]
      rfl

theorem follows_act (hf : Follows folder h files) (hp : Proper capacity (h ++ [(now, action)]))
    (hj : action.Joined) (hnow : now.isNaN = false) :
    Follows folder (h ++ [(now, action)]) (act folder now action files).2 := by
  cases action with
  | get key =>
      obtain ⟨hu, values, hr, hl, hhas⟩ := hf
      have hstate : (act folder now (.get key) files).2 = files := (get_eq now key files).1
      rw [hstate]
      exact ⟨hu, values, hr.keep (.refl hr.nodup) (by simp), hl, hhas⟩
  | put key value ttl =>
      exact follows_put hf hj.1 hj.2 hnow (hp.inRange (now, .put key value ttl) (by simp))
  | clear =>
      obtain ⟨hu, values, -, -, hhas⟩ := hf
      obtain ⟨files', hact, hu', hhas'⟩ := act_clear hu hhas now
      rw [hact]
      exact ⟨hu', [], .clear h now, ⟨List.nodup_nil, nofun, nofun⟩, hhas'⟩

theorem follows_after (hu : Usable folder files) (hnone : files.node? (file folder) = none)
    (hp : Proper capacity h) (hj : ∀ e ∈ h, e.2.Joined) (hnumbers : ∀ e ∈ h, e.1.isNaN = false) :
    Follows folder h (after folder h files) := by
  induction h using List.reverseRecOn with
  | nil => exact ⟨hu, [], .nil, ⟨List.nodup_nil, nofun, nofun⟩, .inl ⟨hnone, rfl⟩⟩
  | append_singleton h e ih =>
      have hf := ih hp.init (fun e' he' => hj e' (List.mem_append_left _ he'))
        fun e' he' => hnumbers e' (List.mem_append_left _ he')
      have hp' : Proper capacity (h ++ [(e.1, e.2)]) := hp
      rw [after, List.foldl_append]
      exact follows_act hf hp' (hj e (by simp)) (hnumbers e (by simp))

end DiskStore

/-- Put and looked up in the same way, a store in memory with room for all keys and a store in an empty
folder answer alike: with the latest text of the key, as long as its time is not over. In a file a pair of
surrogates is read as one code point. -/
theorem stores_answer_alike {folder : Path} {files : Files} (hu : DiskStore.Usable folder files)
    (hnone : files.node? (DiskStore.file folder) = none) (hp : Proper capacity (h ++ [(now, action)])) :
    (MemoryStore.act now action (MemoryStore.after h (MemoryStore.empty capacity))).1 =
        .ok (answer? now action h) ∧
      ((∀ e ∈ h, e.2.Joined) → (DiskStore.act folder now action (DiskStore.after folder h files)).1 =
        .ok (answer? now action h)) := by
  have hnumbers : ∀ e ∈ h, e.1.isNaN = false := fun e he => (isNaN_of_le (hp.le_last e he)).1
  obtain ⟨hr, hcapacity⟩ := MemoryStore.recalls_after hp.init hnumbers
  exact ⟨MemoryStore.act_eq hr (hcapacity.symm ▸ hp),
    fun hj => DiskStore.act_eq (DiskStore.follows_after hu hnone hp.init hj hnumbers) hp⟩

theorem stores_answer_alike_renewed :
    let folder : Path := ⟨"/", ["cache"]⟩
    let files : Files := [(folder, .folder)]
    let h : StoreHistory := [(1000, .put "k" "v" 60), (1010, .put "l" "x" 0), (1020, .put "k" "w" 30)]
    DiskStore.Usable folder files ∧ files.node? (DiskStore.file folder) = none ∧
    Proper 2 (h ++ [(1049, .get "k")]) ∧ (∀ e ∈ h, e.2.Joined) ∧
    (MemoryStore.act 1049 (.get "k") (MemoryStore.after h (MemoryStore.empty 2))).1 = .ok (some "w") ∧
    (DiskStore.act folder 1049 (.get "k") (DiskStore.after folder h files)).1 = .ok (some "w") := by
  intro folder files h
  have hu : DiskStore.Usable folder files := ⟨by decide, rfl, by decide +kernel⟩
  have hnone : files.node? (DiskStore.file folder) = none := rfl
  have hp : Proper 2 (h ++ [(1049, .get "k")]) :=
    ⟨by decide +kernel, by decide +kernel, by decide +kernel⟩
  have hj : ∀ e ∈ h, e.2.Joined := by decide +kernel
  have hanswer : answer? 1049 (.get "k") h = some "w" := by decide +kernel
  obtain ⟨hmemory, hdisk⟩ := stores_answer_alike hu hnone hp
  rw [hanswer] at hmemory hdisk
  exact ⟨hu, hnone, hp, hj, hmemory, hdisk hj⟩

/-- In a file a pair of surrogates is another key. And a sum of times is rounded: a text is not found any
more although its time is not over. -/
theorem stores_answer_otherwise :
    let folder : Path := ⟨"/", ["cache"]⟩
    let files : Files := [(folder, .folder)]
    let pair : Text := [.surrogate 0x3D, .surrogate 0x600]
    let paired : StoreHistory := [(1000, .put pair "v" 60)]
    let late : StoreHistory := [(1e16, .put "k" "v" 1)]
    (DiskStore.Usable folder files ∧ files.node? (DiskStore.file folder) = none) ∧
    (Proper 1 (paired ++ [(1001, .get pair)]) ∧
      (MemoryStore.act 1001 (.get pair) (MemoryStore.after paired (MemoryStore.empty 1))).1 =
        .ok (some "v") ∧
      (DiskStore.act folder 1001 (.get pair) (DiskStore.after folder paired files)).1 = .ok none) ∧
    Proper 1 (late ++ [(1e16, .get "k")]) ∧ Binary.compareInt 1e16 (10 ^ 16) = .eq ∧
      (MemoryStore.act 1e16 (.get "k") (MemoryStore.after late (MemoryStore.empty 1))).1 = .ok none ∧
      (DiskStore.act folder 1e16 (.get "k") (DiskStore.after folder late files)).1 = .ok none := by
  intro folder files pair paired late
  exact ⟨⟨⟨by decide, rfl, by decide +kernel⟩, rfl⟩,
    ⟨⟨by decide +kernel, by decide +kernel, by decide +kernel⟩, by decide +kernel, by decide +kernel⟩,
    ⟨by decide +kernel, by decide +kernel, by decide +kernel⟩, by decide +kernel, by decide +kernel,
    by decide +kernel⟩

end MetricBridge
