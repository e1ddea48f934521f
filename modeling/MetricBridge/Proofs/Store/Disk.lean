import MetricBridge.Proofs.Files
import MetricBridge.Proofs.Json.Floats
import MetricBridge.Proofs.Store.Keeping
import MetricBridge.Store.Disk

namespace MetricBridge

/-- What is read from the text of a float compares like the float, if finite floats are read back. -/
theorem rereadFloat_le {x : Float} (h : ReadsBack x) (y : Float) : rereadFloat x ≤ y ↔ x ≤ y := by
  cases floatForm x with
  | nan hnan _ read =>
      have hzero : (0.0 / 0.0 : Float).toModel.unpack = .notANumber := rfl
      rw [read, le_iff_unpack, le_iff_unpack, unpack_isNaN hnan, hzero]
  | infinity hinf sign _ read =>
      have hpositive : (1.0 / 0.0 : Float).toModel.unpack = .infinity .positive := rfl
      rw [read, le_iff_unpack, le_iff_unpack, unpack_infinity hinf, if_neg sign, hpositive]
  | minusInfinity hinf sign _ read =>
      have hnegative : (-1.0 / 0.0 : Float).toModel.unpack = .infinity .negative := rfl
      rw [read, le_iff_unpack, le_iff_unpack, unpack_infinity hinf, if_pos sign, hnegative]
  | numeral _ _ hnan hinf => rw [rereadFloat, h hnan hinf]

theorem ReadsBack.isKept {x : Float} (h : ReadsBack x) : Seconds.IsKept x :=
  fun now => congrArg some (decide_eq_decide.mpr (rereadFloat_le h now))

namespace DiskStore

variable {folder : Path} {files files' : Files} {entries : Entries Text Json} {log : List LogEntry}
  {key value : Text} {now : Float} {ttl : Int}

structure Loaded (entries : Entries Text Json) : Prop where
  nodup : (Entries.keys entries).Nodup
  joined : ∀ entry ∈ entries, entry.1.IsJoined
  short : ∀ entry ∈ entries, entry.2.HasShortInts

theorem loaded_of_readFrom {source : Text} (hsource : source.NoSurrogate)
    (h : Json.ReadFrom source (.object entries)) : Loaded entries := by
  cases h with
  | object _ hnodup hnames hfrom =>
      exact ⟨hnodup, fun entry he => hnames entry he hsource,
        fun entry he => (hfrom entry he).hasShortInts⟩

theorem readFrom_of_load (h : load folder files = (.ok entries, log)) :
    ∃ source : Text, source.NoSurrogate ∧ Json.ReadFrom source (.object entries) := by
  have hnil : ∃ source : Text, source.NoSurrogate ∧ Json.ReadFrom source (.object []) :=
    ⟨[], nofun, .object [] List.nodup_nil nofun nofun⟩
  unfold load at h
  split at h
  · cases h
    exact hnil
  · cases h
    exact hnil
  · split at h
    · cases h
    · rename_i text htext
      split at h
      · rename_i fields hparse
        cases h
        exact ⟨text, Text.noSurrogate_ofFile? htext, Json.readFrom_of_parse hparse⟩
      · cases h
        exact hnil
      · cases h
        exact hnil
      · cases h

theorem loaded_of_load (h : load folder files = (.ok entries, log)) : Loaded entries := by
  obtain ⟨source, hsource, hfrom⟩ := readFrom_of_load h
  exact loaded_of_readFrom hsource hfrom

theorem reread_of_load (h : load folder files = (.ok entries, log)) :
    ∀ entry ∈ entries, Json.reread entry.2 = entry.2 := by
  obtain ⟨source, hsource, hfrom⟩ := readFrom_of_load h
  cases hfrom with
  | object _ _ _ hfrom => exact fun entry he => (hfrom entry he).reread_eq hsource

theorem Loaded.isJoined (h : Loaded entries) (hkey : key ∈ Entries.keys entries) : key.IsJoined := by
  obtain ⟨entry, he, rfl⟩ := List.mem_map.mp hkey
  exact h.joined entry he

theorem Loaded.filter (h : Loaded entries) (p : Text × Json → Bool) : Loaded (entries.filter p) where
  nodup := h.nodup.sublist (List.filter_sublist.map Prod.fst)
  joined entry he := h.joined entry (List.mem_of_mem_filter he)
  short entry he := h.short entry (List.mem_of_mem_filter he)

theorem Loaded.set (h : Loaded entries) (hkey : key.IsJoined) {entry : Json}
    (hentry : entry.HasShortInts) : Loaded (Entries.set key entry entries) where
  nodup := Entries.nodup_keys_set h.nodup
  joined e he := by
    rcases Entries.mem_of_mem_set he with rfl | he
    · exact hkey
    · exact h.joined e he
  short e he := by
    rcases Entries.mem_of_mem_set he with rfl | he
    · exact hentry
    · exact h.short e he

structure Contains (folder : Path) (content : Bytes) (files : Files) : Prop where
  made : files.node? folder = some .folder
  written : files.node? (file folder) = some (.file content)

theorem contains_save (h : save folder entries files = .ok files') :
    Contains folder (Json.object entries).print.utf8 files' := by
  unfold save at h
  split at h
  · cases h
  rename_i files₁ hfolder
  split at h
  · cases h
  rename_i files₂ hwrite
  cases h
  obtain ⟨rfl, hparts⟩ := Files.write_eq_ok hwrite
  have hne : (file folder).resolve ≠ folder.resolve := by
    rw [file, Path.resolve_child (by decide)]
    exact Path.child_ne _ _
  exact ⟨(Files.node?_set_of_ne hne _).trans (Files.node?_makeFolders hfolder),
    Files.node?_set hparts _⟩

theorem exists_save (h : save folder entries files = .ok files') (more : Entries Text Json) :
    ∃ files'', save folder more files = .ok files'' := by
  unfold save at h ⊢
  split at h
  · cases h
  · split at h
    · cases h
    · rename_i hwrite
      obtain ⟨files'', hmore⟩ := Files.exists_write hwrite (Json.object more).print.utf8
      rw [hmore]
      exact ⟨files'', rfl⟩

structure InOrder (folder : Path) (files : Files) : Prop where
  loads : ∃ entries log, load folder files = (.ok entries, log)
  saves : ∀ entries, ∃ files', save folder entries files = .ok files'

namespace Contains

/-- What is saved is loaded as it is read back. -/
theorem load_eq (h : Contains folder (Json.object entries).print.utf8 files)
    (hshort : (Json.object entries).HasShortInts) :
    load folder files = (.ok (Entries.ofPairs (Json.rereadFields entries)), []) := by
  have htext := Text.ofFile?_utf8 (Json.isPlain_print (.object entries))
  have hparse := Json.parse_print hshort
  rw [Json.reread] at hparse
  simp only [load, h.written, htext, hparse]

theorem inOrder_of_load {content : Bytes} (h : Contains folder content files)
    (hload : load folder files = (.ok entries, log)) : InOrder folder files where
  loads := ⟨entries, log, hload⟩
  saves more := by
    unfold save
    simp only [Files.makeFolders_of_folder h.made, Files.write_of_file h.written]
    exact ⟨_, rfl⟩

theorem inOrder (h : Contains folder (Json.object entries).print.utf8 files)
    (hshort : (Json.object entries).HasShortInts) : InOrder folder files :=
  h.inOrder_of_load (h.load_eq hshort)

end Contains

def entryOf (value : Text) (expires : Float) : Json :=
  .object [("value", .string value), ("expires_at", Seconds.toJson expires)]

def renewed (now : Float) (key value : Text) (expires : Float) (entries : Entries Text Json) :
    Entries Text Json :=
  Entries.set key (entryOf value expires) (entries.filter fun (_, entry) => isKept now entry)

theorem hasShortInts_entryOf (value : Text) (expires : Float) :
    (entryOf value expires).HasShortInts := by
  intro n hn
  simp [entryOf, Json.parts, Json.partsOfFields, Seconds.toJson] at hn

theorem hasShortInts_object (h : ∀ entry ∈ entries, entry.2.HasShortInts) :
    (Json.object entries).HasShortInts := by
  intro n hn
  obtain ⟨entry, hentry, hn⟩ := (Json.mem_parts_object.mp hn).resolve_left nofun
  exact h entry hentry n hn

theorem hasShortInts_renewed (h : Loaded entries) (now : Float) (key value : Text)
    (expires : Float) : (Json.object (renewed now key value expires entries)).HasShortInts := by
  refine hasShortInts_object fun entry he => ?_
  rcases Entries.mem_of_mem_set he with rfl | he
  · exact hasShortInts_entryOf value expires
  · exact h.short entry (List.mem_of_mem_filter he)

theorem put_of_pos (now : Float) (key value : Text) (h : InOrder folder files) (hpos : 0 < ttl)
    {seconds : Float} (hseconds : Seconds.ofInt? ttl = some seconds) : ∃ entries log files',
      load folder files = (.ok entries, log) ∧
      save folder (renewed now key value (Seconds.add now seconds) entries) files = .ok files' ∧
      put folder now key value ttl files = ⟨.ok (), files', log⟩ := by
  obtain ⟨entries, log, hload⟩ := h.loads
  obtain ⟨files', hsave⟩ := h.saves (renewed now key value (Seconds.add now seconds) entries)
  refine ⟨entries, log, files', hload, hsave, ?_⟩
  unfold put
  rw [if_neg (by omega), hload]
  simp only [hseconds]
  unfold renewed entryOf at hsave
  rw [hsave]

theorem put_of_nonpos (h : ttl ≤ 0) : put folder now key value ttl files = ⟨.ok (), files, []⟩ :=
  if_pos h

theorem put_out_of_range (h : InOrder folder files) (hpos : 0 < ttl)
    (hnone : (Seconds.ofInt? ttl : Option Float) = none) :
    (put folder now key value ttl files).result = .error .timeOutOfRange ∧
      (put folder now key value ttl files).state = files := by
  obtain ⟨entries, log, hload⟩ := h.loads
  unfold put
  rw [if_neg (by omega), hload]
  simp [hnone]

theorem get_eq (now : Float) (key : Text) (files : Files) :
    (get folder now key files).state = files ∧ ∀ entries log, load folder files = (.ok entries, log) →
      (get folder now key files).result =
        .ok ((Entries.find? key entries).bind (liveValue? now)) := by
  unfold get
  split
  · rename_i hload
    refine ⟨rfl, fun _ _ h => ?_⟩
    cases hload.symm.trans h
  · rename_i hload
    refine ⟨rfl, fun _ _ h => ?_⟩
    cases hload.symm.trans h
    rfl

def Same (folder : Path) (files files' : Files) : Prop :=
  files'.node? folder = files.node? folder ∧ files'.node? (file folder) = files.node? (file folder)

theorem Contains.of_reads {content : Bytes} {allowed : Float → Text → Prop}
    (h : Contains folder content files)
    (hreads : (store folder).Reads (Same folder) allowed files files') :
    Contains folder content files' := by
  refine hreads.invariant (Contains folder content) h (fun z now key _ hz => ?_) fun z z' hsame hz => ?_
  · exact ((get_eq now key z).1).symm ▸ hz
  · exact ⟨hsame.1.trans hz.made, hsame.2.trans hz.written⟩

/-- Keys that were read are read again as they are. -/
theorem Loaded.reread_eq (h : Loaded entries) : Entries.ofPairs (Json.rereadFields entries) =
    entries.map fun entry => (entry.1, Json.reread entry.2) := by
  have hfields : Json.rereadFields entries = entries.map fun entry => (entry.1, Json.reread entry.2) := by
    rw [Json.rereadFields_eq]
    exact List.map_congr_left fun entry he => by rw [Text.joined_eq_self (h.joined entry he)]
  have hkeys : Entries.keys (Json.rereadFields entries) = Entries.keys entries := by
    rw [hfields]
    simp [Entries.keys]
  rw [Entries.ofPairs_eq_self (hkeys ▸ h.nodup), hfields]

theorem reread_entryOf (value : Text) (expires : Float) :
    Json.reread (entryOf value expires) = entryOf value.joined expires := by
  have hexpires : Json.reread (Seconds.toJson expires) = Seconds.toJson expires :=
    congrArg Json.float (rereadFloat_eq expires)
  rw [entryOf, Json.reread, Json.rereadFields, Json.rereadFields, Json.rereadFields, Json.reread, hexpires]
  rfl

theorem liveValue?_entryOf (value : Text) (expires now : Float) :
    liveValue? now (entryOf value expires) = if expires ≤ now then none else some value := by
  have hreached : Seconds.reached? now (Seconds.toJson expires) = some (decide (expires ≤ now)) := rfl
  have hexpires : (entryOf value expires).field? "expires_at" = some (Seconds.toJson expires) := rfl
  have hvalue : (entryOf value expires).field? "value" = some (.string value) := rfl
  simp [liveValue?, hexpires, hreached, hvalue, Json.text?]

/-- Only the new key and the new text are not read as they are written. -/
theorem ofPairs_rereadFields_set (h : Loaded entries) (hsame : ∀ e ∈ entries, Json.reread e.2 = e.2)
    (key value : Text) (expires : Float) :
    Entries.ofPairs (Json.rereadFields (Entries.set key (entryOf value expires) entries)) =
      Entries.set key.joined (entryOf value.joined expires) entries := by
  have hmap : entries.map (fun e => (e.1, Json.reread e.2)) = entries := by
    refine (List.map_congr_left fun e he => ?_).trans (List.map_id entries)
    rw [hsame e he]
    rfl
  by_cases hmem : key ∈ Entries.keys entries
  · have hkey := h.isJoined hmem
    rw [(h.set hkey (hasShortInts_entryOf value expires)).reread_eq, ← Entries.set_map, hmap,
      reread_entryOf, Text.joined_eq_self hkey]
  · -- the key can be written like one that is there, which it then replaces
    rw [Entries.set_of_notMem hmem, Json.rereadFields_eq, List.map_append, List.map_singleton,
      Entries.ofPairs_snoc, ← Json.rereadFields_eq, h.reread_eq, hmap, reread_entryOf]

/-- The renewed entries are the new one and those that are kept. -/
theorem load_renewed (hload : load folder files = (.ok entries, log)) {expires : Float}
    (h : Contains folder (Json.object (renewed now key value expires entries)).print.utf8 files') :
    load folder files' = (.ok (Entries.set key.joined (entryOf value.joined expires)
      (entries.filter fun (_, entry) => isKept now entry)), []) := by
  have hloaded := loaded_of_load hload
  have hsame : ∀ e ∈ entries.filter fun (_, entry) => isKept now entry, Json.reread e.2 = e.2 :=
    fun e he => reread_of_load hload e (List.mem_of_mem_filter he)
  rw [h.load_eq (hasShortInts_renewed hloaded now key value expires), renewed,
    ofPairs_rereadFields_set (hloaded.filter _) hsame]

/-- A value in a file is found until it expires, if its key is read as it is written. -/
theorem holds_put (h : InOrder folder files) (hkey : key.IsJoined) (hpos : 0 < ttl)
    {seconds : Float} (hseconds : Seconds.ofInt? ttl = some seconds) (hvalue : value.IsJoined) :
    (store folder).Holds (Same folder) (InOrder folder) key value (Seconds.add now seconds)
      (put folder now key value ttl files).state := by
  obtain ⟨entries, log, files', hload, hsave, hput⟩ := put_of_pos now key value h hpos hseconds
  have hcontains := contains_save hsave
  have hget : ∀ {allowed : Float → Text → Prop} {z : Files},
      (store folder).Reads (Same folder) allowed files' z → ∀ now' : Float,
        (get folder now' key z).result =
          .ok (if Seconds.le (Seconds.add now seconds) now' then none else some value) := by
    intro allowed z hreads now'
    have hexpired : Seconds.le (Seconds.add now seconds) now' = decide (Seconds.add now seconds ≤ now') := rfl
    rw [(get_eq now' key z).2 _ _ (load_renewed hload (hcontains.of_reads hreads)), Text.joined_eq_self hkey,
      Text.joined_eq_self hvalue, Entries.find?_set, if_pos rfl, Option.bind_some, liveValue?_entryOf, hexpired]
    simp only [decide_eq_true_eq]
  rw [hput]
  refine ⟨fun z hreads now' hnow => ?_, fun z hreads now' hnow => ?_, fun z hreads => ?_⟩
  · refine (hget hreads now').trans ?_
    rw [hnow]
    rfl
  · refine (hget hreads now').trans ?_
    rw [hnow]
    rfl
  · exact (hcontains.of_reads hreads).inOrder (hasShortInts_renewed (loaded_of_load hload) _ _ _ _)

theorem result_put (h : InOrder folder files) (now : Float) (key value : Text) (ttl : Int) :
    (put folder now key value ttl files).result = Store.outcome Float ttl := by
  unfold Store.outcome
  by_cases hpos : ttl ≤ 0
  · rw [put_of_nonpos hpos, if_pos (.inl hpos)]
  · cases hseconds : (Seconds.ofInt? ttl : Option Float) with
    | none =>
        rw [(put_out_of_range h (by omega) hseconds).1]
        simp [hpos]
    | some seconds =>
        obtain ⟨entries, log, files', -, -, hput⟩ := put_of_pos now key value h (by omega) hseconds
        rw [hput]
        simp

theorem inOrder_put (h : InOrder folder files) (now : Float) (key value : Text) (ttl : Int) :
    InOrder folder (put folder now key value ttl files).state := by
  by_cases hpos : ttl ≤ 0
  · rw [put_of_nonpos hpos]
    exact h
  · cases hseconds : (Seconds.ofInt? ttl : Option Float) with
    | none =>
        rw [(put_out_of_range h (by omega) hseconds).2]
        exact h
    | some seconds =>
        obtain ⟨entries, log, files', hload, hsave, hput⟩ :=
          put_of_pos now key value h (by omega) hseconds
        rw [hput]
        exact (contains_save hsave).inOrder (hasShortInts_renewed (loaded_of_load hload) _ _ _ _)

/-- A file into which a text was put can be read and written. -/
theorem inOrder_of_put (hpos : 0 < ttl) (h : (put folder now key value ttl files).result = .ok ()) :
    InOrder folder files := by
  unfold put at h
  rw [if_neg (by omega)] at h
  split at h
  · cases h
  · rename_i entries log hload
    split at h
    · cases h
    · dsimp only at h
      split at h
      · cases h
      · rename_i files' hsave
        exact ⟨⟨entries, log, hload⟩, exists_save hsave⟩

theorem keeps (folder : Path) (hkey : key.IsJoined) :
    (store folder : Store Files Float).Keeps key (fun _ => True) (InOrder folder) (Same folder) where
  sound_get _ := trivial
  inOrder_of_put _ hpos h := inOrder_of_put hpos h
  result_put h := result_put h _ _ _ _
  inOrder_get h := (get_eq _ _ _).1.symm ▸ h
  inOrder_put h := inOrder_put h _ _ _ _
  holds_put h hpos hseconds hvalue _ := holds_put h hkey hpos hseconds hvalue

end DiskStore
end MetricBridge
