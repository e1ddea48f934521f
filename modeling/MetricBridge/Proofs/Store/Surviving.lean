import MetricBridge.Proofs.Store.Rewriting

namespace MetricBridge.DiskStore

variable {folder : Path} {files : Files} {content : Bytes} {entries : Entries Text Json}
  {log : List LogEntry} {key value : Text} {ttl : Int} {now : Float}

/-- The content is a text, and no integer in it is too long. -/
def Readable (content : Bytes) : Prop :=
  ∃ text, Text.ofFile? content = some text ∧ Json.parse text ≠ .error .integerTooLong

theorem exists_load_iff (h : Contains folder content files) :
    (∃ entries log, load folder files = (.ok entries, log)) ↔ Readable content := by
  simp only [load, h.written, Readable]
  cases htext : Text.ofFile? content with
  | none => simp
  | some text =>
      cases hparse : Json.parse text with
      | ok j => cases j <;> simp [hparse]
      | error fault => cases fault <;> simp [hparse]

theorem exists_get_iff (now : Float) (key : Text) (files : Files) :
    (∃ found, (get folder now key files).result = .ok found) ↔
      ∃ entries log, load folder files = (.ok entries, log) := by
  constructor
  · rintro ⟨found, hget⟩
    rw [get] at hget
    split at hget
    · cases hget
    · rename_i entries log hload
      exact ⟨entries, log, hload⟩
  · rintro ⟨entries, log, hload⟩
    exact ⟨_, (get_eq now key files).2 entries log hload⟩

theorem result_put_iff (h : Contains folder content files) (hpos : 0 < ttl) :
    (put folder now key value ttl files).result = .ok () ↔
      Readable content ∧ (Float.ofInt ttl).isInf = false := by
  constructor
  · intro hput
    have horder := inOrder_of_put hpos hput
    rw [result_put horder, Store.outcome_eq_ok_iff hpos] at hput
    exact ⟨(exists_load_iff h).mp horder.loads, hput⟩
  · rintro ⟨hreadable, hrange⟩
    obtain ⟨entries, log, hload⟩ := (exists_load_iff h).mpr hreadable
    exact (result_put (h.inOrder_of_load hload) _ _ _ _).trans (Store.outcome_float hrange)

/-- A text that was put is found under its key if the two are read as they are written. -/
theorem found_after_put_iff (h : InOrder folder files) (hpos : 0 < ttl)
    (hrange : (Float.ofInt ttl).isInf = false) (now later : Float) :
    (get folder later key (put folder now key value ttl files).state).result = .ok (some value) ↔
      key.IsJoined ∧ value.IsJoined ∧ ¬now + Float.ofInt ttl ≤ later := by
  obtain ⟨entries, log, hload⟩ := h.loads
  rw [result_get_put h hload hpos hrange, Except.ok.injEq]
  by_cases hkey : key.IsJoined
  · rw [if_pos (Text.joined_eq_self hkey).symm]
    by_cases hexpired : now + Float.ofInt ttl ≤ later
    · simp [hexpired]
    · rw [if_neg hexpired, Option.some_inj]
      exact ⟨fun hvalue => ⟨hkey, Text.isJoined_of_joined_eq hvalue, hexpired⟩,
        fun hall => Text.joined_eq_self hall.2.1⟩
  · -- such a key is in no file
    have hne : key ≠ key.joined := fun heq => hkey (Text.isJoined_of_joined_eq heq.symm)
    have hnone : Entries.find? key entries = none :=
      Entries.find?_eq_none.mpr fun hmem => hkey ((loaded_of_load hload).isJoined hmem)
    simp [hne, hnone, hkey]

/-- A store survives a content of its file exactly if the content can be read. This assumes a reader of
JSON without a limit for the nesting of values. -/
theorem survives_iff_readable (h : Contains folder content files) :
    (∀ (now : Float) key, (∃ found, (get folder now key files).result = .ok found) ↔ Readable content) ∧
    ∀ (now : Float) key value ttl, 0 < ttl →
      ((put folder now key value ttl files).result = .ok () ↔
        Readable content ∧ (Float.ofInt ttl).isInf = false) ∧
      ((put folder now key value ttl files).result = .ok () → ∀ later,
        (get folder later key (put folder now key value ttl files).state).result = .ok (some value) ↔
          key.IsJoined ∧ value.IsJoined ∧ ¬now + Float.ofInt ttl ≤ later) := by
  refine ⟨fun now key => (exists_get_iff now key files).trans (exists_load_iff h), ?_⟩
  intro now key value ttl hpos
  refine ⟨result_put_iff h hpos, fun hput later => ?_⟩
  exact found_after_put_iff (inOrder_of_put hpos hput) hpos ((result_put_iff h hpos).mp hput).2 now later

/-- A byte that begins no character is no text, and a word that begins no value counts as no entries. -/
theorem survives_iff_readable_malformed :
    let folder : Path := ⟨"/", ["cache"]⟩
    let garbled : Files := [(folder, .folder), (file folder, .file [0xFF])]
    let malformed : Files := [(folder, .folder), (file folder, .file (lit "nul").utf8)]
    let written := (put folder (1000 : Float) "k" "v" 60 malformed).state
    (Contains folder [0xFF] garbled ∧ Contains folder (lit "nul").utf8 malformed) ∧
    (¬∃ found, (get folder (1000 : Float) "k" garbled).result = .ok found) ∧
    (put folder (1000 : Float) "k" "v" 60 garbled).result ≠ .ok () ∧
    (put folder (1000 : Float) "k" "v" 60 malformed).result = .ok () ∧
    (get folder (1059 : Float) "k" written).result = .ok (some "v") ∧
    (get folder (1060 : Float) "k" written).result ≠ .ok (some "v") := by
  intro folder garbled malformed written
  have hgarbled : Contains folder [0xFF] garbled := ⟨rfl, rfl⟩
  have hmalformed : Contains folder (lit "nul").utf8 malformed := ⟨rfl, rfl⟩
  have hnot : ¬Readable [0xFF] := by
    rintro ⟨text, htext, -⟩
    have hnone : Text.ofFile? [0xFF] = none := by decide +kernel
    cases hnone.symm.trans htext
  have hreadable : Readable (lit "nul").utf8 := ⟨lit "nul", by decide +kernel, nofun⟩
  obtain ⟨hget, hput⟩ := survives_iff_readable hgarbled
  obtain ⟨-, hput'⟩ := survives_iff_readable hmalformed
  have hwritten := (hput' 1000 "k" "v" 60 (by decide)).1.mpr ⟨hreadable, by decide +kernel⟩
  have hfound := (hput' 1000 "k" "v" 60 (by decide)).2 hwritten
  refine ⟨⟨hgarbled, hmalformed⟩, fun hfound => hnot ((hget 1000 "k").mp hfound),
    fun hput'' => hnot ((hput 1000 "k" "v" 60 (by decide)).1.mp hput'').1, hwritten, ?_, ?_⟩
  · exact (hfound 1059).mpr ⟨by decide, by decide, by decide +kernel⟩
  · exact fun hexpired => ((hfound 1060).mp hexpired).2.2 (by decide +kernel)

end MetricBridge.DiskStore
