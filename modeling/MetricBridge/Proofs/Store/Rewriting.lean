import MetricBridge.Proofs.Decimal.Exact
import MetricBridge.Proofs.Store.Alike

namespace MetricBridge

variable {source text : Text} {j : Json} {now later : Float}

namespace Seconds

/-- What is not ahead now is reached later. -/
theorem reached?_of_ahead? (hle : now ≤ later) (hnumber : ∀ x, j = .float x → x.isNaN = false)
    (h : ahead? now j ≠ some true) : reached? later j ≠ some false := by
  obtain ⟨hnow, hlater⟩ := isNaN_of_le hle
  have hint : ∀ n, ((!now.isNaN && Binary.compareInt now n == .lt) ≠ true) →
      (!later.isNaN && Binary.compareInt later n != .lt) ≠ false := by
    intro n hn
    simp only [hnow, hlater, Bool.not_false, Bool.true_and, beq_iff_eq, ne_eq, bne_eq_false_iff_eq] at hn ⊢
    exact compareInt_mono hle hn
  cases hnumberOf : numberOf? j with
  | none => simp [reached?, hnumberOf]
  | some number =>
      simp only [ahead?, hnumberOf, Option.map_some, ne_eq, Option.some_inj] at h
      simp only [reached?, hnumberOf, Option.map_some, ne_eq, Option.some_inj]
      cases number with
      | inl x =>
          have hx : x.isNaN = false := by
            cases j <;> cases hnumberOf
            exact hnumber x rfl
          have hreached : x ≤ now := by simpa [← floatNot_le hx hnow] using h
          simp [floatLe_trans hreached hle]
      | inr n => exact hint n h

end Seconds

namespace DiskStore

variable {folder : Path} {files files' : Files} {content : Bytes} {entries : Entries Text Json}
  {log : List LogEntry} {key value k : Text} {expires : Float} {ttl : Int} {entry : Json}

theorem liveValue?_of_dropped (hle : now ≤ later)
    (hnumber : ∀ x, entry.field? "expires_at" = some (.float x) → x.isNaN = false)
    (h : isKept now entry = false) : liveValue? later entry = none := by
  cases hfield : entry.field? "expires_at" with
  | none =>
      rw [liveValue?, hfield]
      rfl
  | some j =>
      rw [isKept, hfield, Option.bind_some] at h
      have hahead : Seconds.ahead? now j ≠ some true := by
        intro htrue
        rw [htrue] at h
        cases h
      have hreached := Seconds.reached?_of_ahead? hle (fun x hx => hnumber x (hx ▸ hfield)) hahead
      rw [liveValue?, hfield]
      cases hr : Seconds.reached? later j with
      | none => simp [hr]
      | some reached =>
          cases reached with
          | true => simp [hr]
          | false => exact absurd hr hreached

/-- A put changes the answers for its own key only. -/
theorem result_get_put (h : InOrder folder files) (hload : load folder files = (.ok entries, log))
    (hpos : 0 < ttl) (hrange : (Float.ofInt ttl).isInf = false) (now : Float) (key value : Text) :
    ∀ later k, (get folder later k (put folder now key value ttl files).state).result =
      .ok (if k = key.joined then if now + Float.ofInt ttl ≤ later then none else some value.joined
        else ((Entries.find? k entries).filter (isKept now)).bind (liveValue? later)) := by
  intro later k
  obtain ⟨entries', log', files', hload', hsave, hput⟩ :=
    put_of_pos now key value h hpos (Seconds.ofInt?_float hrange)
  cases hload.symm.trans hload'
  rw [hput, (get_eq later k files').2 _ _ (load_renewed hload (contains_save hsave)), Entries.find?_set]
  split
  · rename_i hk
    rw [if_pos hk.symm]
    exact congrArg Except.ok (liveValue?_entryOf value.joined _ later)
  · rename_i hk
    rw [if_neg (Ne.symm hk), Entries.find?_filter (loaded_of_load hload).nodup]

/-- After a put the new text is found until it expires, and the other keys have their answers. Expiry times
are numbers, and a sum of times is rounded. -/
theorem put_keeps_others (h : Contains folder content files) (htext : Text.ofFile? content = some text)
    (hobject : Json.parse text = .ok (.object entries))
    (hnumbers : ∀ e ∈ entries, ∀ x, e.2.field? "expires_at" = some (.float x) → x.isNaN = false)
    (hpos : 0 < ttl) :
    ((Float.ofInt ttl).isInf = false → (put folder now key value ttl files).result = .ok () ∧
      ∀ later, now ≤ later → ∀ k, (get folder later k (put folder now key value ttl files).state).result =
        if k = key.joined then .ok (if now + Float.ofInt ttl ≤ later then none else some value.joined)
        else (get folder later k files).result) ∧
    ((Float.ofInt ttl).isInf = true →
      (put folder now key value ttl files).result = .error .timeOutOfRange ∧
        (put folder now key value ttl files).state = files) := by
  have hload : load folder files = (.ok entries, []) := by
    simp only [load, h.written, htext, hobject]
  have horder := h.inOrder_of_load hload
  constructor
  · intro hrange
    refine ⟨(result_put horder now key value ttl).trans (Store.outcome_float hrange), fun later hle k => ?_⟩
    rw [result_get_put horder hload hpos hrange, (get_eq later k files).2 _ _ hload]
    split
    · rfl
    · cases hfind : Entries.find? k entries with
      | none => rfl
      | some entry =>
          have hnumber := hnumbers _ (Entries.mem_of_find? hfind)
          cases hkept : isKept now entry with
          | true => rw [Option.filter_some_pos hkept]
          | false =>
              rw [Option.filter_some_neg (by simp [hkept]), Option.bind_some,
                liveValue?_of_dropped hle hnumber hkept]
              rfl
  · intro hrange
    exact put_out_of_range horder hpos (if_pos hrange)

theorem put_keeps_others_pruned :
    let folder : Path := ⟨"/", ["cache"]⟩
    let entries : Entries Text Json := [("l", .object [("value", .string "x"), ("expires_at", .int 1000)]),
      ("m", .object [("value", .string "y"), ("expires_at", .int 1001)]), ("n", .null)]
    let text := (Json.object entries).print
    let files : Files := [(folder, .folder), (file folder, .file text.utf8)]
    let written := (put folder (1000 : Float) "k" "v" 60 files).state
    (Contains folder text.utf8 files ∧ Text.ofFile? text.utf8 = some text ∧
      Json.parse text = .ok (.object entries) ∧
      (∀ e ∈ entries, ∀ x, e.2.field? "expires_at" = some (.float x) → x.isNaN = false) ∧ (0 : Int) < 60 ∧
      (Float.ofInt 60).isInf = false) ∧
    (get folder (1059 : Float) "k" written).result = .ok (some "v") ∧
    (get folder (1060 : Float) "k" written).result = .ok none ∧
    (get folder (1000 : Float) "m" written).result = (get folder (1000 : Float) "m" files).result := by
  intro folder entries text files written
  have hshort : (Json.object entries).HasShortInts := by
    intro n hn
    have hn : n = 1000 ∨ n = 1001 := by
      simpa [entries, Json.parts, Json.partsOfFields] using hn
    rcases hn with rfl | rfl <;> decide +kernel
  have hparse : Json.parse text = .ok (.object entries) := Json.parse_print hshort
  have hnumbers : ∀ e ∈ entries, ∀ x, e.2.field? "expires_at" = some (.float x) → x.isNaN = false := by
    have hne : lit "value" ≠ lit "expires_at" := by decide
    simp [entries, Json.field?, Entries.find?, hne]
  have hcontains : Contains folder text.utf8 files := ⟨rfl, rfl⟩
  have htext := Text.ofFile?_utf8 (Json.isPlain_print (.object entries))
  have hrange : (Float.ofInt 60).isInf = false := by decide +kernel
  have hget : ∀ later, 1000 ≤ later → ∀ k, (get folder later k written).result =
      if k = (lit "k").joined then
        .ok (if 1000 + Float.ofInt 60 ≤ later then none else some (lit "v").joined)
      else (get folder later k files).result :=
    ((put_keeps_others hcontains htext hparse hnumbers (by decide)).1 hrange).2
  refine ⟨⟨hcontains, htext, hparse, hnumbers, by decide, hrange⟩, ?_, ?_, ?_⟩
  · rw [hget 1059 (by decide +kernel), if_pos (by decide), if_neg (by decide +kernel)]
    rfl
  · rw [hget 1060 (by decide +kernel), if_pos (by decide), if_pos (by decide +kernel)]
  · rw [hget 1000 (by decide +kernel), if_neg (by decide)]

/-- In a file a pair of surrogates is another key. And a sum of times is rounded: a text is not found any
more although its time is not over. -/
theorem put_answers_otherwise :
    let folder : Path := ⟨"/", ["cache"]⟩
    let files : Files := [(folder, .folder), (file folder, .file (lit "{}").utf8)]
    let pair : Text := [.surrogate 0x3D, .surrogate 0x600]
    let paired := (put folder (1000 : Float) pair "v" 60 files).state
    let late := (put folder (1e16 : Float) "k" "v" 1 files).state
    (Contains folder (lit "{}").utf8 files ∧ Json.parse "{}" = .ok (.object [])) ∧
    ((get folder (1000 : Float) pair paired).result = .ok none ∧
      (get folder (1000 : Float) pair.joined files).result = .ok none ∧
      (get folder (1000 : Float) pair.joined paired).result = .ok (some "v")) ∧
    Binary.compareInt 1e16 (10 ^ 16 + 1) = .lt ∧ (get folder (1e16 : Float) "k" late).result = .ok none := by
  intro folder files pair paired late
  exact ⟨⟨⟨rfl, rfl⟩, rfl⟩, ⟨by decide +kernel, by decide +kernel, by decide +kernel⟩, by decide +kernel,
    by decide +kernel⟩

end DiskStore
end MetricBridge
