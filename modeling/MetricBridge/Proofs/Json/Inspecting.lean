import MetricBridge.Json.Shape
import MetricBridge.Proofs.Except
import MetricBridge.Proofs.Json.Ascii

namespace MetricBridge

open Text (IsPlain NoSurrogate)

namespace CodePoint

variable {quote : CodePoint}

theorem isPrintable_surrogate (n : Fin 0x800) : isPrintable (.surrogate n) = false := by
  have hmem : (0xD7FC, 0xF8FF) ∈ unprintable := by decide
  have hrange : inRanges (0xD800 + n) unprintable = true := by
    refine List.any_eq_true.mpr ⟨_, hmem, ?_⟩
    rw [Bool.and_eq_true, decide_eq_true_eq, decide_eq_true_eq]
    omega
  have hlarge : ¬0xD800 + n.val < 0x7F := by omega
  simp only [isPrintable, val, if_neg hlarge, hrange, Bool.not_true]

theorem isPlain_hexDigits (n m : Nat) : IsPlain (hexDigits n m) := by
  induction n generalizing m with
  | zero => exact List.forall_mem_nil _
  | succ n ih => exact (ih (m / 16)).append (Text.isPlain_hexDigit m)

theorem isPlain_numbered (c : CodePoint) : IsPlain c.numbered := by
  have hmarks : IsPlain (lit "\\x") ∧ IsPlain (lit "\\u") ∧ IsPlain (lit "\\U") := by decide
  unfold numbered
  dsimp only
  split
  · exact hmarks.1.append (isPlain_hexDigits 2 _)
  · split
    · exact hmarks.2.1.append (isPlain_hexDigits 4 _)
    · exact hmarks.2.2.append (isPlain_hexDigits 8 _)

theorem noSurrogate_inMessage (hquote : IsPlain [quote]) (c : CodePoint) :
    NoSurrogate (inMessage quote c) := by
  unfold inMessage
  split
  · rename_i hspecial
    have hslash : IsPlain [.scalar '\\'] := by decide
    have hc : IsPlain [c] := by rcases hspecial with rfl | rfl <;> assumption
    exact (hslash.append hc).noSurrogate
  · repeat' split
    · decide
    · decide
    · decide
    · rename_i hprints
      rintro n hn
      rw [← List.mem_singleton.mp hn, isPrintable_surrogate] at hprints
      cases hprints
    · exact (isPlain_numbered c).noSurrogate

end CodePoint

theorem Text.noSurrogate_inSingleQuotes (t : Text) : NoSurrogate t.inSingleQuotes := by
  unfold inSingleQuotes
  dsimp only
  generalize hmark : (if t.contains (.scalar '\'') && !t.contains (.scalar '"') then
    CodePoint.scalar '"' else .scalar '\'') = quote
  have hquote : IsPlain [quote] := by
    rw [← hmark]
    split <;> decide
  have hcontent : NoSurrogate (t.flatMap (CodePoint.inMessage quote)) := by
    intro n hn
    obtain ⟨c, -, hc⟩ := List.mem_flatMap.mp hn
    exact CodePoint.noSurrogate_inMessage hquote c n hc
  rw [← List.singleton_append, noSurrogate_append, noSurrogate_append]
  exact ⟨⟨hquote.noSurrogate, hcontent⟩, hquote.noSurrogate⟩

namespace Json

theorem noSurrogate_inspect (j : Json) : NoSurrogate j.inspect := by
  have hseparator : ∀ b : Bool, NoSurrogate (if b then [] else lit ", ") := by decide
  induction j using Json.induct with
  | null => decide
  | bool b => cases b <;> decide
  | int n => exact (Text.isPlain_ofInt n).noSurrogate
  | float x => exact (Text.isPlain_ofFloat x).noSurrogate
  | string t => exact t.noSurrogate_inSingleQuotes
  | array items ih =>
      have hitems : NoSurrogate (inspectItems items) := by
        induction items with
        | nil => exact nofun
        | cons item items ihitems =>
            obtain ⟨hitem, hitems⟩ := List.forall_mem_cons.mp ih
            rw [inspectItems, Text.noSurrogate_append, Text.noSurrogate_append]
            exact ⟨⟨hitem, hseparator _⟩, ihitems hitems⟩
      rw [inspect, Text.noSurrogate_append, Text.noSurrogate_cons]
      exact ⟨⟨nofun, hitems⟩, by decide⟩
  | object fields ih =>
      have hcolon : NoSurrogate (lit ": ") := by decide
      have hfields : NoSurrogate (inspectFields fields) := by
        induction fields with
        | nil => exact nofun
        | cons field fields ihfields =>
            obtain ⟨name, value⟩ := field
            obtain ⟨hvalue, hfields⟩ := List.forall_mem_cons.mp ih
            rw [inspectFields, Text.noSurrogate_append, Text.noSurrogate_append,
              Text.noSurrogate_append, Text.noSurrogate_append]
            exact ⟨⟨⟨⟨name.noSurrogate_inSingleQuotes, hcolon⟩, hvalue⟩, hseparator _⟩,
              ihfields hfields⟩
      rw [inspect, Text.noSurrogate_append, Text.noSurrogate_cons]
      exact ⟨⟨nofun, hfields⟩, by decide⟩

variable {source t name : Text} {j : Json} {items : List Json}

/-- A value that is read from a text without surrogates is taken as a text without pairs of them. -/
theorem ReadFrom.isJoined_plain (h : ReadFrom source j) (hsource : source.NoSurrogate) :
    j.plain.IsJoined := by
  cases h with
  | string t ht => exact ht hsource
  | _ => exact (noSurrogate_inspect _).isJoined

theorem ReadFrom.elements (h : ReadFrom source j) (helements : j.elements = .ok items) :
    ∀ item ∈ items, ReadFrom source item := by
  cases h with
  | string t ht =>
      cases helements
      intro item hitem
      obtain ⟨c, -, rfl⟩ := List.mem_map.mp hitem
      exact .string [c] fun _ => .singleton c
  | array items hitems =>
      cases helements
      exact hitems
  | object fields _ hnames _ =>
      cases helements
      intro item hitem
      obtain ⟨field, hfield, rfl⟩ := List.mem_map.mp hitem
      exact .string field.1 (hnames field hfield)
  | _ => cases helements

theorem ReadFrom.optional (h : ReadFrom source j) {value : Json}
    (hvalue : j.optional name = .ok (some value)) : ReadFrom source value := by
  cases h with
  | object fields _ _ hfields =>
      have hfind : Entries.find? name fields = some value := Except.ok.inj hvalue
      exact hfields _ (Entries.mem_of_find? hfind)
  | _ => cases hvalue

theorem ReadFrom.isJoined_optionalText (h : ReadFrom source j) (hsource : source.NoSurrogate)
    (ht : j.optionalText name = .ok t) : t.IsJoined := by
  obtain ⟨value?, hvalue, ht⟩ := bind_eq_ok.mp ht
  cases value? with
  | none =>
      cases ht
      exact .nil
  | some value =>
      cases ht
      exact (h.optional hvalue).isJoined_plain hsource

end Json
end MetricBridge
