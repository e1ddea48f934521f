import MetricBridge.Proofs.Dispatch.Query
import MetricBridge.Proofs.Json.Ascii
import MetricBridge.Proofs.Text.Cutting
import MetricBridge.Proofs.Text.Decoding

namespace MetricBridge

def decodeField? (piece : Text) : Option (Text × Text) :=
  (piece.cutAt (.scalar '=')).map fun (name, value) => (name, value.percentDecode)

def decodeQuery? (query : Text) : Option (List (Text × Text)) :=
  (query.pieces (.scalar '&')).mapM decodeField?

/-- The name is free of the marks between fields, and UTF-8 has a form for the value. -/
structure IsDecodable (field : Text × Text) : Prop where
  ampersand : CodePoint.scalar '&' ∉ field.1
  equals : CodePoint.scalar '=' ∉ field.1
  value : field.2.NoSurrogate

section

variable {α β : Type} {f : α → Option β} {as : List α} {bs : List β}

theorem mapM_map_eq_some_self {g : β → α} :
    (bs.map g).mapM f = some bs ↔ ∀ b ∈ bs, f (g b) = some b := by
  induction bs with
  | nil => exact ⟨nofun, fun _ => rfl⟩
  | cons b bs ih =>
      rw [List.map_cons, List.mapM_cons, List.forall_mem_cons, ← ih]
      cases f (g b) <;> cases (bs.map g).mapM f <;> simp

theorem exists_of_mem_of_mapM (h : as.mapM f = some bs) {b : β} (hb : b ∈ bs) :
    ∃ a ∈ as, f a = some b := by
  induction as generalizing bs with
  | nil =>
      cases h
      cases hb
  | cons a as ih =>
      rw [List.mapM_cons] at h
      obtain ⟨c, hc, h⟩ := Option.bind_eq_some_iff.mp h
      obtain ⟨cs, hcs, h⟩ := Option.bind_eq_some_iff.mp h
      cases h
      rcases List.mem_cons.mp hb with rfl | hb
      · exact ⟨a, List.mem_cons_self, hc⟩
      · obtain ⟨a', ha', hb'⟩ := ih hcs hb
        exact ⟨a', List.mem_cons_of_mem _ ha', hb'⟩

end

open Request (encoded)

variable {query : Text} {field : Text × Text} {fields : List (Text × Text)}

theorem decodeField?_fieldText : decodeField? (fieldText (encoded field)) = some field ↔
    CodePoint.scalar '=' ∉ field.1 ∧ field.2.NoSurrogate := by
  obtain ⟨name, value⟩ := field
  have hdecode : (value.percentEncode Request.isQueryMark).percentDecode = value ↔ value.NoSurrogate :=
    Text.percentDecode_percentEncode (by decide)
  constructor
  · intro h
    obtain ⟨⟨name', code⟩, hcut, h⟩ := Option.map_eq_some_iff.mp h
    obtain ⟨rfl, hvalue⟩ := Prod.mk.inj h
    obtain ⟨htext, hname⟩ := Text.cutAt_eq_some_iff.mp hcut
    obtain rfl : value.percentEncode Request.isQueryMark = code :=
      (List.cons.inj (List.append_cancel_left htext)).2
    exact ⟨hname, hdecode.mp hvalue⟩
  · rintro ⟨hname, hvalue⟩
    have hcut : Text.cutAt (.scalar '=') (fieldText (encoded (name, value))) =
        some (name, value.percentEncode Request.isQueryMark) := Text.cutAt_append hname _
    rw [decodeField?, hcut]
    exact congrArg (fun value => some (name, value)) (hdecode.mpr hvalue)

theorem notMem_of_decodeQuery? (h : decodeQuery? query = some fields) (hfield : field ∈ fields) :
    CodePoint.scalar '&' ∉ field.1 := by
  obtain ⟨piece, hpiece, h⟩ := exists_of_mem_of_mapM h hfield
  obtain ⟨⟨name, code⟩, hcut, rfl⟩ := Option.map_eq_some_iff.mp h
  obtain ⟨rfl, -⟩ := Text.cutAt_eq_some_iff.mp hcut
  exact fun hname => Text.notMem_of_mem_pieces hpiece (List.mem_append_left _ hname)

theorem ampersand_notMem_fieldText (h : CodePoint.scalar '&' ∉ field.1) :
    CodePoint.scalar '&' ∉ fieldText (encoded field) := by
  rw [fieldText, List.mem_append, List.mem_cons]
  rintro (hname | hequals | hvalue)
  · exact h hname
  · cases hequals
  · exact (Request.isFieldValue_encoded field).ampersand hvalue

/-- Joined fields are told apart and decoded, exactly if all of them are decodable. -/
theorem decodeQuery?_joinWith (hne : fields ≠ []) :
    decodeQuery? (Text.joinWith "&" ((fields.map encoded).map fieldText)) = some fields ↔
      ∀ field ∈ fields, IsDecodable field := by
  have hdecode : (∀ field ∈ fields, CodePoint.scalar '&' ∉ field.1) →
      (decodeQuery? (Text.joinWith "&" ((fields.map encoded).map fieldText)) = some fields ↔
        ∀ field ∈ fields, CodePoint.scalar '=' ∉ field.1 ∧ field.2.NoSurrogate) := by
    intro hampersand
    have hpieces : Text.pieces (.scalar '&') (Text.joinWith "&"
        (fields.map fun field => fieldText (encoded field))) =
          fields.map fun field => fieldText (encoded field) :=
      Text.pieces_joinWith (mt List.map_eq_nil_iff.mp hne)
        (List.forall_mem_map.mpr fun field hfield => ampersand_notMem_fieldText (hampersand field hfield))
    rw [List.map_map, Function.comp_def, decodeQuery?, hpieces, mapM_map_eq_some_self]
    exact forall₂_congr fun _ _ => decodeField?_fieldText
  constructor
  · intro h field hfield
    have hampersand : ∀ field ∈ fields, CodePoint.scalar '&' ∉ field.1 := fun _ =>
      notMem_of_decodeQuery? h
    obtain ⟨hequals, hvalue⟩ := (hdecode hampersand).mp h field hfield
    exact ⟨hampersand field hfield, hequals, hvalue⟩
  · intro h
    exact (hdecode fun field hfield => (h field hfield).ampersand).mpr
      fun field hfield => ⟨(h field hfield).equals, (h field hfield).value⟩

theorem Scalar.noSurrogate_of_queryText? {value : Scalar} {t : Text} (h : value.queryText? = some t)
    (htext : ∀ u, value = .text u → u.NoSurrogate) : t.NoSurrogate := by
  cases value with
  | null => cases h
  | bool b =>
      cases h
      cases b <;> decide
  | int n =>
      cases h
      exact (Text.isPlain_ofInt n).noSurrogate
  | float x =>
      cases h
      exact (Text.isPlain_ofFloat x).noSurrogate
  | text u =>
      cases h
      exact htext u rfl

structure Scalar.IsWritable (value : Scalar) : Prop where
  text : ∀ t, value = .text t → t.NoSurrogate
  int : ∀ n, value = .int n → (Text.ofNat n.natAbs).length ≤ integerDigitLimit

theorem Scalar.queryFault?_eq_none {value : Scalar} : value.queryFault? = none ↔ value.IsWritable := by
  cases value with
  | null | bool | float => exact iff_of_true rfl ⟨nofun, nofun⟩
  | int n =>
      rw [queryFault?, ite_eq_right_iff]
      constructor
      · intro h
        refine ⟨nofun, ?_⟩
        rintro _ ⟨⟩
        exact Nat.le_of_not_lt fun hlong => nomatch h hlong
      · intro h hlong
        exact absurd (h.int n rfl) (Nat.not_le_of_gt hlong)
  | text t =>
      rw [queryFault?, ite_eq_left_iff, Text.utf8?_isSome]
      constructor
      · intro h
        refine ⟨?_, nofun⟩
        rintro _ ⟨⟩
        exact not_not.mp fun hsurrogate => nomatch h hsurrogate
      · intro h hsurrogate
        exact absurd (h.text t rfl) hsurrogate

namespace Request

variable {source name query : Text} {r : Request}

def givenFields (source : Text) (r : Request) : List (Text × Scalar) :=
  r.generalFields ++ r.params ++ [(source, .text "1")]

/-- The fields of a call, each name in its first place and with its last value. -/
def sentFields (source : Text) (r : Request) : Entries Text Scalar :=
  Entries.lastValues (r.givenFields source)

theorem allParams_eq_sentFields (source : Text) (r : Request) :
    r.allParams source = r.sentFields source := by
  have hparams : Entries.ofPairs (r.generalFields ++ r.params) = r.ownParams := List.foldl_append
  rw [allParams_eq, sentFields, ← Entries.ofPairs_eq_lastValues, givenFields, Entries.ofPairs_snoc, hparams]

theorem mem_keys_sentFields : name ∈ Entries.keys (r.sentFields source) ↔
    name = source ∨ name ∈ generalNames ∨ name ∈ Entries.keys r.params := by
  rw [← allParams_eq_sentFields, allParams_eq, Entries.mem_keys_set, mem_keys_ownParams]

theorem queryFault?_eq_none : r.queryFault? source = none ↔
    ∀ field ∈ r.sentFields source, field.2.IsWritable := by
  rw [queryFault?, allParams_eq_sentFields, List.findSome?_eq_none_iff]
  simp only [Entries.values, List.forall_mem_map, Scalar.queryFault?_eq_none]

theorem query?_eq_ok : r.query? source = .ok query ↔
    (∀ field ∈ r.sentFields source, field.2.IsWritable) ∧ r.query source = query := by
  rw [← queryFault?_eq_none, query?]
  cases r.queryFault? source with
  | none => exact ⟨fun h => ⟨rfl, Except.ok.inj h⟩, fun h => congrArg Except.ok h.2⟩
  | some fault => exact ⟨nofun, fun h => nomatch h.1⟩

theorem decodes_iff (source : Text) (r : Request)
    (hnames : ∀ name ∈ Entries.keys r.params, CodePoint.scalar '&' ∉ name ∧ CodePoint.scalar '=' ∉ name) :
    decodeQuery? (r.query source) = some (fieldsOf (r.sentFields source)) ↔
      (CodePoint.scalar '&' ∉ source ∧ CodePoint.scalar '=' ∉ source) ∧
        ∀ name t, (name, .text t) ∈ r.sentFields source → t.NoSurrogate := by
  have hfields : r.fields source = fieldsOf (r.sentFields source) :=
    congrArg fieldsOf (allParams_eq_sentFields source r)
  have hsource := Entries.mem_of_find? (find?_source source r)
  rw [query_eq, ← hfields, decodeQuery?_joinWith (List.ne_nil_of_mem hsource)]
  constructor
  · intro h
    refine ⟨⟨(h _ hsource).ampersand, (h _ hsource).equals⟩, fun name t ht => ?_⟩
    have hfield : (name, t) ∈ r.fields source := hfields ▸ List.mem_filterMap.mpr ⟨_, ht, rfl⟩
    exact (h _ hfield).value
  · rintro ⟨hsource, htexts⟩ field hfield
    rw [hfields] at hfield
    have hgeneral : ∀ name ∈ generalNames, CodePoint.scalar '&' ∉ name ∧ CodePoint.scalar '=' ∉ name := by
      decide
    have hname : CodePoint.scalar '&' ∉ field.1 ∧ CodePoint.scalar '=' ∉ field.1 := by
      rcases mem_keys_sentFields.mp (mem_keys_of_mem_fieldsOf hfield) with heq | hmem | hmem
      · exact heq ▸ hsource
      · exact hgeneral _ hmem
      · exact hnames _ hmem
    obtain ⟨⟨name, value⟩, hvalue, hfield⟩ := List.mem_filterMap.mp hfield
    obtain ⟨t, ht, rfl⟩ := Option.map_eq_some_iff.mp hfield
    exact ⟨hname.1, hname.2, Scalar.noSurrogate_of_queryText? ht fun u hu => htexts name u (hu ▸ hvalue)⟩

/-- Where the names of parameters are free of the marks between fields, a call has a query that is decoded
to the fields of the call that are not null, exactly if the name that tells the source is free of the marks
too, no text that is sent contains a surrogate, and no integer has too many digits. -/
theorem decodeQuery?_query (source : Text) (r : Request)
    (hnames : ∀ name ∈ Entries.keys r.params, CodePoint.scalar '&' ∉ name ∧ CodePoint.scalar '=' ∉ name) :
    (∃ query, r.query? source = .ok query ∧
        decodeQuery? query = some (fieldsOf (r.sentFields source))) ↔
      (CodePoint.scalar '&' ∉ source ∧ CodePoint.scalar '=' ∉ source) ∧
        ∀ field ∈ r.sentFields source, field.2.IsWritable := by
  constructor
  · rintro ⟨query, hquery, hdecoded⟩
    obtain ⟨hwritable, rfl⟩ := query?_eq_ok.mp hquery
    exact ⟨((decodes_iff source r hnames).mp hdecoded).1, hwritable⟩
  · rintro ⟨hsource, hwritable⟩
    have htexts : ∀ name t, (name, .text t) ∈ r.sentFields source → t.NoSurrogate :=
      fun name t ht => (hwritable _ ht).text t rfl
    exact ⟨_, query?_eq_ok.mpr ⟨hwritable, rfl⟩, (decodes_iff source r hnames).mpr ⟨hsource, htexts⟩⟩

def mixedCall : Request :=
  ⟨"Actions.get", [("segment", .text "a&b=c%20 é😀"), ("format", .text "tsv"), ("idSite", .null),
    ("limit", .int (-3)), ("flat", .bool true), ("rate", .float 2.5)]⟩

theorem decodeQuery?_query_mixedCall :
    (∀ name ∈ Entries.keys mixedCall.params,
      CodePoint.scalar '&' ∉ name ∧ CodePoint.scalar '=' ∉ name) ∧
    ∃ query, mixedCall.query? "from" = .ok query ∧ decodeQuery? query = some
      ([("module", "API"), ("method", "Actions.get"), ("format", "tsv"), ("segment", "a&b=c%20 é😀"),
        ("limit", "-3"), ("flat", "True"), ("rate", "2.5"), ("from", "1")] : List (Text × Text)) := by
  have hnames : ∀ name ∈ Entries.keys mixedCall.params,
      CodePoint.scalar '&' ∉ name ∧ CodePoint.scalar '=' ∉ name := by decide
  have hfault : mixedCall.queryFault? "from" = none := by decide +kernel
  obtain ⟨query, hquery, hdecoded⟩ := (decodeQuery?_query "from" mixedCall hnames).mpr
    ⟨by decide, queryFault?_eq_none.mp hfault⟩
  refine ⟨hnames, query, hquery, hdecoded.trans ?_⟩
  decide +kernel

/-- The name that tells the source comes from the settings and is not encoded either. -/
theorem decodeQuery?_query_marked_source :
    ¬∀ (source : Text) (r : Request),
      (∀ name ∈ Entries.keys r.params, CodePoint.scalar '&' ∉ name ∧ CodePoint.scalar '=' ∉ name) →
        ∃ query, r.query? source = .ok query ∧
          decodeQuery? query = some (fieldsOf (r.sentFields source)) := by
  intro h
  obtain ⟨query, hquery, hdecoded⟩ := h "a=b" ⟨"A.b", []⟩ nofun
  obtain ⟨-, rfl⟩ := query?_eq_ok.mp hquery
  revert hdecoded
  decide +kernel

end Request
end MetricBridge
