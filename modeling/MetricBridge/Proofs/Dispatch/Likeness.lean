import MetricBridge.Proofs.Dispatch.Query
import Mathlib.Data.List.Perm.Subperm

namespace MetricBridge

variable {v w : Scalar}

theorem Scalar.isSome_queryText? (v : Scalar) : v.queryText?.isSome = decide (v.key ≠ .null) := by
  cases v with
  | float x =>
      rw [Scalar.key]
      split <;> rfl
  | _ => rfl

theorem Scalar.isSome_queryText?_congr (h : v.key = w.key) :
    v.queryText?.isSome = w.queryText?.isSome := by
  rw [isSome_queryText?, isSome_queryText?, h]

theorem Scalar.eq_of_key_eq {t : Text} (h : Scalar.key (.text t) = w.key) : .text t = w := by
  cases w with
  | float x =>
      rw [Scalar.key, Scalar.key] at h
      split at h <;> cases h
  | text u => exact congrArg Scalar.text (Key.text.inj h)
  | _ => cases h

namespace Request

variable {a b r : Request} {source name : Text}

def sentNames (source : Text) (r : Request) : List Text :=
  (Entries.keys r.params).filter fun name =>
    !generalNames.contains name && (name == source || (r.param? name).isSome)

/-- The parameters that are sent have the same order, and their values are written alike. -/
structure SentAlike (source : Text) (a b : Request) : Prop where
  names : a.sentNames source = b.sentNames source
  values : ∀ name ≠ source, a.param? name = b.param? name

theorem find?_keyedParams (name : Text) (r : Request) : Entries.find? name r.keyedParams =
    (Entries.find? name r.params).map Scalar.key :=
  Entries.find?_map Scalar.key r.params name

theorem keys_keyedParams (r : Request) : Entries.keys r.keyedParams = Entries.keys r.params :=
  List.map_map

def key? (name : Text) (r : Request) : Option Scalar.Key := (Entries.find? name r.params).map Scalar.key

theorem mem_keys_iff_key? : name ∈ Entries.keys r.params ↔ (r.key? name).isSome = true := by
  rw [key?, Option.isSome_map, Entries.mem_keys_iff, Option.isSome_iff_exists]

theorem mem_keys_congr (h : ∀ name, a.key? name = b.key? name) :
    name ∈ Entries.keys a.params ↔ name ∈ Entries.keys b.params := by
  rw [mem_keys_iff_key?, mem_keys_iff_key?, h]

theorem length_keys_params (r : Request) : (Entries.keys r.params).length = r.params.length :=
  List.length_map _

/-- Every parameter of the first request is found in the second one, with an equal value. -/
theorem all_keyedParams_iff (ha : (Entries.keys a.params).Nodup) :
    (a.keyedParams.all fun param => Entries.find? param.1 b.keyedParams == some param.2) = true ↔
      ∀ name ∈ Entries.keys a.params, a.key? name = b.key? name := by
  rw [List.all_eq_true]
  constructor
  · intro h name hname
    obtain ⟨value, hvalue⟩ := Entries.mem_keys_iff.mp hname
    have hmem : (name, value.key) ∈ a.keyedParams :=
      List.mem_map_of_mem (f := fun e : Text × Scalar => (e.1, e.2.key)) (Entries.mem_of_find? hvalue)
    have hkey := h (name, value.key) hmem
    rw [beq_iff_eq, find?_keyedParams] at hkey
    rw [key?, key?, hvalue, hkey]
    rfl
  · rintro h ⟨name, key⟩ hmem
    obtain ⟨⟨_, value⟩, hvalue, heq⟩ := List.mem_map.mp hmem
    cases heq
    have hkey := h name (List.mem_map_of_mem hvalue)
    rw [key?, key?, Entries.find?_of_mem ha hvalue] at hkey
    rw [beq_iff_eq, find?_keyedParams, ← hkey]
    rfl

theorem key?_eq_of_length_eq (ha : (Entries.keys a.params).Nodup)
    (hlength : a.params.length = b.params.length)
    (hkeys : ∀ name ∈ Entries.keys a.params, a.key? name = b.key? name) (name : Text) :
    a.key? name = b.key? name := by
  have hsubset : Entries.keys a.params ⊆ Entries.keys b.params := by
    intro name hname
    rw [mem_keys_iff_key?, ← hkeys name hname]
    exact mem_keys_iff_key?.mp hname
  have hperm : (Entries.keys a.params).Perm (Entries.keys b.params) :=
    (List.Nodup.subperm ha hsubset).perm_of_length_le
      (by rw [length_keys_params, length_keys_params, hlength])
  by_cases hname : name ∈ Entries.keys a.params
  · exact hkeys name hname
  · have hname' : name ∉ Entries.keys b.params := fun hmem => hname (hperm.mem_iff.mpr hmem)
    rw [key?, key?, Entries.find?_eq_none.mpr hname, Entries.find?_eq_none.mpr hname']

/-- Equal requests have the same method and the same parameters, in any order. -/
theorem same_iff (ha : (Entries.keys a.params).Nodup) (hb : (Entries.keys b.params).Nodup) :
    a.same b = true ↔ a.method = b.method ∧ ∀ name, a.key? name = b.key? name := by
  have hsame : a.same b = (a.method == b.method && a.params.length == b.params.length &&
      a.keyedParams.all fun param => Entries.find? param.1 b.keyedParams == some param.2) := rfl
  rw [hsame, Bool.and_eq_true, Bool.and_eq_true, beq_iff_eq, beq_iff_eq, all_keyedParams_iff ha]
  constructor
  · rintro ⟨⟨hmethod, hlength⟩, hkeys⟩
    exact ⟨hmethod, key?_eq_of_length_eq ha hlength hkeys⟩
  · rintro ⟨hmethod, hkeys⟩
    have hperm := (List.perm_ext_iff_of_nodup ha hb).mpr fun name => mem_keys_congr hkeys
    have hlength := hperm.length_eq
    rw [length_keys_params, length_keys_params] at hlength
    exact ⟨⟨hmethod, hlength⟩, fun name _ => hkeys name⟩

theorem hashed_eq_iff (ha : (Entries.keys a.params).Nodup) (hmethod : a.method = b.method)
    (hkeys : ∀ name, a.key? name = b.key? name) :
    a.hashed = b.hashed ↔ Entries.keys a.params = Entries.keys b.params := by
  rw [← keys_keyedParams a, ← keys_keyedParams b]
  constructor
  · intro h
    exact congrArg (fun hashed => Entries.keys hashed.2) h
  · intro h
    have hnodup : (Entries.keys a.keyedParams).Nodup := (keys_keyedParams a).symm ▸ ha
    have hfind : ∀ name, Entries.find? name a.keyedParams = Entries.find? name b.keyedParams := by
      intro name
      rw [find?_keyedParams, find?_keyedParams]
      exact hkeys name
    exact Prod.ext hmethod (Entries.eq_of_keys_eq hnodup h hfind)

theorem keys_ownParams (h : (Entries.keys r.params).Nodup) : Entries.keys r.ownParams =
    generalNames ++ (Entries.keys r.params).filter fun name => name ∉ generalNames :=
  (Entries.keys_merge h).trans
    (congrArg (generalNames ++ ·) (List.filter_congr fun _ _ => decide_eq_decide.mpr Iff.rfl))

def sourceName (source : Text) (r : Request) : List Text :=
  if (Entries.keys r.ownParams).contains source then [] else [source]

theorem keys_allParams (h : (Entries.keys r.params).Nodup) : Entries.keys (r.allParams source) =
    generalNames ++ (((Entries.keys r.params).filter fun name => name ∉ generalNames) ++
      r.sourceName source) := by
  rw [allParams_eq, Entries.keys_set, sourceName, ← List.append_assoc, ← keys_ownParams h]
  by_cases hsource : source ∈ Entries.keys r.ownParams <;> simp [hsource]

def isSent (source : Text) (r : Request) (name : Text) : Bool :=
  (Entries.find? name (r.fields source)).isSome

theorem isSent_of_notMem (hname : name ∉ generalNames) :
    r.isSent source name = (name == source || (r.param? name).isSome) := by
  rw [isSent]
  by_cases heq : name = source
  · subst heq
    rw [find?_source]
    simp
  · rw [find?_param hname heq]
    simp [heq]

/-- The fields of a query: the general ones, the parameters, and the source. -/
theorem keys_fields (h : (Entries.keys r.params).Nodup) : Entries.keys (r.fields source) =
    generalNames.filter (r.isSent source) ++ (r.sentNames source ++
      (r.sourceName source).filter (r.isSent source)) := by
  have hsent : ∀ name, ((Entries.find? name (r.allParams source)).bind Scalar.queryText?).isSome =
      r.isSent source name := fun name => by rw [isSent, find?_fields]
  have hnames : (((Entries.keys r.params).filter fun name => name ∉ generalNames).filter
      (r.isSent source)) = r.sentNames source := by
    rw [List.filter_filter, sentNames]
    refine List.filter_congr fun name _ => ?_
    by_cases hname : name ∈ generalNames
    · simp [hname]
    · simp [hname, isSent_of_notMem]
  have hnodup : (Entries.keys (r.allParams source)).Nodup :=
    Entries.nodup_keys_set r.nodup_keys_ownParams
  rw [fields, fieldsOf, Entries.keys_filterMap Scalar.queryText? hnodup, funext hsent, keys_allParams h,
    List.filter_append, List.filter_append, hnames]

theorem find?_params (h : (Entries.keys r.params).Nodup) (name : Text) :
    Entries.find? name (Entries.ofPairs r.params) = Entries.find? name r.params := by
  rw [Entries.ofPairs_eq_self h]

theorem param?_eq (h : (Entries.keys r.params).Nodup) :
    r.param? name = (Entries.find? name r.params).bind Scalar.queryText? := by
  rw [param?, find?_params h]

/-- What the query says of a name: the parameter, or the general value where no parameter has the name. -/
theorem find?_fields_of_ne (h : (Entries.keys r.params).Nodup) (hname : name ≠ source) :
    Entries.find? name (r.fields source) = ((Entries.find? name r.params).or
      (Entries.find? name (Entries.ofPairs r.generalFields))).bind Scalar.queryText? := by
  rw [find?_fields, allParams_eq, Entries.find?_set, if_neg hname.symm, find?_ownParams, find?_params h]

theorem generalFields_congr (h : a.method = b.method) : a.generalFields = b.generalFields := by
  rw [generalFields, generalFields, h]

theorem nodup_keys_fields (source : Text) (r : Request) : (Entries.keys (r.fields source)).Nodup :=
  (Entries.keys_filterMap_sublist (fun _ => Scalar.queryText?) (r.allParams source)).nodup
    (Entries.nodup_keys_set r.nodup_keys_ownParams)

/-- Neither request has a parameter of the name, or both have one, with equal values. -/
theorem none_or_some_of_key?_eq (h : a.key? name = b.key? name) :
    (Entries.find? name a.params = none ∧ Entries.find? name b.params = none) ∨
      ∃ v w, Entries.find? name a.params = some v ∧ Entries.find? name b.params = some w ∧
        v.key = w.key := by
  rw [key?, key?] at h
  cases hfa : Entries.find? name a.params with
  | none =>
      rw [hfa] at h
      exact .inl ⟨rfl, Option.map_eq_none_iff.mp h.symm⟩
  | some v =>
      rw [hfa] at h
      obtain ⟨w, hw, hkey⟩ := Option.map_eq_some_iff.mp h.symm
      exact .inr ⟨v, w, rfl, hw, hkey.symm⟩

section

variable (ha : (Entries.keys a.params).Nodup) (hb : (Entries.keys b.params).Nodup)
  (hmethod : a.method = b.method) (hkeys : ∀ name, a.key? name = b.key? name)

include ha hb hmethod hkeys

theorem find?_fields_congr (hname : name ≠ source) :
    Entries.find? name (a.fields source) = Entries.find? name (b.fields source) ↔
      a.param? name = b.param? name := by
  rw [find?_fields_of_ne ha hname, find?_fields_of_ne hb hname, param?_eq ha, param?_eq hb,
    generalFields_congr hmethod]
  obtain ⟨hfa, hfb⟩ | ⟨v, w, hfa, hfb, -⟩ := none_or_some_of_key?_eq (hkeys name)
  · rw [hfa, hfb]
    exact ⟨fun _ => rfl, fun _ => rfl⟩
  · rw [hfa, hfb]
    exact Iff.rfl

theorem isSent_congr (name : Text) : a.isSent source name = b.isSent source name := by
  rw [isSent, isSent]
  by_cases hname : name = source
  · rw [hname, find?_source, find?_source]
  · rw [find?_fields_of_ne ha hname, find?_fields_of_ne hb hname, generalFields_congr hmethod]
    obtain ⟨hfa, hfb⟩ | ⟨v, w, hfa, hfb, hkey⟩ := none_or_some_of_key?_eq (hkeys name)
    · rw [hfa, hfb]
    · rw [hfa, hfb]
      exact Scalar.isSome_queryText?_congr hkey

theorem fields_eq_iff : a.fields source = b.fields source ↔ SentAlike source a b := by
  have hsent : a.isSent source = b.isSent source := funext (isSent_congr ha hb hmethod hkeys)
  have hlast : a.sourceName source = b.sourceName source := by
    simp only [sourceName, List.contains_eq_mem, mem_keys_ownParams, mem_keys_congr hkeys]
  have hnames : Entries.keys (a.fields source) = Entries.keys (b.fields source) ↔
      a.sentNames source = b.sentNames source := by
    rw [keys_fields ha, keys_fields hb, hsent, hlast, List.append_cancel_left_eq,
      List.append_cancel_right_eq]
  constructor
  · intro h
    exact ⟨hnames.mp (congrArg Entries.keys h), fun name hname =>
      (find?_fields_congr ha hb hmethod hkeys hname).mp (congrArg (Entries.find? name) h)⟩
  · intro h
    refine Entries.eq_of_keys_eq (nodup_keys_fields source a) (hnames.mpr h.names) fun name => ?_
    by_cases hname : name = source
    · rw [hname, find?_source, find?_source]
    · exact (find?_fields_congr ha hb hmethod hkeys hname).mpr (h.values name hname)

omit hmethod in
/-- Requests with the same order of parameters and texts for values agree in all that is sent. -/
theorem SentAlike.of_keys_eq (horder : Entries.keys a.params = Entries.keys b.params)
    (htexts : ∀ value ∈ Entries.values a.params, ∃ t, value = .text t) : SentAlike source a b := by
  have hparams : ∀ name, a.param? name = b.param? name := by
    intro name
    rw [param?_eq ha, param?_eq hb]
    obtain ⟨hfa, hfb⟩ | ⟨v, w, hfa, hfb, hkey⟩ := none_or_some_of_key?_eq (hkeys name)
    · rw [hfa, hfb]
    · obtain ⟨t, rfl⟩ := htexts v (List.mem_map_of_mem (Entries.mem_of_find? hfa))
      rw [hfa, hfb, Scalar.eq_of_key_eq hkey]
  refine ⟨?_, fun name _ => hparams name⟩
  simp only [sentNames, horder, hparams]

end

/-- Equal requests have the same hash, and are one element of a set, exactly if their parameters have the
same order. With the same order and texts for values they have the same query. In general they have it if
what is sent has the same order and is written alike, and only then where fields can be told from it. -/
theorem agreement_of_same (ha : (Entries.keys a.params).Nodup) (hb : (Entries.keys b.params).Nodup)
    (h : a.same b = true) :
    (a.hashed = b.hashed ↔ Entries.keys a.params = Entries.keys b.params) ∧
    (a.sameElement b = true ↔ Entries.keys a.params = Entries.keys b.params) ∧
    (Entries.keys a.params = Entries.keys b.params →
      (∀ value ∈ Entries.values a.params, ∃ t, value = .text t) →
        ∀ source, a.query source = b.query source) ∧
    ∀ source, (SentAlike source a b → a.query source = b.query source) ∧
      (a.HasFieldNames → a.query source = b.query source → SentAlike source a b) := by
  obtain ⟨hmethod, hkeys⟩ := (same_iff ha hb).mp h
  have hhashed := hashed_eq_iff ha hmethod hkeys
  have hquery : ∀ {source}, SentAlike source a b → a.query source = b.query source := by
    intro source halike
    rw [query_eq, query_eq, (fields_eq_iff ha hb hmethod hkeys).mpr halike]
  refine ⟨hhashed, ?_, fun horder htexts source => ?_, fun source => ⟨hquery, fun hnames hqueries => ?_⟩⟩
  · rw [sameElement, h, Bool.true_and, beq_iff_eq]
    exact hhashed
  · exact hquery (SentAlike.of_keys_eq ha hb hkeys horder htexts)
  · have hnames' : b.HasFieldNames := fun name hname => hnames name ((mem_keys_congr hkeys).mpr hname)
    exact (fields_eq_iff ha hb hmethod hkeys).mp (fields_of_query_eq hnames hnames' hqueries)

def dailyCalls : Request × Request :=
  (⟨"Actions.get", [("idSite", .int 1), ("segment", .null), ("period", .text "day")]⟩,
    ⟨"Actions.get", [("period", .text "day"), ("idSite", .float 1.0), ("segment", .null)]⟩)

/-- They have different hashes, are two elements of a set and have different queries. -/
theorem agreement_of_same_dailyCalls :
    (Entries.keys dailyCalls.1.params).Nodup ∧ (Entries.keys dailyCalls.2.params).Nodup ∧
      dailyCalls.1.same dailyCalls.2 = true ∧ dailyCalls.1.hashed ≠ dailyCalls.2.hashed ∧
      dailyCalls.1.sameElement dailyCalls.2 = false ∧
      dailyCalls.1.query "trigger" ≠ dailyCalls.2.query "trigger" := by
  have ha : (Entries.keys dailyCalls.1.params).Nodup := by decide
  have hb : (Entries.keys dailyCalls.2.params).Nodup := by decide
  have hsame : dailyCalls.1.same dailyCalls.2 = true := by decide +kernel
  have horder : Entries.keys dailyCalls.1.params ≠ Entries.keys dailyCalls.2.params := by decide
  have hsent : dailyCalls.1.sentNames "trigger" ≠ dailyCalls.2.sentNames "trigger" := by decide +kernel
  have hnames : dailyCalls.1.HasFieldNames := by
    have hall : ∀ name ∈ Entries.keys dailyCalls.1.params, CodePoint.scalar '&' ∉ name := by decide
    exact fun name hname => Text.isFieldName_of_notMem (hall name hname)
  obtain ⟨hhashed, helement, -, hquery⟩ := agreement_of_same ha hb hsame
  exact ⟨ha, hb, hsame, mt hhashed.mp horder, Bool.eq_false_iff.mpr (mt helement.mp horder),
    fun heq => hsent ((hquery "trigger").2 hnames heq).names⟩

end Request
end MetricBridge
