import MetricBridge.Dispatch.Request
import MetricBridge.Proofs.Entries
import MetricBridge.Proofs.Text.Percent

namespace MetricBridge

def Text.IsFieldName (name : Text) : Prop :=
  ∀ before after, name = before ++ .scalar '&' :: after → .scalar '=' ∉ before

structure Text.IsFieldValue (value : Text) : Prop where
  ampersand : CodePoint.scalar '&' ∉ value
  equals : CodePoint.scalar '=' ∉ value

def fieldText (field : Text × Text) : Text := field.1 ++ .scalar '=' :: field.2

namespace Text

variable {name name' value value' : Text} {x y : Text}

theorem isFieldName_of_notMem (h : CodePoint.scalar '&' ∉ name) : name.IsFieldName := by
  rintro before after rfl
  exact absurd (List.mem_append_right _ List.mem_cons_self) h

theorem isFieldName_of_equals (h : CodePoint.scalar '=' ∉ name) : name.IsFieldName := by
  rintro before after rfl
  exact fun hbefore => h (List.mem_append_left _ hbefore)

theorem IsFieldName.fieldText (hname : name.IsFieldName) (hvalue : value.IsFieldValue) :
    IsFieldName (fieldText (name, value)) := by
  intro before after h
  obtain ⟨l, rfl, hl⟩ | ⟨l, rfl, hl⟩ := List.append_eq_append_iff.mp h
  · -- the ampersand would stand in the value
    have hmem : CodePoint.scalar '&' ∈ CodePoint.scalar '=' :: value :=
      hl ▸ List.mem_append_right _ List.mem_cons_self
    rcases List.mem_cons.mp hmem with heq | hmem
    · cases heq
    · exact absurd hmem hvalue.ampersand
  · cases l with
    | nil => cases hl
    | cons c l =>
        obtain ⟨rfl, -⟩ := List.cons.inj hl
        exact hname before l rfl

/-- No field goes on behind an ampersand with another one. -/
theorem eq_nil_of_ampersand (hname : name.IsFieldName) (hvalue : value.IsFieldValue) {start l : Text}
    (h : MetricBridge.fieldText (name, value) = start ++ l) (hstart : CodePoint.scalar '=' ∈ start)
    (hl : .scalar '&' :: x = l ++ y) : l = [] := by
  cases l with
  | nil => rfl
  | cons c l =>
      obtain ⟨rfl, -⟩ := List.cons.inj hl
      exact absurd hstart (hname.fieldText hvalue _ _ h)

theorem eq_nil_of_equals {l : Text} (hvalue : CodePoint.scalar '=' ∉ value)
    (h : CodePoint.scalar '=' :: value = l ++ .scalar '=' :: value') : l = [] := by
  cases l with
  | nil => rfl
  | cons c l =>
      obtain ⟨-, rfl⟩ := List.cons.inj h
      exact absurd (List.mem_append_right _ List.mem_cons_self) hvalue

theorem fieldText_injective (hvalue : CodePoint.scalar '=' ∉ value)
    (hvalue' : CodePoint.scalar '=' ∉ value')
    (h : MetricBridge.fieldText (name, value) = MetricBridge.fieldText (name', value')) :
    name = name' ∧ value = value' := by
  obtain ⟨l, rfl, hvalues⟩ | ⟨l, rfl, hvalues⟩ := List.append_eq_append_iff.mp h
  · obtain rfl := eq_nil_of_equals hvalue hvalues
    exact ⟨(List.append_nil _).symm, (List.cons.inj hvalues).2⟩
  · obtain rfl := eq_nil_of_equals hvalue' hvalues
    exact ⟨List.append_nil _, (List.cons.inj hvalues).2.symm⟩

theorem equals_mem_fieldText (name value : Text) :
    CodePoint.scalar '=' ∈ MetricBridge.fieldText (name, value) :=
  List.mem_append_right _ List.mem_cons_self

theorem fieldText_append_inj (hname : name.IsFieldName) (hvalue : value.IsFieldValue)
    (hname' : name'.IsFieldName) (hvalue' : value'.IsFieldValue)
    (h : MetricBridge.fieldText (name, value) ++ .scalar '&' :: x =
      MetricBridge.fieldText (name', value') ++ .scalar '&' :: y) :
    name = name' ∧ value = value' ∧ x = y := by
  have hfields : MetricBridge.fieldText (name, value) = MetricBridge.fieldText (name', value') := by
    obtain ⟨l, hl, hrest⟩ | ⟨l, hl, hrest⟩ := List.append_eq_append_iff.mp h
    · have hnil := eq_nil_of_ampersand hname' hvalue' hl (equals_mem_fieldText _ _) hrest
      rw [hl, hnil, List.append_nil]
    · have hnil := eq_nil_of_ampersand hname hvalue hl (equals_mem_fieldText _ _) hrest
      rw [hl, hnil, List.append_nil]
  obtain ⟨hnames, hvalues⟩ := fieldText_injective hvalue.equals hvalue'.equals hfields
  rw [hfields] at h
  exact ⟨hnames, hvalues, (List.cons.inj (List.append_cancel_left h)).2⟩

theorem joinWith_append (separator : Text) {parts : List Text} (h : parts ≠ []) :
    joinWith separator parts ++ separator = parts.flatMap (· ++ separator) := by
  induction parts with
  | nil => exact absurd rfl h
  | cons part parts ih =>
      cases parts with
      | nil => simp [joinWith]
      | cons next parts =>
          rw [List.flatMap_cons, ← ih (List.cons_ne_nil _ _)]
          simp [joinWith]

theorem fieldText_ne_nil (field : Text × Text) : MetricBridge.fieldText field ≠ [] :=
  List.append_ne_nil_of_right_ne_nil _ (List.cons_ne_nil _ _)

theorem fields_of_flatMap_eq {fields others : List (Text × Text)}
    (hfields : ∀ field ∈ fields, IsFieldName field.1 ∧ IsFieldValue field.2)
    (hothers : ∀ field ∈ others, IsFieldName field.1 ∧ IsFieldValue field.2)
    (h : (fields.flatMap fun field => MetricBridge.fieldText field ++ lit "&") =
      others.flatMap fun field => MetricBridge.fieldText field ++ lit "&") : fields = others := by
  induction fields generalizing others with
  | nil =>
      cases others with
      | nil => rfl
      | cons other others =>
          rw [List.flatMap_cons, List.append_assoc] at h
          exact absurd (List.append_eq_nil_iff.mp h.symm).1 (fieldText_ne_nil other)
  | cons field fields ih =>
      obtain ⟨⟨hname, hvalue⟩, hfields⟩ := List.forall_mem_cons.mp hfields
      cases others with
      | nil =>
          rw [List.flatMap_cons, List.append_assoc] at h
          exact absurd (List.append_eq_nil_iff.mp h).1 (fieldText_ne_nil field)
      | cons other others =>
          obtain ⟨⟨hname', hvalue'⟩, hothers⟩ := List.forall_mem_cons.mp hothers
          rw [List.flatMap_cons, List.flatMap_cons, List.append_assoc, List.append_assoc] at h
          obtain ⟨hnames, hvalues, hrest⟩ := fieldText_append_inj hname hvalue hname' hvalue' h
          rw [Prod.ext hnames hvalues, ih hfields hothers hrest]

end Text

namespace Request

open Text (IsFieldName IsFieldValue)

def fieldsOf (params : Entries Text Scalar) : Entries Text Text :=
  params.filterMap fun param => param.2.queryText?.map fun value => (param.1, value)

def fields (source : Text) (r : Request) : Entries Text Text := fieldsOf (r.allParams source)

def param? (name : Text) (r : Request) : Option Text :=
  (Entries.find? name (Entries.ofPairs r.params)).bind Scalar.queryText?

def encoded (field : Text × Text) : Text × Text := (field.1, field.2.percentEncode isQueryMark)

def generalNames : List Text := ["module", "method", "format"]

def generalFields (r : Request) : List (Text × Scalar) :=
  [("module", .text "API"), ("method", .text r.method), ("format", .text "JSON")]

def HasFieldNames (r : Request) : Prop := ∀ name ∈ Entries.keys r.params, IsFieldName name

/-- No parameter takes the place of another field. -/
structure AddsParams (source : Text) (r : Request) : Prop where
  general : ∀ name ∈ generalNames, name ∉ Entries.keys r.params
  source : source ∉ Entries.keys r.params

def Differs (r r' : Request) : Prop := r.method ≠ r'.method ∨ ∃ name, r.param? name ≠ r'.param? name

variable {source name : Text} {r r' : Request} {field : Text × Text}

def ownParams (r : Request) : Entries Text Scalar :=
  Entries.merge (Entries.ofPairs
    [("module", .text "API"), ("method", .text r.method), ("format", .text "JSON")]) r.params

theorem allParams_eq (source : Text) (r : Request) :
    r.allParams source = Entries.set source (.text "1") r.ownParams := rfl

theorem nodup_keys_ownParams (r : Request) : (Entries.keys r.ownParams).Nodup :=
  Entries.nodup_keys_merge (Entries.nodup_keys_ofPairs _)

theorem mem_keys_ownParams :
    name ∈ Entries.keys r.ownParams ↔ name ∈ generalNames ∨ name ∈ Entries.keys r.params :=
  Entries.mem_keys_merge

theorem query_eq (source : Text) (r : Request) : r.query source =
    Text.joinWith "&" (((r.fields source).map encoded).map fieldText) := by
  unfold query fields fieldsOf
  rw [List.map_map, List.map_filterMap]
  congr 1
  refine List.filterMap_congr fun (name, value) _ => ?_
  dsimp only
  cases value.queryText? with
  | none => rfl
  | some value => exact congrArg some (List.append_assoc _ _ _)

theorem encoded_injective : Function.Injective encoded := by
  intro field other h
  obtain ⟨hname, hvalue⟩ := Prod.mk.inj h
  exact Prod.ext hname (Text.percentEncode_injective (by decide) hvalue)

theorem isFieldValue_encoded (field : Text × Text) : IsFieldValue (encoded field).2 where
  ampersand := Text.notMem_percentEncode (by decide) (by decide) (by decide) _
  equals := Text.notMem_percentEncode (by decide) (by decide) (by decide) _

theorem find?_fields (name : Text) : Entries.find? name (r.fields source) =
    (Entries.find? name (r.allParams source)).bind Scalar.queryText? :=
  Entries.find?_filterMap (fun _ => Scalar.queryText?)
    (Entries.nodup_keys_set r.nodup_keys_ownParams) name

theorem find?_source (source : Text) (r : Request) :
    Entries.find? source (r.fields source) = some "1" := by
  rw [find?_fields, allParams_eq, Entries.find?_set, if_pos rfl]
  rfl

theorem query_append (source : Text) (r : Request) : r.query source ++ lit "&" =
    ((r.fields source).map encoded).flatMap fun field => fieldText field ++ lit "&" := by
  have hne : ((r.fields source).map encoded).map fieldText ≠ [] := by
    intro h
    rw [List.map_eq_nil_iff, List.map_eq_nil_iff] at h
    have hsource := find?_source source r
    rw [h] at hsource
    cases hsource
  rw [query_eq, Text.joinWith_append _ hne, List.flatMap_map]

theorem mem_keys_of_mem_fieldsOf {params : Entries Text Scalar} (h : field ∈ fieldsOf params) :
    field.1 ∈ Entries.keys params := by
  obtain ⟨param, hparam, h⟩ := List.mem_filterMap.mp h
  obtain ⟨value, -, rfl⟩ := Option.map_eq_some_iff.mp h
  exact List.mem_map_of_mem hparam

theorem isFieldName_of_mem_ownParams (hr : r.HasFieldNames) (h : name ∈ Entries.keys r.ownParams) :
    IsFieldName name := by
  rcases mem_keys_ownParams.mp h with hgeneral | hparam
  · have hall : ∀ name ∈ generalNames, CodePoint.scalar '&' ∉ name := by decide
    exact Text.isFieldName_of_notMem (hall name hgeneral)
  · exact hr name hparam

theorem forall_encoded {fields : List (Text × Text)} (h : ∀ field ∈ fields, IsFieldName field.1) :
    ∀ field ∈ fields.map encoded, IsFieldName field.1 ∧ IsFieldValue field.2 := by
  intro field hfield
  obtain ⟨field, hmem, rfl⟩ := List.mem_map.mp hfield
  exact ⟨h field hmem, isFieldValue_encoded field⟩

theorem fields_of_encoded_eq {fields others : List (Text × Text)}
    (hfields : ∀ field ∈ fields, IsFieldName field.1)
    (hothers : ∀ field ∈ others, IsFieldName field.1)
    (h : ((fields.map encoded).flatMap fun field => fieldText field ++ lit "&") =
      (others.map encoded).flatMap fun field => fieldText field ++ lit "&") : fields = others :=
  encoded_injective.list_map
    (Text.fields_of_flatMap_eq (forall_encoded hfields) (forall_encoded hothers) h)

theorem fields_of_query_eq (hr : r.HasFieldNames) (hr' : r'.HasFieldNames)
    (h : r.query source = r'.query source) : r.fields source = r'.fields source := by
  have hjoined := congrArg (· ++ lit "&") h
  simp only [query_append] at hjoined
  by_cases hsource : source.IsFieldName
  · have hnames : ∀ {r : Request}, r.HasFieldNames → ∀ field ∈ r.fields source,
        IsFieldName field.1 := by
      intro r hr field hfield
      rcases Entries.mem_keys_set.mp (mem_keys_of_mem_fieldsOf hfield) with hkey | hkey
      · exact hkey ▸ hsource
      · exact isFieldName_of_mem_ownParams hr hkey
    exact fields_of_encoded_eq (hnames hr) (hnames hr') hjoined
  · -- no parameter has such a name, so the field from the settings is the last one
    have hlast : ∀ {r : Request}, r.HasFieldNames →
        r.fields source = fieldsOf r.ownParams ++ [(source, lit "1")] := by
      intro r hr
      unfold fields
      rw [allParams_eq, Entries.set_of_notMem fun hkey =>
        hsource (isFieldName_of_mem_ownParams hr hkey)]
      exact List.filterMap_append
    have hnames : ∀ {r : Request}, r.HasFieldNames → ∀ field ∈ fieldsOf r.ownParams,
        IsFieldName field.1 := fun hr field hfield =>
      isFieldName_of_mem_ownParams hr (mem_keys_of_mem_fieldsOf hfield)
    rw [hlast hr, hlast hr', List.map_append, List.map_append, List.flatMap_append,
      List.flatMap_append] at hjoined
    rw [hlast hr, hlast hr', fields_of_encoded_eq (hnames hr) (hnames hr')
      (List.append_cancel_right hjoined)]

theorem find?_ownParams (name : Text) (r : Request) : Entries.find? name r.ownParams =
    (Entries.find? name (Entries.ofPairs r.params)).or
      (Entries.find? name (Entries.ofPairs r.generalFields)) :=
  Entries.find?_merge _ _ _

theorem find?_params_eq_none (h : name ∉ Entries.keys r.params) :
    Entries.find? name (Entries.ofPairs r.params) = none := by
  rw [Entries.find?_eq_none]
  exact fun hkey => (Entries.mem_keys_merge.mp hkey).elim nofun h

theorem param?_eq_none (h : name ∉ Entries.keys r.params) : r.param? name = none := by
  rw [param?, find?_params_eq_none h]
  rfl

theorem AddsParams.find?_method (hr : r.AddsParams source) (hsource : source ≠ lit "method") :
    Entries.find? (lit "method") (r.fields source) = some r.method := by
  rw [find?_fields, allParams_eq, Entries.find?_set, if_neg hsource, find?_ownParams,
    find?_params_eq_none (hr.general _ (by decide))]
  rfl

theorem find?_param (hname : name ∉ generalNames) (hsource : name ≠ source) :
    Entries.find? name (r.fields source) = r.param? name := by
  have hnone : Entries.find? name (Entries.ofPairs r.generalFields) = none := by
    rw [Entries.find?_eq_none]
    exact hname
  rw [find?_fields, allParams_eq, Entries.find?_set, if_neg (Ne.symm hsource), find?_ownParams, hnone,
    Option.or_none]
  rfl

/-- Requests that differ have different queries, unless parameters take the place of other fields. -/
theorem query_ne_of_differs (hr : r.HasFieldNames) (hr' : r'.HasFieldNames)
    (hadds : r.AddsParams source) (hadds' : r'.AddsParams source) (hsource : source ≠ lit "method")
    (h : r.Differs r') : r.query source ≠ r'.query source := by
  intro hquery
  have hfields := fields_of_query_eq hr hr' hquery
  rcases h with hmethod | ⟨name, hname⟩
  · have hfound := hadds.find?_method hsource
    rw [hfields, hadds'.find?_method hsource] at hfound
    exact hmethod (Option.some.inj hfound).symm
  · by_cases hgeneral : name ∈ generalNames
    · exact hname ((param?_eq_none (hadds.general name hgeneral)).trans
        (param?_eq_none (hadds'.general name hgeneral)).symm)
    · by_cases heq : name = source
      · subst heq
        exact hname ((param?_eq_none hadds.source).trans (param?_eq_none hadds'.source).symm)
      · rw [← find?_param hgeneral heq, ← find?_param hgeneral heq, hfields] at hname
        exact hname rfl

end Request
end MetricBridge
