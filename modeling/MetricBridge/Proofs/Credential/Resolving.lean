import MetricBridge.Credential.Source
import MetricBridge.Proofs.Entries
import MetricBridge.Proofs.Json.Reading

namespace MetricBridge

namespace Text

theorem head?_dropWhile_eq_false {p : CodePoint → Bool} {t : Text} {c : CodePoint}
    (h : (t.dropWhile p).head? = some c) : p c = false := by
  have hnot := List.head?_dropWhile_not p t
  rw [h] at hnot
  simpa using hnot

theorem stripWhere_stripWhere (p : CodePoint → Bool) (t : Text) :
    stripWhere p (stripWhere p t) = stripWhere p t := by
  have hself : ∀ {u : Text}, (∀ c, u.head? = some c → p c = false) → u.dropWhile p = u := by
    intro u hu
    cases u with
    | nil => rfl
    | cons c u => simp [hu c rfl]
  have hend : ∀ c, (stripWhere p t).reverse.head? = some c → p c = false := by
    intro c hc
    apply head?_dropWhile_eq_false (t := (t.dropWhile p).reverse)
    simpa [stripWhere] using hc
  -- what is cut off at the end leaves the front as it is
  have hfront : ∀ c, (stripWhere p t).head? = some c → p c = false := by
    intro c hc
    apply head?_dropWhile_eq_false (t := t)
    have hprefix : stripWhere p t <+: t.dropWhile p := by
      simpa [stripWhere] using List.reverse_prefix.mpr (List.dropWhile_suffix p (l := (t.dropWhile p).reverse))
    obtain ⟨rest, hrest⟩ := hprefix
    rw [← hrest, List.head?_append, hc]
    rfl
  rw [stripWhere, hself hfront, hself hend, List.reverse_reverse]

theorem trim_trim (t : Text) : trim (trim t) = trim t := stripWhere_stripWhere _ t

end Text

namespace CredentialFields

variable {fields : Entries Text Json} {c : CredentialFields} {value value' : Text → Text}

theorem normalize_trim (t : Text) : normalize (.string t.trim) = normalize (.string t) := by
  simp [normalize, Json.plain, Text.trim_trim]

def kept? (name : Text) (value : Json) : Option Text :=
  if name ∈ names ∧ normalize value ≠ [] then some (normalize value) else none

theorem ofFields_eq (fields : Entries Text Json) :
    ofFields fields = fields.filterMap fun e => (kept? e.1 e.2).map fun t => (e.1, t) := by
  simp only [ofFields, List.filter_filterMap]
  refine List.filterMap_congr fun e _ => ?_
  by_cases hname : e.1 ∈ names <;> by_cases hempty : normalize e.2 = [] <;>
    simp [kept?, hname, hempty, Option.filter]

/-- The entries are the values of the fields that have one, and nothing else. -/
structure Consists (c : CredentialFields) (value : Text → Text) : Prop where
  nodup : (Entries.keys c).Nodup
  find? (name : Text) : Entries.find? name c =
    if name ∈ names ∧ value name ≠ [] then some (value name) else none

theorem consists_ofFields (h : (Entries.keys fields).Nodup) :
    (ofFields fields).Consists fun name => normalize ((Entries.find? name fields).getD .null) where
  nodup := by
    rw [ofFields_eq]
    exact h.sublist (Entries.keys_filterMap_sublist kept? fields)
  find? name := by
    rw [ofFields_eq, Entries.find?_filterMap kept? h]
    cases Entries.find? name fields with
    | none => simp [normalize]
    | some value => rfl

namespace Consists

theorem congr (h : c.Consists value) (heq : ∀ name ∈ names, value' name = value name) :
    c.Consists value' where
  nodup := h.nodup
  find? name := by
    rw [h.find? name]
    by_cases hname : name ∈ names
    · rw [heq name hname]
    · simp [hname]

theorem isEmpty_missing (h : c.Consists value) :
    c.missing.isEmpty = true ↔ ∀ name ∈ names, value name ≠ [] := by
  rw [missing, List.isEmpty_iff, List.filter_eq_nil_iff]
  refine forall₂_congr fun name hname => ?_
  simp [Entries.has, h.find? name, hname]

end Consists

end CredentialFields

namespace CredentialSource

open CredentialFields

variable {reader : DotenvReader} {env : Entries Text Text} {files : Files} {s : CredentialSource}
  {sources : List CredentialSource} {file : Path}

def variableOf (field : Text) : Text := (Entries.find? field variableNames).getD []

def configObject (files : Files) (file : Path) : Entries Text Json :=
  match files.node? file with
  | some (.file content) => match (Text.ofFile? content).map Json.parse with
    | some (.ok (.object fields)) => fields
    | _ => []
  | _ => []

def assignments (reader : DotenvReader) (env : Entries Text Text) (files : Files) (file : Path) :
    Entries Text (Option Text) :=
  match files.node? file with
  | none => []
  | some node => (reader.values env node).1.toOption.getD []

/-- What the source says about a field; null or an empty text if it says nothing. -/
def raw (reader : DotenvReader) (env : Entries Text Text) (files : Files) (field : Text) :
    CredentialSource → Json
  | environment => .string ((Entries.find? (variableOf field) env).getD [])
  | config file => (Entries.find? field (configObject files file)).getD .null
  | .dotenv file =>
      .string ((Entries.find? (variableOf field) (assignments reader env files file)).join.getD [])

def value (reader : DotenvReader) (env : Entries Text Text) (files : Files) (s : CredentialSource)
    (field : Text) : Text :=
  CredentialFields.normalize (s.raw reader env files field)

def IsComplete (reader : DotenvReader) (env : Entries Text Text) (files : Files)
    (s : CredentialSource) : Prop :=
  ∀ field ∈ names, s.value reader env files field ≠ []

def IsFirstComplete (reader : DotenvReader) (env : Entries Text Text) (files : Files)
    (sources : List CredentialSource) (s : CredentialSource) : Prop :=
  ∃ before after, sources = before ++ s :: after ∧ s.IsComplete reader env files ∧
    ∀ earlier ∈ before, ¬earlier.IsComplete reader env files

/-- A configuration file is no file, or a text that is read as JSON or found malformed. A file of variables is
missing, or the library reads it or cannot open it. -/
def IsReadable (reader : DotenvReader) (env : Entries Text Text) (files : Files) : CredentialSource → Prop
  | environment => True
  | config file => ∀ content, files.node? file = some (.file content) →
      ∃ text, Text.ofFile? content = some text ∧ Json.parse text ≠ .error .integerTooLong
  | .dotenv file => ∀ node, files.node? file = some node → (reader.values env node).1 ≠ .error .notText

/-- What a variable says about its field, unless it is empty. -/
def told? (t : Option Text) : Option Json := (t.filter (! ·.isEmpty)).map .string

theorem normalize_told? (t : Option Text) :
    CredentialFields.normalize ((told? t).getD .null) = CredentialFields.normalize (.string (t.getD [])) := by
  cases t with
  | none => rfl
  | some t => cases t <;> rfl

theorem consists_variables (text? : Text → Option Text) :
    (ofFields (variableNames.filterMap fun e => (told? (text? e.2)).map fun j => (e.1, j))).Consists
      fun field => CredentialFields.normalize (.string ((text? (variableOf field)).getD [])) := by
  have hnodup : (Entries.keys variableNames).Nodup := by decide
  let f (_ name : Text) : Option Json := told? (text? name)
  refine (consists_ofFields (hnodup.sublist (Entries.keys_filterMap_sublist f _))).congr fun field hfield => ?_
  obtain ⟨name, hname⟩ := Entries.mem_keys_iff.mp hfield
  have hvariable : variableOf field = name := by rw [variableOf, hname, Option.getD_some]
  rw [Entries.find?_filterMap f hnodup, hname, hvariable, Option.bind_some, normalize_told?]

theorem environmentFields_eq (env : Entries Text Text) : environmentFields env =
    variableNames.filterMap fun e =>
      (told? ((Entries.find? e.2 env).map Text.trim)).map fun j => (e.1, j) := by
  refine List.filterMap_congr fun e _ => ?_
  dsimp only
  cases (Entries.find? e.2 env).map Text.trim with
  | none => rfl
  | some t => cases t <;> rfl

theorem dotenvFields_eq (h : (CredentialSource.dotenv file).IsReadable reader env files) :
    (dotenvFields reader file env files).1 = .ok (variableNames.filterMap fun e =>
      (told? (Entries.find? e.2 (assignments reader env files file)).join).map fun j => (e.1, j)) := by
  have hnone : variableNames.filterMap (fun e =>
      (told? (Entries.find? e.2 ([] : Entries Text (Option Text))).join).map fun j => (e.1, j)) = [] := rfl
  simp only [dotenvFields, assignments]
  cases hnode : files.node? file with
  | none => exact congrArg Except.ok hnone.symm
  | some node =>
      have hread := h node hnode
      dsimp only
      generalize reader.values env node = read at hread ⊢
      obtain ⟨result, log⟩ := read
      cases result with
      | error fault => cases fault with
        | inaccessible => exact congrArg Except.ok hnone.symm
        | notText => exact absurd rfl hread
      | ok values =>
          refine congrArg Except.ok (List.filterMap_congr fun e _ => ?_)
          show _ = (told? (Entries.find? e.2 values).join).map _
          cases Entries.find? e.2 values with
          | none => rfl
          | some t => cases t with
            | none => rfl
            | some t => cases t <;> rfl

theorem load_environment (reader : DotenvReader) (env : Entries Text Text) (files : Files) :
    ∃ fields, (environment.load reader env files).1 = .ok fields ∧
      fields.Consists (environment.value reader env files) := by
  refine ⟨ofFields (environmentFields env), rfl, ?_⟩
  rw [environmentFields_eq]
  refine (consists_variables fun name => (Entries.find? name env).map Text.trim).congr fun field _ => ?_
  rw [value, raw]
  cases Entries.find? (variableOf field) env with
  | none => rfl
  | some t => exact (normalize_trim t).symm

theorem load_config (h : (config file).IsReadable reader env files) :
    ∃ fields, ((config file).load reader env files).1 = .ok fields ∧
      fields.Consists ((config file).value reader env files) := by
  have hobject : (configFields file files).1 = .ok (configObject files file) := by
    simp only [configFields, configObject]
    cases hnode : files.node? file with
    | none => rfl
    | some node => cases node with
      | folder => rfl
      | file content =>
          obtain ⟨text, htext, hshort⟩ := h content hnode
          simp only [htext, Option.map_some]
          cases hparse : Json.parse text with
          | ok j => cases j <;> rfl
          | error fault => cases fault with
            | malformed => rfl
            | integerTooLong => exact absurd hparse hshort
  have hnodup : (Entries.keys (configObject files file)).Nodup := by
    simp only [configObject]
    split
    · split
      · rename_i hparse
        obtain ⟨text, -, hparse⟩ := Option.map_eq_some_iff.mp hparse
        cases Json.readFrom_of_parse hparse with
        | object _ hnodup _ _ => exact hnodup
      · exact List.nodup_nil
    · exact List.nodup_nil
  refine ⟨_, ?_, consists_ofFields hnodup⟩
  simp [load, hobject, Except.map]

theorem load_dotenv (h : (CredentialSource.dotenv file).IsReadable reader env files) :
    ∃ fields, ((CredentialSource.dotenv file).load reader env files).1 = .ok fields ∧
      fields.Consists ((CredentialSource.dotenv file).value reader env files) := by
  refine ⟨_, ?_, consists_variables fun name =>
    (Entries.find? name (assignments reader env files file)).join⟩
  simp only [load, dotenvFields_eq h]
  rfl

theorem load_eq (h : s.IsReadable reader env files) : ∃ fields, (s.load reader env files).1 = .ok fields ∧
    fields.Consists (s.value reader env files) := by
  cases s with
  | environment => exact load_environment reader env files
  | config file => exact load_config h
  | dotenv file => exact load_dotenv h

theorem choose_cons (sources : List CredentialSource)
    (hreadable : s.IsReadable reader env files) :
    (s.IsComplete reader env files ∧ ∃ fields, (choose reader env files (s :: sources)).1 = .ok (fields, s) ∧
      fields.Consists (s.value reader env files)) ∨
    (¬s.IsComplete reader env files ∧
      (choose reader env files (s :: sources)).1 = (choose reader env files sources).1) := by
  obtain ⟨fields, hload, hfields⟩ := load_eq hreadable
  have hmissing := hfields.isEmpty_missing
  have hpair : s.load reader env files = (.ok fields, (s.load reader env files).2) := Prod.ext hload rfl
  rw [choose, hpair]
  cases fields with
  | nil =>
      refine .inr ⟨fun hcomplete => ?_, rfl⟩
      have hempty : CredentialFields.missing [] = [] := List.isEmpty_iff.mp (hmissing.mpr hcomplete)
      exact absurd hempty (by decide)
  | cons field fields =>
      dsimp only
      by_cases hnone : (CredentialFields.missing (field :: fields)).isEmpty = true
      · rw [if_pos hnone]
        exact .inl ⟨hmissing.mp hnone, _, rfl, hfields⟩
      · rw [if_neg hnone]
        exact .inr ⟨fun hcomplete => hnone (hmissing.mpr hcomplete), rfl⟩

theorem isFirstComplete_cons {t : CredentialSource} : IsFirstComplete reader env files (s :: sources) t ↔
    (s.IsComplete reader env files ∧ t = s) ∨
      (¬s.IsComplete reader env files ∧ IsFirstComplete reader env files sources t) := by
  constructor
  · rintro ⟨before, after, heq, hcomplete, hbefore⟩
    cases before with
    | nil =>
        obtain ⟨rfl, rfl⟩ := List.cons.inj heq
        exact .inl ⟨hcomplete, rfl⟩
    | cons b before =>
        obtain ⟨rfl, rfl⟩ := List.cons.inj heq
        obtain ⟨hfirst, hbefore⟩ := List.forall_mem_cons.mp hbefore
        exact .inr ⟨hfirst, before, after, rfl, hcomplete, hbefore⟩
  · rintro (⟨hcomplete, rfl⟩ | ⟨hfirst, before, after, rfl, hcomplete, hbefore⟩)
    · exact ⟨[], sources, rfl, hcomplete, List.forall_mem_nil _⟩
    · exact ⟨s :: before, after, rfl, hcomplete, List.forall_mem_cons.mpr ⟨hfirst, hbefore⟩⟩

inductive Chooses (reader : DotenvReader) (env : Entries Text Text) (files : Files)
    (sources : List CredentialSource) : Except CredentialFault (CredentialFields × CredentialSource) → Prop
  | found (s : CredentialSource) (fields : CredentialFields) (first : IsFirstComplete reader env files sources s)
      (values : fields.Consists (s.value reader env files)) : Chooses reader env files sources (.ok (fields, s))
  | notFound (none : ∀ s ∈ sources, ¬s.IsComplete reader env files) :
      Chooses reader env files sources (.error .notFound)

theorem Chooses.cons {result : Except CredentialFault (CredentialFields × CredentialSource)}
    (h : Chooses reader env files sources result) (hincomplete : ¬s.IsComplete reader env files) :
    Chooses reader env files (s :: sources) result := by
  cases h with
  | found t fields first values =>
      exact .found t fields (isFirstComplete_cons.mpr (.inr ⟨hincomplete, first⟩)) values
  | notFound none => exact .notFound (List.forall_mem_cons.mpr ⟨hincomplete, none⟩)

theorem chooses (hreadable : ∀ s ∈ sources, s.IsReadable reader env files) :
    Chooses reader env files sources (choose reader env files sources).1 := by
  induction sources with
  | nil => exact .notFound (List.forall_mem_nil _)
  | cons s sources ih =>
      obtain ⟨hs, hsources⟩ := List.forall_mem_cons.mp hreadable
      rcases choose_cons sources hs with
        ⟨hcomplete, fields, heq, hfields⟩ | ⟨hincomplete, heq⟩
      · rw [heq]
        exact .found s fields (isFirstComplete_cons.mpr (.inl ⟨hcomplete, rfl⟩)) hfields
      · rw [heq]
        exact (ih hsources).cons hincomplete

theorem IsFirstComplete.mem {t : CredentialSource} (h : IsFirstComplete reader env files sources t) :
    t ∈ sources ∧ t.IsComplete reader env files := by
  obtain ⟨before, after, rfl, hcomplete, -⟩ := h
  exact ⟨List.mem_append_right _ List.mem_cons_self, hcomplete⟩

theorem IsFirstComplete.unique {t u : CredentialSource} (ht : IsFirstComplete reader env files sources t)
    (hu : IsFirstComplete reader env files sources u) : t = u := by
  induction sources with
  | nil => exact absurd ht.mem.1 (List.not_mem_nil)
  | cons s sources ih =>
      rcases isFirstComplete_cons.mp ht with ⟨hs, rfl⟩ | ⟨hs, ht⟩
      · rcases isFirstComplete_cons.mp hu with ⟨-, rfl⟩ | ⟨hnot, -⟩
        · rfl
        · exact absurd hs hnot
      · rcases isFirstComplete_cons.mp hu with ⟨hnot, rfl⟩ | ⟨-, hu⟩
        · exact absurd hnot hs
        · exact ih ht hu

/-- Of the environment, the configuration file and the file of variables, the first that has a value for each
field after normalization is used. Its values are the result, and there is nothing else in it. Credentials are
missing if no source has both, and nothing else goes wrong as long as the files can be read. -/
theorem resolve_first_complete {configFile : Option Text} {dotenvFile : Text}
    (hreadable : ∀ s ∈ order configFile dotenvFile, s.IsReadable reader env files) :
    (∀ s, (∃ fields, (resolve reader env files configFile dotenvFile).1 = .ok (fields, s)) ↔
      IsFirstComplete reader env files (order configFile dotenvFile) s) ∧
    (∀ fields s, (resolve reader env files configFile dotenvFile).1 = .ok (fields, s) →
      (Entries.keys fields).Nodup ∧ ∀ name, Entries.find? name fields =
        if name ∈ names then some (s.value reader env files name) else none) ∧
    ∀ fault, (resolve reader env files configFile dotenvFile).1 = .error fault ↔
      fault = .notFound ∧ ∀ s ∈ order configFile dotenvFile, ¬s.IsComplete reader env files := by
  have hchooses := chooses hreadable
  rw [← resolve] at hchooses
  generalize (resolve reader env files configFile dotenvFile).1 = result at hchooses ⊢
  cases hchooses with
  | found s fields first values =>
      refine ⟨fun t => ⟨?_, fun ht => ⟨fields, by rw [first.unique ht]⟩⟩, ?_, fun fault => ⟨nofun, ?_⟩⟩
      · rintro ⟨_, ⟨⟩⟩
        exact first
      · rintro _ _ ⟨⟩
        refine ⟨values.nodup, fun name => ?_⟩
        rw [values.find? name]
        by_cases hname : name ∈ names
        · simp [hname, first.mem.2 name hname]
        · simp [hname]
      · rintro ⟨-, hnone⟩
        exact absurd first.mem.2 (hnone s first.mem.1)
  | notFound none =>
      refine ⟨fun t => ⟨nofun, fun ht => absurd ht.mem.2 (none t ht.mem.1)⟩, nofun, fun fault => ⟨?_, ?_⟩⟩
      · rintro ⟨⟩
        exact ⟨rfl, none⟩
      · rintro ⟨rfl, -⟩
        rfl

instance : Decidable (s.IsComplete reader env files) :=
  inferInstanceAs (Decidable (∀ field ∈ names, s.value reader env files field ≠ []))

/-- A token in the environment and an address in the configuration file are both left alone. -/
theorem resolve_first_complete_dotenv :
    let env : Entries Text Text := [("MATOMO_TOKEN", "outer")]
    let config : Text := "\x7b\"instance_url\": \"https://config\", \"token_auth\": null\x7d"
    let assigned : Text := "MATOMO_URL = https://dotenv\nMATOMO_TOKEN=inner\n"
    let files : Files := [(⟨"", ["matomo.json"]⟩, .file config.utf8), (⟨"", [".env"]⟩, .file assigned.utf8)]
    (∀ s ∈ order none ".env", s.IsReadable .plain env files) ∧
    ∃ fields, (resolve .plain env files none ".env").1 = .ok (fields, .dotenv (.ofText ".env")) ∧
      Entries.find? (lit "instance_url") fields = some (lit "https://dotenv") ∧
      Entries.find? (lit "token_auth") fields = some (lit "inner") := by
  intro env config assigned files
  have hreadable : ∀ s ∈ order none ".env", s.IsReadable .plain env files := by
    refine List.forall_mem_cons.mpr ⟨trivial, List.forall_mem_cons.mpr
      ⟨fun content hcontent => ⟨config, ?_, fun hlong => ?_⟩, List.forall_mem_singleton.mpr ?_⟩⟩
    · have htext : (match files.node? (.ofText "matomo.json") with
          | some (.file content) => Text.ofFile? content == some config
          | _ => false) = true := by
        decide +kernel
      rw [hcontent] at htext
      exact beq_iff_eq.mp htext
    · have hparse : (match Json.parse config with | .ok _ => true | .error _ => false) = true := by
        decide +kernel
      rw [hlong] at hparse
      cases hparse
    · intro node hnode hread
      have hvalues : (match files.node? (.ofText ".env") with
          | some node => (DotenvReader.plain.values env node).1.isOk
          | none => false) = true := by
        decide +kernel
      rw [hnode] at hvalues
      dsimp only at hvalues
      rw [hread] at hvalues
      cases hvalues
  obtain ⟨hsource, hvalues, -⟩ := @resolve_first_complete .plain env files none ".env" hreadable
  have hfirst : IsFirstComplete .plain env files (order none ".env") (.dotenv (.ofText ".env")) :=
    ⟨[.environment, .config (.ofText "matomo.json")], [], rfl, by decide +kernel, by decide +kernel⟩
  obtain ⟨fields, hfields⟩ := (hsource _).mpr hfirst
  obtain ⟨-, hfind⟩ := hvalues _ _ hfields
  refine ⟨hreadable, fields, hfields, ?_, ?_⟩
  · rw [hfind]
    decide +kernel
  · rw [hfind]
    decide +kernel

end CredentialSource
end MetricBridge
