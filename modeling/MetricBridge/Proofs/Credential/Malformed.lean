import MetricBridge.Proofs.Credential.Resolving

namespace MetricBridge.CredentialSource

variable {reader : DotenvReader} {env : Entries Text Text} {files : Files} {s : CredentialSource}
  {sources : List CredentialSource} {fault : CredentialFault} {file : Path}

def fault? (reader : DotenvReader) (env : Entries Text Text) (files : Files) :
    CredentialSource → Option CredentialFault
  | environment => none
  | config file => match files.node? file with
    | some (.file content) => match (Text.ofFile? content).map Json.parse with
      | none => some .notText
      | some (.error .integerTooLong) => some .integerTooLong
      | some (.error (.malformed ..)) => none
      | some (.ok _) => none
    | _ => none
  | dotenv file => match (files.node? file).map fun node => (reader.values env node).1 with
    | none => none
    | some (.error .notText) => some .notText
    | some (.error (.inaccessible _)) => none
    | some (.ok _) => none

theorem isReadable_of_fault? (h : s.fault? reader env files = none) : s.IsReadable reader env files := by
  cases s with
  | environment => trivial
  | config file =>
      intro content hcontent
      simp only [fault?, hcontent] at h
      cases htext : Text.ofFile? content with
      | none =>
          rw [htext] at h
          cases h
      | some text =>
          refine ⟨text, rfl, fun hlong => ?_⟩
          rw [htext, Option.map_some, hlong] at h
          cases h
  | dotenv file =>
      intro node hnode hread
      simp only [fault?, hnode, Option.map_some, hread] at h
      cases h

theorem load_of_fault? (h : s.fault? reader env files = some fault) :
    (s.load reader env files).1 = .error fault := by
  cases s with
  | environment => cases h
  | config file =>
      simp only [fault?] at h
      split at h
      · rename_i content hnode
        cases htext : Text.ofFile? content with
        | none =>
            rw [htext] at h
            cases h
            simp [load, configFields, hnode, htext, Except.map]
        | some text =>
            rw [htext, Option.map_some] at h
            split at h
            · rename_i hparse
              cases hparse
            · rename_i hparse
              cases h
              simp [load, configFields, hnode, htext, Option.some.inj hparse, Except.map]
            · cases h
            · cases h
      · cases h
  | dotenv file =>
      simp only [fault?] at h
      split at h
      · cases h
      · rename_i hread
        cases h
        obtain ⟨node, hnode, hread⟩ := Option.map_eq_some_iff.mp hread
        have hpair : reader.values env node = (.error .notText, (reader.values env node).2) :=
          Prod.ext hread rfl
        simp only [load, dotenvFields, hnode]
        rw [hpair]
        rfl
      · cases h
      · cases h

/-- The search gets to a source that cannot be read: all earlier ones can be read, but are not complete. -/
def IsBlocked (reader : DotenvReader) (env : Entries Text Text) (files : Files)
    (sources : List CredentialSource) (fault : CredentialFault) : Prop :=
  ∃ before s after, sources = before ++ s :: after ∧ s.fault? reader env files = some fault ∧
    ∀ earlier ∈ before, earlier.fault? reader env files = none ∧ ¬earlier.IsComplete reader env files

theorem isBlocked_cons : IsBlocked reader env files (s :: sources) fault ↔
    s.fault? reader env files = some fault ∨
      ((s.fault? reader env files = none ∧ ¬s.IsComplete reader env files) ∧
        IsBlocked reader env files sources fault) := by
  constructor
  · rintro ⟨before, t, after, heq, hfault, hbefore⟩
    cases before with
    | nil =>
        obtain ⟨rfl, rfl⟩ := List.cons.inj heq
        exact .inl hfault
    | cons b before =>
        obtain ⟨rfl, rfl⟩ := List.cons.inj heq
        obtain ⟨hfirst, hbefore⟩ := List.forall_mem_cons.mp hbefore
        exact .inr ⟨hfirst, before, t, after, rfl, hfault, hbefore⟩
  · rintro (hfault | ⟨hfirst, before, t, after, rfl, hfault, hbefore⟩)
    · exact ⟨[], s, sources, rfl, hfault, List.forall_mem_nil _⟩
    · exact ⟨s :: before, t, after, rfl, hfault, List.forall_mem_cons.mpr ⟨hfirst, hbefore⟩⟩

/-- A source that can be read and is not complete is passed by. -/
theorem choose_cons_of_incomplete (hread : s.fault? reader env files = none)
    (hincomplete : ¬s.IsComplete reader env files) (sources : List CredentialSource) :
    (choose reader env files (s :: sources)).1 = (choose reader env files sources).1 := by
  obtain ⟨hcomplete, -⟩ | ⟨-, heq⟩ := choose_cons sources (isReadable_of_fault? hread)
  · exact absurd hcomplete hincomplete
  · exact heq

theorem choose_of_isBlocked (h : IsBlocked reader env files sources fault) :
    (choose reader env files sources).1 = .error fault := by
  induction sources with
  | nil =>
      obtain ⟨before, s, after, heq, -⟩ := h
      cases before <;> cases heq
  | cons s sources ih =>
      obtain hfault | ⟨⟨hread, hincomplete⟩, hblocked⟩ := isBlocked_cons.mp h
      · have hpair : s.load reader env files = (.error fault, (s.load reader env files).2) :=
          Prod.ext (load_of_fault? hfault) rfl
        rw [choose, hpair]
      · rw [choose_cons_of_incomplete hread hincomplete, ih hblocked]

theorem chooses_of_not_isBlocked (h : ∀ fault, ¬IsBlocked reader env files sources fault) :
    Chooses reader env files sources (choose reader env files sources).1 := by
  induction sources with
  | nil => exact .notFound (List.forall_mem_nil _)
  | cons s sources ih =>
      have hread : s.fault? reader env files = none := by
        cases hfault : s.fault? reader env files with
        | none => rfl
        | some fault => exact absurd (isBlocked_cons.mpr (.inl hfault)) (h fault)
      obtain ⟨hcomplete, fields, heq, hfields⟩ | ⟨hincomplete, heq⟩ :=
        choose_cons sources (isReadable_of_fault? hread)
      · rw [heq]
        exact .found s fields (isFirstComplete_cons.mpr (.inl ⟨hcomplete, rfl⟩)) hfields
      · rw [heq]
        refine (ih fun fault hblocked => ?_).cons hincomplete
        exact h fault (isBlocked_cons.mpr (.inr ⟨⟨hread, hincomplete⟩, hblocked⟩))

theorem choose_cons_congr {sources' : List CredentialSource}
    (h : (choose reader env files sources).1 = (choose reader env files sources').1) (s : CredentialSource) :
    (choose reader env files (s :: sources)).1 = (choose reader env files (s :: sources')).1 := by
  rw [choose, choose]
  generalize s.load reader env files = loaded
  obtain ⟨result, log⟩ := loaded
  cases result with
  | error fault => rfl
  | ok fields => cases fields with
    | nil => exact h
    | cons field fields =>
        dsimp only
        split
        · rfl
        · exact h

def HasObject (files : Files) (file : Path) : Prop :=
  ∃ content text fields, files.node? file = some (.file content) ∧ Text.ofFile? content = some text ∧
    Json.parse text = .ok (.object fields)

theorem not_isComplete_of_not_hasObject (h : ¬HasObject files file) : ¬(config file).IsComplete reader env files := by
  have hempty : configObject files file = [] := by
    simp only [configObject]
    split
    · rename_i content hnode
      split
      · rename_i fields hparse
        obtain ⟨text, htext, hparse⟩ := Option.map_eq_some_iff.mp hparse
        exact absurd ⟨content, text, fields, hnode, htext, hparse⟩ h
      · rfl
    · rfl
  intro hcomplete
  refine hcomplete (lit "token_auth") (by decide) ?_
  rw [value, raw, hempty]
  rfl

/-- The search for credentials ends with something else than credentials or their absence if and only if it gets
to a source that cannot be read. If it does not, then the first complete source is used. A configuration file
without an object, be it malformed, something else or missing, is treated as if it were not asked. -/
theorem resolve_unless_blocked (reader : DotenvReader) (env : Entries Text Text) (files : Files)
    (configFile : Option Text) (dotenvFile : Text) :
    (∀ fault, fault ≠ .notFound → ((resolve reader env files configFile dotenvFile).1 = .error fault ↔
      IsBlocked reader env files (order configFile dotenvFile) fault)) ∧
    ((∀ fault, ¬IsBlocked reader env files (order configFile dotenvFile) fault) →
      Chooses reader env files (order configFile dotenvFile) (resolve reader env files configFile dotenvFile).1) ∧
    ∀ file, .config file ∈ order configFile dotenvFile → (config file).fault? reader env files = none →
      ¬HasObject files file → (resolve reader env files configFile dotenvFile).1 =
        (choose reader env files ((order configFile dotenvFile).erase (.config file))).1 := by
  refine ⟨fun fault hfault => ⟨fun hresult => ?_, choose_of_isBlocked⟩, chooses_of_not_isBlocked, ?_⟩
  · by_contra hfree
    have hnone : ∀ fault', ¬IsBlocked reader env files (order configFile dotenvFile) fault' := by
      intro fault' hblocked
      have heq := hresult.symm.trans (choose_of_isBlocked hblocked)
      cases heq
      exact hfree hblocked
    have hchooses := chooses_of_not_isBlocked hnone
    rw [← resolve, hresult] at hchooses
    cases hchooses
    exact hfault rfl
  · intro file hfile hread hobject
    obtain ⟨q, hq⟩ : ∃ q, order configFile dotenvFile = [.environment, .config file, .dotenv q] := by
      simp only [order, List.mem_cons, List.not_mem_nil, or_false, reduceCtorEq, false_or, config.injEq] at hfile
      exact ⟨_, by rw [hfile]; rfl⟩
    have herase : [environment, config file, dotenv q].erase (config file) = [environment, dotenv q] := by
      simp
    rw [resolve, hq, herase]
    exact choose_cons_congr (choose_cons_of_incomplete hread (not_isComplete_of_not_hasObject hobject) _) _

/-- A file of variables that has both values is not asked behind a byte that is no text, and is used behind
malformed JSON. -/
theorem resolve_unless_blocked_dotenv :
    let config := Path.ofText "matomo.json"
    let assigned : Text := "MATOMO_URL=https://dotenv\nMATOMO_TOKEN=d\n"
    let noText : Files := [(config, .file [0xFF]), (.ofText ".env", .file assigned.utf8)]
    let malformed : Files := [(config, .file (lit "\x7bnot json").utf8), (.ofText ".env", .file assigned.utf8)]
    (resolve .plain [] noText none ".env").1 = .error .notText ∧
    ((.config config ∈ order none ".env" ∧ (CredentialSource.config config).fault? .plain [] malformed = none ∧
      ¬HasObject malformed config) ∧
      (resolve .plain [] malformed none ".env").1 =
        (choose .plain [] malformed [.environment, .dotenv (.ofText ".env")]).1) ∧
    (choose .plain [] malformed [.environment, .dotenv (.ofText ".env")]).1.toOption =
      some ([(lit "instance_url", lit "https://dotenv"), (lit "token_auth", lit "d")],
        CredentialSource.dotenv (.ofText ".env")) := by
  intro config assigned noText malformed
  obtain ⟨hblocked, -, -⟩ := resolve_unless_blocked .plain [] noText none ".env"
  obtain ⟨-, -, hpassed⟩ := resolve_unless_blocked .plain [] malformed none ".env"
  have hmem : .config config ∈ order none ".env" := by decide +kernel
  have hread : (CredentialSource.config config).fault? .plain [] malformed = none := by decide +kernel
  have hobject : ¬HasObject malformed config := by
    rintro ⟨content, text, fields, hnode, htext, hparse⟩
    have hcontent : malformed.node? config = some (.file (lit "\x7bnot json").utf8) := rfl
    rw [hcontent, Option.some.injEq, FileNode.file.injEq] at hnode
    have hwritten : Text.ofFile? (lit "\x7bnot json").utf8 = some (lit "\x7bnot json") := by decide +kernel
    rw [← hnode, hwritten, Option.some.injEq] at htext
    have hmalformed : (Json.parse (lit "\x7bnot json")).toBool = false := by decide +kernel
    rw [htext, hparse] at hmalformed
    cases hmalformed
  refine ⟨?_, ⟨⟨hmem, hread, hobject⟩, hpassed config hmem hread hobject⟩, ?_⟩
  · refine (hblocked .notText nofun).mpr ⟨[.environment], .config config, [.dotenv (.ofText ".env")], rfl, ?_, ?_⟩
    · decide +kernel
    · decide +kernel
  · decide +kernel

end MetricBridge.CredentialSource
