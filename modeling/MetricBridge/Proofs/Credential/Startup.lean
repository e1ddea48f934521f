import MetricBridge.Credential.Startup
import MetricBridge.Proofs.Credential.Resolving

namespace MetricBridge

open CredentialSource CredentialFields

variable {reader : DotenvReader} {env : Entries Text Text} {files : Files} {caller : Origin}
  {node : Option FileNode} {loaded : Bool}

namespace DotenvReader

/-- What is documented of a library that adds variables without overriding. A variable of the environment
keeps its value. The others have the values that the file assigns; a file that cannot be opened assigns none. -/
structure AddsMissing (reader : DotenvReader) : Prop where
  kept : ∀ env node name value, Entries.find? name env = some value →
    Entries.find? name (reader.load env node).env = some value
  added : ∀ env node loaded, (reader.load env node).loaded = .ok loaded →
    ∀ name, Entries.find? name env = none →
      Entries.find? name (reader.load env node).env = (Entries.find? name (reader.assigned env node)).join
  unopened : ∀ env node reason, (reader.load env node).loaded = .error (.unreadable (.inaccessible reason)) →
    (reader.load env node).env = env ∧ reader.assigned env node = []

theorem nodup_keys_plainValues {values : Entries Text Text} (h : plainValues node = .ok values) :
    (Entries.keys values).Nodup := by
  unfold plainValues at h
  split at h
  · split at h
    · cases h
    · cases h
      exact Entries.nodup_keys_ofPairs _
  · cases h
    exact List.nodup_nil

theorem addsMissing_plain : plain.AddsMissing where
  kept env node name value h := by
    simp only [plain]
    split
    · exact h
    · rw [Entries.find?_append, h]
      rfl
  added env node loaded h name hname := by
    simp only [plain] at h ⊢
    split at h
    · cases h
    · rename_i values hvalues
      have hnodup := nodup_keys_plainValues hvalues
      have hmissing : Entries.has name env = false := by rw [Entries.has, hname]; rfl
      have hassigned : Entries.find? name (settable values) = (Entries.find? name values).map some :=
        Entries.find?_map some values name
      rw [hvalues]
      dsimp only [Except.toOption, Option.getD]
      rw [Entries.find?_append, hname, Option.none_or, Entries.find?_filter hnodup, hassigned]
      cases Entries.find? name values with
      | none => rfl
      | some value => simp [Option.filter, hmissing]
  unopened env node reason h := by
    -- this reader opens every file
    have hopened : plainValues node ≠ .error (.inaccessible reason) := by
      intro hfault
      unfold plainValues at hfault
      split at hfault
      · split at hfault <;> cases hfault
      · cases hfault
    simp only [plain] at h
    split at h
    · rename_i fault hfault
      cases h
      exact absurd hfault hopened
    · cases h

end DotenvReader

namespace Startup

theorem env_eq (reader : DotenvReader) (caller : Origin) (node : Option FileNode)
    (env : Entries Text Text) : (run reader caller node env).env = (reader.load env node).env := by
  simp only [run]
  split
  · rfl
  · rfl
  · rfl
  · rfl

/-- Start-up fails where the library does, unless the file cannot be opened. -/
theorem loaded_eq_ok : (run reader caller node env).loaded = .ok loaded ↔
    (reader.load env node).loaded = .ok loaded ∨ loaded = false ∧
      ∃ reason, (reader.load env node).loaded = .error (.unreadable (.inaccessible reason)) := by
  simp only [run]
  split
  · rename_i h
    simp [h]
  · rename_i h
    simp [h]
  · rename_i reason h
    simp [h, eq_comm]
  · rename_i fault hinaccessible h
    rw [h]
    refine ⟨nofun, ?_⟩
    rintro (⟨⟨⟩⟩ | ⟨-, reason, hreason⟩)
    exact absurd (Except.error.inj hreason) (hinaccessible reason)

/-- A variable of the environment keeps its value; the others have the value that the file gives. -/
theorem find?_env (hadds : reader.AddsMissing) (h : (run reader caller node env).loaded = .ok loaded)
    (name : Text) : Entries.find? name (run reader caller node env).env =
      (Entries.find? name env).or (Entries.find? name (reader.assigned env node)).join := by
  rw [env_eq]
  cases hname : Entries.find? name env with
  | some value => exact hadds.kept env node name value hname
  | none =>
      obtain hloaded | ⟨-, reason, hreason⟩ := loaded_eq_ok.mp h
      · exact hadds.added env node loaded hloaded name hname
      · obtain ⟨henv, hassigned⟩ := hadds.unopened env node reason hreason
        rw [henv, hname, hassigned]
        rfl

end Startup

namespace CredentialSource

variable {env' : Entries Text Text} {s : CredentialSource} {sources : List CredentialSource}
  {field : Text}

def selection (reader : DotenvReader) (env : Entries Text Text) (files : Files)
    (sources : List CredentialSource) : Except CredentialFault Credentials :=
  (choose reader env files sources).1.map fun found => found.1.toCredentials

def credentials (reader : DotenvReader) (env : Entries Text Text) (files : Files)
    (s : CredentialSource) : Credentials :=
  ⟨some (s.value reader env files "instance_url"), some (s.value reader env files "token_auth")⟩

theorem selection_cons (sources : List CredentialSource) (hreadable : s.IsReadable reader env files) :
    selection reader env files (s :: sources) =
      if s.IsComplete reader env files then .ok (s.credentials reader env files)
      else selection reader env files sources := by
  rcases choose_cons sources hreadable with
    ⟨hcomplete, fields, heq, hfields⟩ | ⟨hincomplete, heq⟩
  · have hfind : ∀ name ∈ names, Entries.find? name fields = some (s.value reader env files name) := by
      intro name hname
      rw [hfields.find? name, if_pos ⟨hname, hcomplete name hname⟩]
    rw [if_pos hcomplete, selection, heq]
    show Except.ok fields.toCredentials = _
    rw [CredentialFields.toCredentials, hfind _ (by decide), hfind _ (by decide)]
    rfl
  · rw [if_neg hincomplete, selection, heq]
    rfl

theorem isReadable_of_isComplete {config : Path}
    (h : (CredentialSource.config config).IsComplete reader env files) (env' : Entries Text Text) :
    (CredentialSource.config config).IsReadable reader env' files := by
  intro content hcontent
  have hobject : configObject files config ≠ [] := by
    intro hnone
    refine h "instance_url" (by decide) ?_
    rw [value, raw, hnone]
    rfl
  unfold configObject at hobject
  rw [hcontent] at hobject
  dsimp only at hobject
  split at hobject
  · rename_i hparse
    obtain ⟨text, htext, hparse⟩ := Option.map_eq_some_iff.mp hparse
    refine ⟨text, htext, fun hlong => ?_⟩
    cases hparse.symm.trans hlong
  · exact absurd rfl hobject

/-- A complete configuration file hides what comes after it and does not look at the environment. -/
theorem selection_config {config : Path}
    (h : (CredentialSource.config config).IsComplete reader env files) (env' : Entries Text Text) :
    selection reader env' files (.config config :: sources) =
      .ok ((CredentialSource.config config).credentials reader env files) := by
  rw [selection_cons sources (isReadable_of_isComplete h env')]
  exact if_pos h

section Extended

variable (hextends : ∀ name text, Entries.find? name env = some text →
  Entries.find? name env' = some text)

include hextends

theorem value_of_extends (h : environment.value reader env files field ≠ []) :
    environment.value reader env' files field = environment.value reader env files field := by
  cases hfind : Entries.find? (variableOf field) env with
  | none =>
      refine absurd ?_ h
      rw [value, raw, hfind]
      rfl
  | some text => rw [value, raw, value, raw, hfind, hextends _ _ hfind]

theorem isComplete_of_extends (h : environment.IsComplete reader env files) :
    environment.IsComplete reader env' files := by
  intro field hfield
  rw [value_of_extends hextends (h field hfield)]
  exact h field hfield

theorem credentials_of_extends (h : environment.IsComplete reader env files) :
    environment.credentials reader env' files = environment.credentials reader env files := by
  rw [credentials, credentials, value_of_extends hextends (h _ (by decide)),
    value_of_extends hextends (h _ (by decide))]

/-- More variables in the environment make no difference if it is complete without them, or if what
it holds with them is what is selected without it, or if it is not complete with them. -/
theorem selection_of_extends (sources : List CredentialSource) :
    selection reader env' files (.environment :: sources) =
        selection reader env files (.environment :: sources) ↔
      environment.IsComplete reader env files ∨
      environment.IsComplete reader env' files ∧
        selection reader env files sources = .ok (environment.credentials reader env' files) ∨
      ¬ environment.IsComplete reader env' files ∧
        selection reader env' files sources = selection reader env files sources := by
  have hreadable : ∀ env, environment.IsReadable reader env files := fun _ => trivial
  rw [selection_cons sources (hreadable env'), selection_cons sources (hreadable env)]
  by_cases hbefore : environment.IsComplete reader env files
  · rw [if_pos hbefore, if_pos (isComplete_of_extends hextends hbefore),
      credentials_of_extends hextends hbefore]
    exact ⟨fun _ => .inl hbefore, fun _ => rfl⟩
  · by_cases hafter : environment.IsComplete reader env' files
    · simp only [hbefore, hafter, if_true, if_false, false_or, true_and, not_true_eq_false,
        false_and, or_false]
      exact eq_comm
    · simp only [hbefore, hafter, if_false, false_or, false_and, not_false_eq_true, true_and]

end Extended

/-- Start-up fails where the library does, unless the file cannot be opened. The environment then keeps
its own values and has those of the file besides. If it is complete with them it is used, whatever the
configuration file says. So what is selected is the same as with the original environment only if that
was complete already, or if what is held now is what the other sources give, or if the environment is
still incomplete and the other sources give what they gave before. A complete configuration file does
so for every environment. -/
theorem selection_after_startup (hadds : reader.AddsMissing) (caller : Origin)
    (env : Entries Text Text) (files : Files) (configFile : Option Text) (dotenvFile : Text) :
    let node := files.node? (.ofText dotenvFile)
    let started := Startup.run reader caller node env
    let added := reader.assigned env node
    let asked := order configFile dotenvFile
    (∀ loaded, started.loaded = .ok loaded ↔ (reader.load env node).loaded = .ok loaded ∨
      loaded = false ∧
        ∃ reason, (reader.load env node).loaded = .error (.unreadable (.inaccessible reason))) ∧
    ∀ loaded, started.loaded = .ok loaded →
      (∀ name, Entries.find? name started.env =
        (Entries.find? name env).or (Entries.find? name added).join) ∧
      (environment.IsComplete reader started.env files →
        selection reader started.env files asked =
          .ok (environment.credentials reader started.env files)) ∧
      (selection reader started.env files asked = selection reader env files asked ↔
        environment.IsComplete reader env files ∨
        environment.IsComplete reader started.env files ∧
          selection reader env files asked.tail =
            .ok (environment.credentials reader started.env files) ∨
        ¬ environment.IsComplete reader started.env files ∧
          selection reader started.env files asked.tail = selection reader env files asked.tail) ∧
      ∀ config ∈ asked.tail.head?, config.IsComplete reader env files → ∀ env',
        selection reader env' files asked.tail = .ok (config.credentials reader env files) := by
  intro node started added asked
  refine ⟨fun loaded => Startup.loaded_eq_ok, fun loaded h => ?_⟩
  have hfind := Startup.find?_env hadds h
  have hextends : ∀ name text, Entries.find? name env = some text →
      Entries.find? name started.env = some text := by
    intro name text hname
    rw [hfind, hname]
    rfl
  refine ⟨hfind, fun hcomplete => ?_, selection_of_extends hextends asked.tail, ?_⟩
  · have hreadable : environment.IsReadable reader started.env files := trivial
    exact (selection_cons asked.tail hreadable).trans (if_pos hcomplete)
  · intro config hconfig
    cases Option.mem_some_iff.mp hconfig
    exact selection_config

/-- The address in the environment and the token in the file of variables are used together, though
the configuration file has both. -/
theorem selection_after_startup_mixed :
    let env : Entries Text Text := [("MATOMO_URL", "https://outer")]
    let config : Text := "\x7b\"instance_url\": \"https://config\", \"token_auth\": \"kept\"\x7d"
    let assigned : Text := "MATOMO_URL=https://dotenv\nMATOMO_TOKEN=inner\n"
    let files : Files :=
      [(⟨"", ["matomo.json"]⟩, .file config.utf8), (⟨"", [".env"]⟩, .file assigned.utf8)]
    let started := Startup.run .plain .application (files.node? (.ofText ".env")) env
    DotenvReader.plain.AddsMissing ∧ started.loaded = .ok true ∧
    selection .plain started.env files (order none ".env") =
      .ok ⟨some "https://outer", some "inner"⟩ ∧
    selection .plain env files (order none ".env") = .ok ⟨some "https://config", some "kept"⟩ := by
  intro env config assigned files started
  have hloaded : started.loaded = .ok true := by decide +kernel
  obtain ⟨-, hstarted⟩ :=
    selection_after_startup DotenvReader.addsMissing_plain .application env files none ".env"
  obtain ⟨-, hused, -, hbelow⟩ := hstarted true hloaded
  have hcomplete : environment.IsComplete .plain started.env files := by decide +kernel
  have hincomplete : ¬ environment.IsComplete .plain env files := by decide +kernel
  have hconfig : (CredentialSource.config (.ofText "matomo.json")).IsComplete .plain env files := by
    decide +kernel
  refine ⟨DotenvReader.addsMissing_plain, hloaded, ?_, ?_⟩
  · rw [hused hcomplete]
    decide +kernel
  · have hreadable : environment.IsReadable .plain env files := trivial
    have hselected := selection_cons (order none ".env").tail hreadable
    rw [if_neg hincomplete, hbelow _ rfl hconfig env] at hselected
    refine hselected.trans ?_
    decide +kernel

end CredentialSource

end MetricBridge
