import DesignTokens.CommandLine.Command

/-!
# Settings in layers

The settings of a command come from its arguments, its configuration file and its environment. Each
of these is a layer, which says something about some of the fields and nothing about the others.
Where several layers say something about a field, the first one counts; where none does, the default
counts.
-/

namespace DesignTokens

open Toml

/-! ## Fields -/

/-- A field of the settings. -/
inductive Setting where
  | sourcePath
  | outputDir
  | documentName
  | schemaVersion
  | embedTimestamp
  | generateReadme
  | structured
  | minimum
  | showsFile
deriving DecidableEq, Repr

/-- A table of a configuration file. -/
inductive SettingsTable where
  | export
  | logging
deriving DecidableEq, Repr

namespace SettingsTable

def key : SettingsTable → String
  | .export => "export"
  | logging => "logging"

/-- The names of the fields of a table, in the order in which an array gives their values. -/
def names : SettingsTable → List String
  | .export => ["source_path", "output_dir", "document_name", "schema_version", "embed_timestamp",
      "generate_readme"]
  | logging => ["use_structured_logging", "min_log_level", "include_file_context"]

end SettingsTable

namespace Setting

/-- What a field holds. -/
def Value : Setting → Type
  | sourcePath | outputDir | documentName | schemaVersion => String
  | embedTimestamp | generateReadme | structured | showsFile => Bool
  | minimum => LogLevel

/-- The value of a field in some settings. -/
def get : (f : Setting) → Settings → f.Value
  | sourcePath => (·.preferences.sourcePath)
  | outputDir => (·.preferences.outputDir)
  | documentName => (·.preferences.documentName)
  | schemaVersion => (·.preferences.schemaVersion)
  | embedTimestamp => (·.preferences.embedTimestamp)
  | generateReadme => (·.preferences.generateReadme)
  | structured => (·.logging.structured)
  | minimum => (·.logging.minimum)
  | showsFile => (·.logging.showsFile)

/-- The settings with these values. -/
def settingsOf (v : (f : Setting) → f.Value) : Settings :=
  ⟨⟨v sourcePath, v outputDir, v documentName, v schemaVersion, v embedTimestamp,
    v generateReadme⟩, ⟨v structured, v minimum, v showsFile⟩⟩

@[simp] theorem get_settingsOf (v : (f : Setting) → f.Value) (f : Setting) :
    f.get (settingsOf v) = v f := by
  cases f <;> rfl

/-- The table of a field in a configuration file. -/
def table : Setting → SettingsTable
  | sourcePath | outputDir | documentName | schemaVersion | embedTimestamp | generateReadme =>
    .export
  | structured | minimum | showsFile => .logging

/-- The name of a field in its table. -/
def key : Setting → String
  | sourcePath => "source_path"
  | outputDir => "output_dir"
  | documentName => "document_name"
  | schemaVersion => "schema_version"
  | embedTimestamp => "embed_timestamp"
  | generateReadme => "generate_readme"
  | structured => "use_structured_logging"
  | minimum => "min_log_level"
  | showsFile => "include_file_context"

def readItem : (f : Setting) → Item → Option f.Value
  | sourcePath | outputDir | documentName | schemaVersion => ConfigFile.asText
  | embedTimestamp | generateReadme | structured | showsFile => ConfigFile.asBool
  | minimum => ConfigFile.asLevel

/-- The environment variable of a field. -/
def variableName : Setting → String
  | sourcePath => "TOKENS_SOURCE_PATH"
  | outputDir => "TOKENS_OUTPUT_DIR"
  | documentName => "TOKENS_DOCUMENT_NAME"
  | schemaVersion => "TOKENS_SCHEMA_VERSION"
  | embedTimestamp => "TOKENS_EMBED_TIMESTAMP"
  | generateReadme => "TOKENS_GENERATE_README"
  | structured => "TOKENS_LOGGING_USE_STRUCTURED"
  | minimum => "TOKENS_LOGGING_MIN_LEVEL"
  | showsFile => "TOKENS_LOGGING_INCLUDE_FILE_CONTEXT"

def readVariable : (f : Setting) → String → Option f.Value
  | sourcePath | outputDir | documentName | schemaVersion => some
  | embedTimestamp | generateReadme | structured | showsFile => Environment.readBool
  | minimum => LogLevel.read?

/-- The value of a field about which no layer says anything. -/
def default : (f : Setting) → f.Value
  | sourcePath => "lib/shared/design/tokens/design_tokens.dart"
  | outputDir => "design-tokens"
  | documentName => "NutryFlow Design Tokens"
  | schemaVersion => "1.0.0"
  | embedTimestamp => false
  | generateReadme => true
  | structured => false
  | minimum => .warning
  | showsFile => true

end Setting

/-! ## Layers -/

/-- What one source of settings says about the fields. -/
def SettingsLayer := (f : Setting) → Option f.Value

namespace SettingsLayer

/-- A layer that says nothing. -/
def none : SettingsLayer := fun _ => .none

/-- One layer in front of another. -/
def above (x y : SettingsLayer) : SettingsLayer := fun f => (x f).or (y f)

/-- What a layer says about the fields that another one leaves open. -/
def without (x y : SettingsLayer) : SettingsLayer :=
  fun f => if (y f).isSome then .none else x f

/-- The settings of a layer on top of others. -/
def onto (x : SettingsLayer) (s : Settings) : Settings :=
  Setting.settingsOf fun f => (x f).getD (f.get s)

/-- The settings of a layer in front of the defaults. -/
def settings (x : SettingsLayer) : Settings :=
  Setting.settingsOf fun f => (x f).getD f.default

variable (x y z : SettingsLayer)

theorem onto_settings : x.onto y.settings = (x.above y).settings := by
  simp only [onto, settings, above, Setting.get_settingsOf, Option.getD_or]

theorem above_without : x.above (y.without x) = x.above y := by
  funext f
  unfold above without
  cases x f <;> rfl

theorem without_above : (x.above y).without z = (x.without z).above (y.without z) := by
  funext f
  unfold above without
  cases z f <;> rfl

end SettingsLayer

/-! ## The layers of a command -/

/-- What arguments say. The stamp can only be switched on and the overview only off. -/
def CommandLine.Arguments.given (a : Arguments) : SettingsLayer
  | .sourcePath => a.source
  | .outputDir => a.outDir
  | .documentName => a.name
  | .schemaVersion => a.schemaVersion
  | .embedTimestamp => if a.timestamp then some true else .none
  | .generateReadme => if a.noReadme then some false else .none
  | .structured => if a.structuredLogs then some true else .none
  | .minimum => a.logLevel
  | .showsFile => .none

/-- What the environment says. A variable that cannot be read says nothing. -/
def Environment.given (env : Environment) : SettingsLayer :=
  fun f => (env f.variableName).bind f.readVariable

theorem CommandLine.Arguments.layer_eq (a : Arguments) (s : Settings) :
    a.layer s = a.given.onto s := by
  have honto : a.given.onto s =
      ⟨⟨a.source.getD s.preferences.sourcePath, a.outDir.getD s.preferences.outputDir,
        a.name.getD s.preferences.documentName, a.schemaVersion.getD s.preferences.schemaVersion,
        (if a.timestamp then some true else .none).getD s.preferences.embedTimestamp,
        (if a.noReadme then some false else .none).getD s.preferences.generateReadme⟩,
      ⟨(if a.structuredLogs then some true else .none).getD s.logging.structured,
        a.logLevel.getD s.logging.minimum, s.logging.showsFile⟩⟩ := rfl
  rw [honto, layer, preferences, logging]
  cases a.timestamp <;> cases a.noReadme <;> cases a.structuredLogs <;> rfl

theorem Environment.settings_eq (env : Environment) : env.settings = env.given.settings := by
  have hsettings : env.given.settings =
      ⟨⟨((env "TOKENS_SOURCE_PATH").bind some).getD "lib/shared/design/tokens/design_tokens.dart",
        ((env "TOKENS_OUTPUT_DIR").bind some).getD "design-tokens",
        ((env "TOKENS_DOCUMENT_NAME").bind some).getD "NutryFlow Design Tokens",
        ((env "TOKENS_SCHEMA_VERSION").bind some).getD "1.0.0",
        env.bool "TOKENS_EMBED_TIMESTAMP" false, env.bool "TOKENS_GENERATE_README" true⟩,
      env.logging⟩ := rfl
  rw [hsettings]
  simp only [Option.bind_fun_some]
  rfl

namespace ConfigFile

/-- The fields of a table that a document gives; a table that it does not have gives none. -/
def entriesOf (document : Entries) (t : SettingsTable) : Option Entries :=
  match document.get? t.key with
  | some item => fieldsOf t.names item
  | none => some []

/-- A document whose tables are tables, with values of the right type in the known fields. -/
structure WellTyped (document : Entries) : Prop where
  tables : ∀ t, (entriesOf document t).isSome = true
  fields : ∀ f : Setting, ∀ es item, entriesOf document f.table = some es →
    es.get? f.key = some item → (f.readItem item).isSome = true

/-- What a document says. -/
def given (document : Entries) : SettingsLayer :=
  fun f => ((entriesOf document f.table).bind (·.get? f.key)).bind f.readItem

theorem field_eq_some {α : Type} {read : Item → Option α} {es : Entries} {name : String}
    (h : ∀ item, es.get? name = some item → (read item).isSome = true) (d : α) :
    field read es name d = some (((es.get? name).bind read).getD d) := by
  unfold field
  cases hitem : es.get? name with
  | none => rfl
  | some item =>
    obtain ⟨a, ha⟩ := Option.isSome_iff_exists.1 (h item hitem)
    rw [Option.bind_some, ha]
    exact ha

theorem isSome_of_field {α : Type} {read : Item → Option α} {es ts : Entries} {name : String}
    {d a : α} (h : field read es name d = some a) (hsame : some es = some ts) {item : Item}
    (hitem : ts.get? name = some item) : (read item).isSome = true := by
  rw [field, Option.some.inj hsame, hitem] at h
  exact Option.isSome_of_eq_some h

/-- The preferences of a table with these fields. -/
def preferencesOf (base : ExportPreferences) (es : Entries) : Option ExportPreferences := do
  return {
    sourcePath := ← field asText es "source_path" base.sourcePath
    outputDir := ← field asText es "output_dir" base.outputDir
    documentName := ← field asText es "document_name" base.documentName
    schemaVersion := ← field asText es "schema_version" base.schemaVersion
    embedTimestamp := ← field asBool es "embed_timestamp" base.embedTimestamp
    generateReadme := ← field asBool es "generate_readme" base.generateReadme }

/-- The logging of a table with these fields. -/
def loggingOf (base : LogPreferences) (es : Entries) : Option LogPreferences := do
  return {
    structured := ← field asBool es "use_structured_logging" base.structured
    minimum := ← field asLevel es "min_log_level" base.minimum
    showsFile := ← field asBool es "include_file_context" base.showsFile }

theorem layer_eq_bind (base : Settings) (document : Entries) :
    layer base document = (entriesOf document .export).bind fun es =>
      (preferencesOf base.preferences es).bind fun p =>
        (entriesOf document .logging).bind fun es =>
          (loggingOf base.logging es).bind fun l => some ⟨p, l⟩ := by
  have hexport : field (preferences base.preferences) document "export" base.preferences =
      (entriesOf document .export).bind (preferencesOf base.preferences) := by
    unfold field entriesOf SettingsTable.key
    cases document.get? "export" <;> rfl
  have hlogging : field (logging base.logging) document "logging" base.logging =
      (entriesOf document .logging).bind (loggingOf base.logging) := by
    unfold field entriesOf SettingsTable.key
    cases document.get? "logging" <;> rfl
  rw [layer, hexport, hlogging]
  simp only [bind, pure, Option.bind_assoc]

variable {document : Entries}

theorem field_eq_given (h : WellTyped document) {f : Setting} {es : Entries}
    (hes : entriesOf document f.table = some es) (base : Settings) :
    field f.readItem es f.key (f.get base) = some ((given document f).getD (f.get base)) := by
  rw [field_eq_some fun item hitem => h.fields f es item hes hitem, given, hes, Option.bind_some]

theorem preferencesOf_eq (h : WellTyped document) {es : Entries}
    (hes : entriesOf document .export = some es) (base : Settings) :
    preferencesOf base.preferences es = some ((given document).onto base).preferences := by
  have hsource : field asText es "source_path" base.preferences.sourcePath = some _ :=
    field_eq_given h (f := .sourcePath) hes base
  have hout : field asText es "output_dir" base.preferences.outputDir = some _ :=
    field_eq_given h (f := .outputDir) hes base
  have hname : field asText es "document_name" base.preferences.documentName = some _ :=
    field_eq_given h (f := .documentName) hes base
  have hversion : field asText es "schema_version" base.preferences.schemaVersion = some _ :=
    field_eq_given h (f := .schemaVersion) hes base
  have hstamp : field asBool es "embed_timestamp" base.preferences.embedTimestamp = some _ :=
    field_eq_given h (f := .embedTimestamp) hes base
  have hreadme : field asBool es "generate_readme" base.preferences.generateReadme = some _ :=
    field_eq_given h (f := .generateReadme) hes base
  rw [preferencesOf, hsource, hout, hname, hversion, hstamp, hreadme]
  rfl

theorem loggingOf_eq (h : WellTyped document) {es : Entries}
    (hes : entriesOf document .logging = some es) (base : Settings) :
    loggingOf base.logging es = some ((given document).onto base).logging := by
  have hstructured : field asBool es "use_structured_logging" base.logging.structured = some _ :=
    field_eq_given h (f := .structured) hes base
  have hminimum : field asLevel es "min_log_level" base.logging.minimum = some _ :=
    field_eq_given h (f := .minimum) hes base
  have hfile : field asBool es "include_file_context" base.logging.showsFile = some _ :=
    field_eq_given h (f := .showsFile) hes base
  rw [loggingOf, hstructured, hminimum, hfile]
  rfl

/-- **A well-typed document is a layer on top of other settings.** -/
theorem layer_eq_some (h : WellTyped document) (base : Settings) :
    layer base document = some ((given document).onto base) := by
  obtain ⟨es, hes⟩ := Option.isSome_iff_exists.1 (h.tables .export)
  obtain ⟨ls, hls⟩ := Option.isSome_iff_exists.1 (h.tables .logging)
  rw [layer_eq_bind, hes, hls, Option.bind_some, preferencesOf_eq h hes, Option.bind_some,
    Option.bind_some, loggingOf_eq h hls]
  rfl

theorem wellTyped_of_layer {base s : Settings} (h : layer base document = some s) :
    WellTyped document := by
  rw [layer_eq_bind] at h
  obtain ⟨es, hes, h⟩ := Option.bind_eq_some_iff.1 h
  obtain ⟨p, hp, h⟩ := Option.bind_eq_some_iff.1 h
  obtain ⟨ls, hls, h⟩ := Option.bind_eq_some_iff.1 h
  obtain ⟨l, hl, -⟩ := Option.bind_eq_some_iff.1 h
  simp only [preferencesOf, bind, pure, Option.bind_eq_some_iff] at hp
  simp only [loggingOf, bind, pure, Option.bind_eq_some_iff] at hl
  obtain ⟨_, hsource, _, hout, _, hname, _, hversion, _, hstamp, _, hreadme, -⟩ := hp
  obtain ⟨_, hstructured, _, hminimum, _, hfile, -⟩ := hl
  refine ⟨fun t => ?_, fun f ts item hts hitem => ?_⟩
  · cases t with
    | «export» => rw [hes]; rfl
    | logging => rw [hls]; rfl
  · cases f with
    | sourcePath => exact isSome_of_field hsource (hes.symm.trans hts) hitem
    | outputDir => exact isSome_of_field hout (hes.symm.trans hts) hitem
    | documentName => exact isSome_of_field hname (hes.symm.trans hts) hitem
    | schemaVersion => exact isSome_of_field hversion (hes.symm.trans hts) hitem
    | embedTimestamp => exact isSome_of_field hstamp (hes.symm.trans hts) hitem
    | generateReadme => exact isSome_of_field hreadme (hes.symm.trans hts) hitem
    | structured => exact isSome_of_field hstructured (hls.symm.trans hts) hitem
    | minimum => exact isSome_of_field hminimum (hls.symm.trans hts) hitem
    | showsFile => exact isSome_of_field hfile (hls.symm.trans hts) hitem

theorem layer_eq_none (h : ¬ WellTyped document) (base : Settings) : layer base document = none :=
  Option.eq_none_iff_forall_ne_some.2 fun _ hs => h (wellTyped_of_layer hs)

/-- What a file says; a command without one has no such layer. -/
def given? (file : Option Entries) : SettingsLayer :=
  (file.map given).getD .none

end ConfigFile

/-! ## Resolving -/

namespace CommandLine

/-- The document that a command finds, if its arguments name a file. -/
inductive Finds {σ : Type} (host : Host (StateM σ)) (s : σ) (a : Arguments) :
    Option Entries → Prop where
  | nothing (h : a.config = none) : Finds host s a none
  | document {path text : String} {s' : σ} {document : Entries} (hpath : a.config = some path)
    (hread : host.readText path s = (.ok text, s')) (hdocument : read text = some document) :
    Finds host s a (some document)

variable (a : Arguments) (env : Environment) (file : Option Entries)

/-- The settings of a command without its flags. -/
def unflagged : Settings := ((ConfigFile.given? file).above env.given).settings

/-- The settings of a command: a flag if there is one, else the value of the file, else that of the
environment, else the default. -/
def layered : Settings := (a.given.above ((ConfigFile.given? file).above env.given)).settings

variable {a file}

theorem unflagged_none : unflagged env none = env.settings := by
  rw [Environment.settings_eq]
  rfl

theorem layer_unflagged : a.layer (unflagged env file) = layered a env file := by
  rw [a.layer_eq, unflagged, SettingsLayer.onto_settings, layered]

theorem layer_eq_unflagged {document : Entries} (h : ConfigFile.WellTyped document) :
    ConfigFile.layer env.settings document = some (unflagged env (some document)) := by
  rw [ConfigFile.layer_eq_some h, env.settings_eq, SettingsLayer.onto_settings]
  rfl

theorem read_eq_ok_iff {path text : String} {document : Entries}
    (hdocument : read text = some document) (u : Settings) :
    ConfigFile.read env path text = .ok u ↔ u = unflagged env (some document) ∧
      ConfigFile.WellTyped document ∧
        (unflagged env (some document)).preferences.fault? = none := by
  rw [ConfigFile.read, hdocument, Option.bind_some]
  by_cases htyped : ConfigFile.WellTyped document
  · rw [layer_eq_unflagged env htyped]
    cases hfault : (unflagged env (some document)).preferences.fault? with
    | none => simp [hfault, htyped, eq_comm]
    | some e => simp [hfault]
  · rw [ConfigFile.layer_eq_none htyped]
    simp [htyped]

theorem baseSettings_eq_ok_iff {σ : Type} {host : Host (StateM σ)} {s : σ} (h : Finds host s a file)
    (u : Settings) : ((baseSettings host env a).run s).1 = .ok u ↔ u = unflagged env file ∧
      ∀ document ∈ file, ConfigFile.WellTyped document ∧
        (unflagged env file).preferences.fault? = none := by
  cases h with
  | nothing hconfig =>
    have hbase : ((baseSettings host env a).run s).1 = .ok env.settings := by
      rw [baseSettings, hconfig]
      rfl
    rw [hbase, unflagged_none, Except.ok.injEq, eq_comm]
    simp
  | document hconfig hread hdocument =>
    rename_i path text s' document
    have hbase : ((baseSettings host env a).run s).1 = ConfigFile.read env path text := by
      rw [baseSettings, hconfig]
      simp only [ConfigFile.load, StateT.run, bind, StateT.bind, hread]
      rfl
    rw [hbase, read_eq_ok_iff env hdocument]
    simp

theorem resolve_eq_ok_iff (base : Except ConfigError Settings) (r : Settings) :
    a.resolve base = .ok r ↔
      ∃ u, base = .ok u ∧ r = a.layer u ∧ (a.layer u).preferences.fault? = none := by
  cases base with
  | error e => simp [Arguments.resolve]
  | ok u =>
    cases hfault : (a.layer u).preferences.fault? with
    | none => simp [Arguments.resolve, hfault, eq_comm]
    | some e => simp [Arguments.resolve, hfault]

/-- What is wrong with a file without the flags is wrong with all flags. -/
theorem resolve_of_fault {σ : Type} {host : Host (StateM σ)} {s : σ} {document : Entries}
    (h : Finds host s a (some document)) (htyped : ConfigFile.WellTyped document) {e : ConfigError}
    (hfault : (unflagged env (some document)).preferences.fault? = some e) :
    a.resolve ((baseSettings host env a).run s).1 = .error e := by
  cases h with
  | document hconfig hread hdocument =>
    rename_i path text s'
    have hbase : ((baseSettings host env a).run s).1 = .error e := by
      rw [baseSettings, hconfig]
      simp only [ConfigFile.load, StateT.run, bind, StateT.bind, hread, ConfigFile.read, hdocument,
        Option.bind_some, layer_eq_unflagged env htyped, hfault]
      rfl
    rw [hbase]
    rfl

/-- **The settings of a command are its layers.** They are refused if and only if there is something
against them, or against what the file says without the flags. What the file or the environment says
about a field that a flag sets does not count. -/
theorem resolve_layers {σ : Type} {host : Host (StateM σ)} {s : σ} (h : Finds host s a file) :
    (∀ r, a.resolve ((baseSettings host env a).run s).1 = .ok r ↔
      r = layered a env file ∧ (layered a env file).preferences.fault? = none ∧
        ∀ document ∈ file, ConfigFile.WellTyped document ∧
          (unflagged env file).preferences.fault? = none) ∧
      ∀ (env' : Environment) (file' : Option Entries),
        (ConfigFile.given? file').without a.given = (ConfigFile.given? file).without a.given →
        env'.given.without a.given = env.given.without a.given →
          layered a env' file' = layered a env file := by
  refine ⟨fun r => ?_, fun env' file' hfile henv => ?_⟩
  · rw [resolve_eq_ok_iff]
    simp only [baseSettings_eq_ok_iff env h]
    constructor
    · rintro ⟨u, ⟨rfl, hdocument⟩, rfl, hfault⟩
      rw [layer_unflagged] at hfault ⊢
      exact ⟨rfl, hfault, hdocument⟩
    · rintro ⟨rfl, hfault, hdocument⟩
      rw [← layer_unflagged] at hfault ⊢
      exact ⟨_, ⟨rfl, hdocument⟩, rfl, hfault⟩
  · rw [layered, layered, ← SettingsLayer.above_without, SettingsLayer.without_above, hfile, henv,
      ← SettingsLayer.without_above, SettingsLayer.above_without]

/-- A host with one configuration file. -/
def fileHost (text : String) : Host (StateM Unit) where
  examine _ := pure .absent
  readText _ := pure (.ok text)
  makeDirectories _ := pure (.ok ())
  writeText _ _ := pure (.ok ())
  now := pure ⟨0, 0⟩
  clock := pure 0

/-- The arguments `--config c.toml --name Acme`. -/
def namedArguments : Arguments :=
  { Arguments.none with config := some "c.toml", name := some "Acme" }

theorem finds_fileHost {text : String} {document : Entries} (h : read text = some document) :
    Finds (fileHost text) () namedArguments (some document) :=
  .document rfl rfl h

/-- A file with a name and a directory. -/
def otherText : String := "[export]\ndocument_name = \"Other\"\noutput_dir = \"build\"\n"

def otherDocument : Entries := (read otherText).get (by decide +kernel)

theorem read_otherText : read otherText = some otherDocument := (Option.some_get _).symm

/-- An environment with a directory and a version. -/
def sampleEnvironment : Environment :=
  .ofList [("TOKENS_OUTPUT_DIR", "out"), ("TOKENS_SCHEMA_VERSION", "2.0")]

theorem wellTyped_of_isSome {document : Entries} {base : Settings}
    (h : (ConfigFile.layer base document).isSome = true) : ConfigFile.WellTyped document := by
  obtain ⟨s, hs⟩ := Option.isSome_iff_exists.1 h
  exact ConfigFile.wellTyped_of_layer hs

theorem resolve_layers_named :
    Finds (fileHost otherText) () namedArguments (some otherDocument) ∧
      namedArguments.resolve
          ((baseSettings (fileHost otherText) sampleEnvironment namedArguments).run ()).1 =
        .ok ⟨⟨"lib/shared/design/tokens/design_tokens.dart", "build", "Acme", "2.0", false, true⟩,
          ⟨false, .warning, true⟩⟩ := by
  have hfinds := finds_fileHost read_otherText
  refine ⟨hfinds, ((resolve_layers sampleEnvironment hfinds).1 _).2 ⟨?_, ?_, ?_⟩⟩
  · decide +kernel
  · decide +kernel
  · intro document hdocument
    cases Option.mem_some_iff.1 hdocument
    have hlayer : (ConfigFile.layer sampleEnvironment.settings otherDocument).isSome = true := by
      decide +kernel
    exact ⟨wellTyped_of_isSome hlayer, by decide +kernel⟩

/-- A file whose name is blank. -/
def blankText : String := "[export]\ndocument_name = \"  \"\n"

def blankDocument : Entries := (read blankText).get (by decide +kernel)

/-- A blank name is refused in a file even if there is a flag for the name. -/
theorem resolve_blank_name :
    Finds (fileHost blankText) () namedArguments (some blankDocument) ∧
      ConfigFile.WellTyped blankDocument ∧
      (layered namedArguments (.ofList []) (some blankDocument)).preferences.fault? = none ∧
      namedArguments.resolve
          ((baseSettings (fileHost blankText) (.ofList []) namedArguments).run ()).1 =
        .error (.invalidValue "document_name" "name is blank") := by
  have hlayer :
      (ConfigFile.layer (Environment.ofList []).settings blankDocument).isSome = true := by
    decide +kernel
  have hfinds : Finds (fileHost blankText) () namedArguments (some blankDocument) :=
    finds_fileHost (Option.some_get _).symm
  have htyped := wellTyped_of_isSome hlayer
  exact ⟨hfinds, htyped, by decide +kernel,
    resolve_of_fault (.ofList []) hfinds htyped (by decide +kernel)⟩

end CommandLine

end DesignTokens
