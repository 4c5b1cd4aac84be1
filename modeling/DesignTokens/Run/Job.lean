import DesignTokens.Document.Registry
import DesignTokens.Extract.Build
import DesignTokens.Extract.Scan
import DesignTokens.Settings.Preferences

/-!
# Export jobs

A job has the preferences, the rules and the adapters of a run. Rendering shows what documents a
source gives, without touching any file.
-/

namespace DesignTokens

/-- What a run works with. -/
structure ExportJob where
  preferences : ExportPreferences
  library : Library
  registry : Registry
  /-- An instant that takes the place of the current one. -/
  fixedTime : Option Instant

/-- What a source declares: what the rules found, and what that does to the model. -/
structure Extraction (P : Type := Pattern) where
  scan : Scan P
  build : Build

/-- Applies the rules of a library to a source. -/
def Library.extract {P : Type} [Matcher P] (lib : Library P) (source : String) : Extraction P :=
  let scan := lib.scan source
  ⟨scan, Build.ofHits scan.hits⟩

/-- What there is to say about an extraction. -/
def Extraction.notices {P : Type} (x : Extraction P) : List Notice :=
  x.scan.notices ++ x.build.notices

/-- An adapter that gave no document. -/
structure AdapterFailure where
  adapter : String
  error : ExportError
deriving DecidableEq, Repr

/-- What a source gives without any file being touched. -/
structure Rendering where
  model : TokenModel
  warnings : List BuildWarning
  metrics : ScanMetrics
  /-- The documents in the order of their adapters; a model without tokens has none. -/
  documents : List Document
  failures : List AdapterFailure

namespace ExportJob

/-- A job with the standard rules. -/
def withRegistry (p : ExportPreferences) (r : Registry) : ExportJob :=
  ⟨p, .standard, r, none⟩

/-- A job with the standard rules and the standard adapters. -/
def standard (p : ExportPreferences) : ExportJob :=
  .withRegistry p (.standard p.generateReadme)

/-- What there is to say once a job is set up. -/
def notices (job : ExportJob) : List Notice :=
  job.registry.notices
    ++ [job.library.notice,
      .debug "Pipeline configured"
        [("rules", toString job.library.rules.length),
         ("adapters", toString job.registry.adapters.length),
         ("output_dir", job.preferences.outputDir)]]

/-- The stamp of documents that are made now. -/
def stamp (job : ExportJob) (now : Instant) : Option Instant :=
  if job.preferences.embedTimestamp then some (job.fixedTime.getD now) else none

/-- What all documents of the job share. -/
def context (job : ExportJob) (now : Instant) : DocumentContext where
  documentName := job.preferences.documentName
  schemaVersion := job.preferences.schemaVersion
  generatedAt := job.stamp now
  source := job.preferences.sourcePath
  manifest := job.registry.manifest

/-- The documents of a source. -/
def render (job : ExportJob) (source : String) (now : Instant) : Rendering :=
  let x := job.library.extract source
  let model := x.build.model
  let results :=
    if model.isEmpty then []
    else job.registry.adapters.map fun a => (a.id, a.produce model (job.context now))
  { model
    warnings := x.build.warnings
    metrics := x.scan.metrics
    documents := results.filterMap fun (_, r) => r.toOption
    failures := results.filterMap fun (id, r) => match r with
      | .ok _ => none
      | .error e => some ⟨id, e⟩ }

end ExportJob

end DesignTokens
