import DesignTokens.Run.Outcome
import DesignTokens.Storage.Path

/-!
# Runs

A run reads the source, extracts the model, and asks every adapter once, in the order of their
registration. One adapter that fails does not keep the others from their documents. If the source
declares no tokens, no directory and no file is made.
-/

namespace DesignTokens

variable {m : Type → Type} [Monad m]

/-! ## One adapter -/

/-- What came of asking an adapter. -/
structure Attempt where
  adapter : String
  result : Except ExportError WrittenDocument

namespace Attempt

def written? (a : Attempt) : Option WrittenDocument :=
  a.result.toOption

def failure? (a : Attempt) : Option AdapterFailure :=
  match a.result with
  | .ok _ => none
  | .error e => some ⟨a.adapter, e⟩

/-- What there is to say about a change of state. -/
def transition (s : RunState) : Notice :=
  .debug "Pipeline state transition" [("state", s.text)]

/-- What there is to say about an attempt. -/
def notices (a : Attempt) : List Notice :=
  [transition (.exporting a.adapter),
   match a.result with
    | .ok d => .success .documentWritten "Document written"
        [("adapter", d.adapter), ("file", d.path), ("bytes", toString d.bytes)]
    | .error e => .error e.code e.message [("adapter", a.adapter)]]

end Attempt

namespace ExportJob

/-- Writes a document into a directory. -/
def writeDocument (host : Host m) (dir : String) (d : Document) :
    m (Except ExportError WrittenDocument) := do
  let path := Path.join dir d.fileName
  match ← host.writeText path d.contents with
  | .ok () => return .ok ⟨d.adapter, path, d.contents.utf8ByteSize⟩
  | .error e => return .error (.write d.adapter path e.message)

/-- Asks one adapter for its document and writes it. -/
def attempt (host : Host m) (dir : String) (model : TokenModel) (ctx : DocumentContext)
    (a : Adapter) : m Attempt := do
  match a.produce model ctx with
  | .error e => return ⟨a.id, .error e⟩
  | .ok d => return ⟨a.id, ← writeDocument host dir d⟩

/-- Asks adapters one after the other. -/
def attemptAll (host : Host m) (dir : String) (model : TokenModel) (ctx : DocumentContext) :
    List Adapter → m (List Attempt)
  | [] => return []
  | a :: rest => do
    let first ← attempt host dir model ctx a
    return first :: (← attemptAll host dir model ctx rest)

/-! ## The whole run -/

/-- What comes of a run, and what there is to say about it. -/
structure Result where
  result : Except RunError RunOutcome
  notices : List Notice

/-- Makes the output directory. -/
def openOutput (host : Host m) (dir : String) : m (Except ExportError Unit) := do
  match ← host.makeDirectories dir with
  | .ok () => return .ok ()
  | .error e => return .error (.outputDirectory dir e.message)

/-- What a run with tokens reports. -/
def report (job : ExportJob) (x : Extraction) (model : TokenModel) (attempts : List Attempt)
    (nanos : Nat) : RunReport where
  outputDir := job.preferences.outputDir
  written := attempts.filterMap Attempt.written?
  failed := attempts.filterMap Attempt.failure?
  warnings := x.build.warnings
  counts := model.counts
  metrics := x.scan.metrics
  history := [.idle, .scanning] ++ attempts.map (fun a => .exporting a.adapter) ++ [.done]
  nanos := nanos

/-- What there is to say at the end of a run with tokens. -/
def completion (r : RunReport) : List Notice :=
  [Attempt.transition .done,
   .success .exportComplete "Token export complete"
    [("tokens", toString r.total), ("written", toString r.written.length),
     ("failed", toString r.failed.length), ("warnings", toString r.warnings.length),
     ("duration_ms", millisecondsText r.nanos)]]

/-- Runs a job on a host. -/
def run (job : ExportJob) (host : Host m) : m Result := do
  let p := job.preferences
  let start ← host.clock
  let first := [.info "Starting token export" [("source", p.sourcePath), ("output_dir", p.outputDir)],
    Attempt.transition .scanning]
  let reading ← host.readSource p.sourcePath
  let before := first ++ reading.notices
  match reading.result with
  | .error e => return ⟨.error (.sourceUnavailable e), before⟩
  | .ok file =>
    let x := job.library.extract file.text
    let model := x.build.model
    let before := before ++ x.notices
    if model.isEmpty then
      return ⟨.ok (.nothingToExport x.build.warnings [.idle, .scanning, .done]), before
        ++ [.success .nothingToExport "No tokens found, nothing to export"
            [("source", p.sourcePath), ("hits", toString x.scan.metrics.total)],
          Attempt.transition .done]⟩
    match ← openOutput host p.outputDir with
    | .error e =>
      return ⟨.error (.outputUnavailable e),
        before ++ [.error e.code e.message [("path", p.outputDir)]]⟩
    | .ok () =>
      let ctx := job.context (← host.now)
      let attempts ← attemptAll host p.outputDir model ctx job.registry.adapters
      let stop ← host.clock
      let r := job.report x model attempts (stop - start)
      return ⟨.ok (.completed r), before ++ attempts.flatMap Attempt.notices ++ completion r⟩

end ExportJob

end DesignTokens
