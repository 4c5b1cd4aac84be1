import DesignTokens.Proofs.Run.Agreement
import DesignTokens.Proofs.Storage.View
import Mathlib.Data.List.Pairwise

/-!
# What runs leave behind

A run that cannot read its source, or finds no tokens in it, leaves all files as they are. One that
cannot make its output directory leaves new directories at most. One that completes replaces files
of its adapters, each by a whole document, and an adapter without a document keeps its old file.
-/

namespace DesignTokens

variable {σ : Type} {v : FileView σ} {host : Host (StateM σ)}

/-! ## Writes -/

namespace FileView

/-- What the file at a place holds, if there is one. -/
def contents (v : FileView σ) (s : σ) (place : v.Place) : Option FileContents :=
  match v.look s place with
  | some (.file c) => some c
  | _ => none

/-- What writes leave behind: a place that some of them led to holds the whole text of one of them,
and any other place is as it was. -/
structure Lands (v : FileView σ) (s : σ) (ws : List WriteRecord) (s' : σ) : Prop where
  leadsTo : v.leadsTo s' = v.leadsTo s
  look : ∀ place,
    (v.look s' place = v.look s place ∧
      ∀ w ∈ ws, w.answer = .ok () → v.leadsTo s w.path ≠ some place) ∨
    ∃ w ∈ ws, w.answer = .ok () ∧ v.leadsTo s w.path = some place ∧
      v.look s' place = some (.file (.text w.text))

namespace Lands

theorem nil (s : σ) : v.Lands s [] s :=
  ⟨rfl, fun _ => .inl ⟨rfl, fun _ hw => nomatch hw⟩⟩

theorem append {s₁ s₂ s₃ : σ} {ws vs : List WriteRecord} (h : v.Lands s₁ ws s₂)
    (h' : v.Lands s₂ vs s₃) : v.Lands s₁ (ws ++ vs) s₃ where
  leadsTo := h'.leadsTo.trans h.leadsTo
  look place := by
    rcases h'.look place with ⟨hkept, hnone⟩ | ⟨w, hw, hok, hplace, hlook⟩
    · rcases h.look place with ⟨hkept', hnone'⟩ | ⟨w, hw, hok, hplace, hlook⟩
      · refine .inl ⟨hkept.trans hkept', fun w hw => ?_⟩
        rcases List.mem_append.1 hw with hw | hw
        · exact hnone' w hw
        · rw [← h.leadsTo]
          exact hnone w hw
      · exact .inr ⟨w, List.mem_append_left _ hw, hok, hplace, hkept.trans hlook⟩
    · rw [h.leadsTo] at hplace
      exact .inr ⟨w, List.mem_append_right _ hw, hok, hplace, hlook⟩

theorem write (hobeys : host.Obeys v) (path text : String) (s : σ) :
    v.Lands s [⟨path, text, (host.writeText path text s).1⟩] (host.writeText path text s).2 where
  leadsTo := hobeys.ways path text s
  look place := by
    simp only [List.mem_singleton, forall_eq, exists_eq_left]
    cases hanswer : (host.writeText path text s).1 with
    | error e => exact .inl ⟨congrFun (hobeys.refused path text s e hanswer) place, nofun⟩
    | ok _ =>
      obtain ⟨hsome, hother⟩ := hobeys.written path text s hanswer place
      by_cases hplace : v.leadsTo s path = some place
      · exact .inr ⟨rfl, hplace, hsome hplace⟩
      · exact .inl ⟨hother hplace, fun _ => hplace⟩

end Lands

end FileView

theorem Host.Writes.lands {s s' : σ} {ws : List WriteRecord} (h : host.Writes s ws s')
    (hobeys : host.Obeys v) : v.Lands s ws s' := by
  induction h with
  | nil s => exact .nil s
  | cons _ ih => exact (FileView.Lands.write hobeys _ _ _).append ih

/-! ## Reading the source -/

namespace FileView

/-- A step that leaves all files as they are. -/
def Quiet (v : FileView σ) {α : Type} (x : StateM σ α) : Prop := ∀ s, v.Same s (x s).2

variable {α β : Type}

theorem Quiet.pure (a : α) : v.Quiet (pure a : StateM σ α) := fun _ => .refl _

theorem Quiet.bind {x : StateM σ α} {f : α → StateM σ β} (hx : v.Quiet x)
    (hf : ∀ a, v.Quiet (f a)) : v.Quiet (x >>= f) :=
  fun s => (hx s).trans (hf _ _)

end FileView

theorem Host.quiet_readSource (hobeys : host.Obeys v) (path : String) :
    v.Quiet (host.readSource path) := by
  unfold readSource
  refine .bind hobeys.clock fun start => ?_
  simp only
  split
  · exact .pure _
  · refine .bind (hobeys.examine path) fun examined => ?_
    cases examined with
    | absent | noFile => exact .pure _
    | file canonical size =>
      simp only
      split
      · exact .pure _
      · refine .bind (hobeys.readText canonical) fun text => ?_
        cases text with
        | error fault => exact .pure _
        | ok text => exact .bind hobeys.clock fun stop => .pure _

/-! ## Asking adapters -/

theorem Adapter.render_of_produce {a : Adapter} {m : TokenModel} {ctx : DocumentContext}
    {d : Document} (h : a.produce m ctx = .ok d) :
    a.render m ctx = .ok d.contents ∧ d.fileName = a.fileName := by
  unfold produce at h
  split at h
  · rename_i hrender
    cases h
    exact ⟨hrender, rfl⟩
  · cases h

namespace ExportJob

variable {dir : String} {m : TokenModel} {ctx : DocumentContext}

namespace AttemptedAll

variable {as : List Adapter} {xs : List Attempt} {ws : List WriteRecord}

/-- What is written is the document of an adapter. -/
theorem exists_adapter (h : AttemptedAll dir m ctx as xs ws) {w : WriteRecord} (hw : w ∈ ws) :
    ∃ a ∈ as, a.render m ctx = .ok w.text ∧ w.path = Path.join dir a.fileName := by
  induction h with
  | nil => cases hw
  | @cons a x ws as xs vs first rest ih =>
    rcases List.mem_append.1 hw with hw | hw
    · cases first with
      | failed => cases hw
      | written hd | refused hd =>
        obtain ⟨hrender, hname⟩ := Adapter.render_of_produce hd
        rw [List.mem_singleton.1 hw]
        exact ⟨a, List.mem_cons_self, hrender, by rw [hname]⟩
    · obtain ⟨b, hb, hwrite⟩ := ih hw
      exact ⟨b, List.mem_cons_of_mem _ hb, hwrite⟩

theorem exists_write (h : AttemptedAll dir m ctx as xs ws) {d : WrittenDocument}
    (hd : d ∈ xs.filterMap Attempt.written?) : ∃ w ∈ ws, w.answer = .ok () ∧ w.path = d.path := by
  induction h with
  | nil => cases hd
  | cons first rest ih =>
    cases first with
    | failed h =>
      rw [List.filterMap_cons_none rfl] at hd
      exact ih hd
    | refused h =>
      rw [List.filterMap_cons_none rfl] at hd
      obtain ⟨w, hw, hwrite⟩ := ih hd
      exact ⟨w, List.mem_append_right _ hw, hwrite⟩
    | written h =>
      rw [List.filterMap_cons_some (Attempt.written?_ok _ _)] at hd
      rcases List.mem_cons.1 hd with rfl | hd
      · exact ⟨_, List.mem_append_left _ (List.mem_singleton_self _), rfl, rfl⟩
      · obtain ⟨w, hw, hwrite⟩ := ih hd
        exact ⟨w, List.mem_append_right _ hw, hwrite⟩

end AttemptedAll

/-! ## Whole runs -/

/-- The path that the document of an adapter is written to. -/
def pathOf (job : ExportJob) (a : Adapter) : String :=
  Path.join job.preferences.outputDir a.fileName

/-- A place is the file of an adapter, and holds the whole document that this has for the tokens of
a text. -/
def HoldsDocument (job : ExportJob) (text : String) (t : Instant) (v : FileView σ) (s : σ)
    (place : v.Place) : Prop :=
  ∃ a ∈ job.registry.adapters, v.leadsTo s (job.pathOf a) = some place ∧ ∃ contents,
    a.render (job.library.extract text).build.model (job.context t) = .ok contents ∧
      v.look s place = some (.file (.text contents))

/-- What a run with a report leaves behind. -/
structure Traces (job : ExportJob) (text : String) (t : Instant) (v : FileView σ) (s s' : σ)
    (report : RunReport) : Prop where
  /-- Beside new directories, only the files of adapters can have changed. -/
  changed : ∀ place, v.look s' place = v.look s place ∨
    (v.look s place = none ∧ v.look s' place = some .directory) ∨
      job.HoldsDocument text t v s' place
  /-- Behind the path of a document that the report lists there is a whole document. -/
  written : ∀ w ∈ report.written, ∀ place, v.leadsTo s' w.path = some place →
    job.HoldsDocument text t v s' place
  /-- If no two adapters have one file, that of an adapter without a document is as it was. -/
  failed : (job.registry.adapters.Pairwise fun a b => ∀ place,
      v.leadsTo s' (job.pathOf a) = some place → v.leadsTo s' (job.pathOf b) ≠ some place) →
    ∀ a ∈ job.registry.adapters, ∀ e,
      a.render (job.library.extract text).build.model (job.context t) = .error e →
        ∀ place, v.leadsTo s' (job.pathOf a) = some place → v.contents s' place = v.contents s place

section

variable {job : ExportJob} {text : String} {t : Instant} {s s₃ s₄ s' : σ} {xs : List Attempt}
  {ws : List WriteRecord}
  (hxs : AttemptedAll job.preferences.outputDir (job.library.extract text).build.model
    (job.context t) job.registry.adapters xs ws)
  (hlands : v.Lands s₃ ws s₄) (hend : v.Same s₄ s')
include hxs hlands hend

/-- A write that is still there is the document of an adapter. -/
theorem holdsDocument_of_mem {w : WriteRecord} {place : v.Place} (hw : w ∈ ws)
    (hplace : v.leadsTo s₃ w.path = some place)
    (hlook : v.look s₄ place = some (.file (.text w.text))) :
    job.HoldsDocument text t v s' place := by
  obtain ⟨a, ha, hrender, hpath⟩ := hxs.exists_adapter hw
  refine ⟨a, ha, ?_, w.text, hrender, ?_⟩
  · rw [hend.leadsTo, hlands.leadsTo, pathOf, ← hpath, hplace]
  · rw [hend.look, hlook]

theorem same_or_holdsDocument (hmade : v.OnlyDirectories s s₃) (place : v.Place) :
    v.look s' place = v.look s place ∨
      (v.look s place = none ∧ v.look s' place = some .directory) ∨
        job.HoldsDocument text t v s' place := by
  rcases hlands.look place with ⟨hkept, -⟩ | ⟨w, hw, -, hplace, hlook⟩
  · rw [← hend.look] at hkept
    rw [hkept]
    rcases hmade place with hsame | hnew
    · exact .inl hsame
    · exact .inr (.inl hnew)
  · exact .inr (.inr (holdsDocument_of_mem hxs hlands hend hw hplace hlook))

theorem holdsDocument_of_written {d : WrittenDocument} (hd : d ∈ xs.filterMap Attempt.written?)
    {place : v.Place} (hplace : v.leadsTo s' d.path = some place) :
    job.HoldsDocument text t v s' place := by
  obtain ⟨w, hw, hok, hpath⟩ := hxs.exists_write hd
  rw [hend.leadsTo, hlands.leadsTo, ← hpath] at hplace
  -- a later write may have replaced this one, but by a whole document again
  rcases hlands.look place with ⟨-, hnone⟩ | ⟨w', hw', -, hplace', hlook⟩
  · exact absurd hplace (hnone w hw hok)
  · exact holdsDocument_of_mem hxs hlands hend hw' hplace' hlook

theorem contents_of_failed (hmade : v.OnlyDirectories s s₃)
    (hdistinct : job.registry.adapters.Pairwise fun a b => ∀ place,
      v.leadsTo s' (job.pathOf a) = some place → v.leadsTo s' (job.pathOf b) ≠ some place)
    {a : Adapter} (ha : a ∈ job.registry.adapters) {e : ExportError}
    (herror : a.render (job.library.extract text).build.model (job.context t) = .error e)
    {place : v.Place} (hplace : v.leadsTo s' (job.pathOf a) = some place) :
    v.contents s' place = v.contents s place := by
  rw [FileView.contents, FileView.contents]
  rcases same_or_holdsDocument hxs hlands hend hmade place with
    hsame | ⟨hnone, hdir⟩ | ⟨b, hb, hplace', contents, hrender, -⟩
  · rw [hsame]
  · rw [hnone, hdir]
  · have hne : a ≠ b := by
      rintro rfl
      rw [herror] at hrender
      cases hrender
    have : Std.Symm fun a b : Adapter => ∀ place,
        v.leadsTo s' (job.pathOf a) = some place → v.leadsTo s' (job.pathOf b) ≠ some place :=
      ⟨fun _ _ hab place hb ha => hab place ha hb⟩
    exact absurd hplace' (hdistinct.forall ha hb hne place hplace)

theorem traces (hmade : v.OnlyDirectories s s₃) {report : RunReport}
    (hreport : report.written = xs.filterMap Attempt.written?) :
    job.Traces text t v s s' report where
  changed := same_or_holdsDocument hxs hlands hend hmade
  written d hd place hplace := by
    rw [hreport] at hd
    exact holdsDocument_of_written hxs hlands hend hd hplace
  failed hdistinct _ ha _ herror _ hplace :=
    contents_of_failed hxs hlands hend hmade hdistinct ha herror hplace

end

/-! ## How runs go -/

/-- The course of a run from a state of the host: what it asks the host for, and how it ends. -/
inductive Course (job : ExportJob) (host : Host (StateM σ)) (s : σ) :
    Except RunError RunOutcome → σ → Prop where
  | unreadable {s₁ s₂ : σ} {start : Nat} {e : SourceError} {ns : List Notice}
    (hclock : host.clock s = (start, s₁))
    (hread : host.readSource job.preferences.sourcePath s₁ = (⟨.error e, ns⟩, s₂)) :
    Course job host s (.error (.sourceUnavailable e)) s₂
  | empty {s₁ s₂ : σ} {start : Nat} {file : SourceFile} {ns : List Notice}
    (hclock : host.clock s = (start, s₁))
    (hread : host.readSource job.preferences.sourcePath s₁ = (⟨.ok file, ns⟩, s₂))
    (hmodel : (job.library.extract file.text).build.model.isEmpty = true) :
    Course job host s (.ok (.nothingToExport (job.library.extract file.text).build.warnings
      [.idle, .scanning, .done])) s₂
  | refused {s₁ s₂ s₃ : σ} {start : Nat} {file : SourceFile} {ns : List Notice} {e : HostError}
    (hclock : host.clock s = (start, s₁))
    (hread : host.readSource job.preferences.sourcePath s₁ = (⟨.ok file, ns⟩, s₂))
    (hmodel : (job.library.extract file.text).build.model.isEmpty = false)
    (hdir : host.makeDirectories job.preferences.outputDir s₂ = (.error e, s₃)) :
    Course job host s
      (.error (.outputUnavailable (.outputDirectory job.preferences.outputDir e.message))) s₃
  | completed {s₁ s₂ s₃ s₄ s₅ s₆ : σ} {start stop : Nat} {file : SourceFile} {ns : List Notice}
    {t : Instant} {xs : List Attempt} (hclock : host.clock s = (start, s₁))
    (hread : host.readSource job.preferences.sourcePath s₁ = (⟨.ok file, ns⟩, s₂))
    (hmodel : (job.library.extract file.text).build.model.isEmpty = false)
    (hdir : host.makeDirectories job.preferences.outputDir s₂ = (.ok (), s₃))
    (hnow : host.now s₃ = (t, s₄))
    (hattempts : attemptAll host job.preferences.outputDir
      (job.library.extract file.text).build.model (job.context t) job.registry.adapters s₄
        = (xs, s₅))
    (hstop : host.clock s₅ = (stop, s₆)) :
    Course job host s (.ok (.completed (job.report (job.library.extract file.text)
      (job.library.extract file.text).build.model xs (stop - start)))) s₆

/-- Every run takes one of the courses. -/
theorem run_course (job : ExportJob) (host : Host (StateM σ)) (s : σ) :
    job.Course host s ((job.run host).run s).1.result ((job.run host).run s).2 := by
  obtain ⟨start, s₁, hclock⟩ : ∃ start s₁, host.clock s = (start, s₁) := ⟨_, _, rfl⟩
  obtain ⟨reading, s₂, hread⟩ :
      ∃ reading s₂, host.readSource job.preferences.sourcePath s₁ = (reading, s₂) := ⟨_, _, rfl⟩
  unfold run
  simp only [StateT.run, bind, StateT.bind, hclock, hread]
  rcases reading with ⟨e | file, ns⟩
  · exact .unreadable hclock hread
  by_cases hmodel : (job.library.extract file.text).build.model.isEmpty = true
  · simp only [hmodel, if_true]
    exact .empty hclock hread hmodel
  rw [Bool.not_eq_true] at hmodel
  simp only [hmodel, Bool.false_eq_true, if_false, bind, StateT.bind]
  cases hdir : host.makeDirectories job.preferences.outputDir s₂ with
  | mk answer s₃ =>
    cases answer with
    | error e =>
      have hopen : openOutput host job.preferences.outputDir s₂
          = (.error (.outputDirectory job.preferences.outputDir e.message), s₃) := by
        simp only [openOutput, bind, StateT.bind, hdir]
        rfl
      rw [hopen]
      exact .refused hclock hread hmodel hdir
    | ok _ =>
      have hopen : openOutput host job.preferences.outputDir s₂ = (.ok (), s₃) := by
        simp only [openOutput, bind, StateT.bind, hdir]
        rfl
      rw [hopen]
      exact .completed hclock hread hmodel hdir rfl rfl rfl

/-- A run comes to a state with a source that has tokens. -/
structure Reaches (job : ExportJob) (host : Host (StateM σ)) (s : σ) (file : SourceFile) (s' : σ) :
    Prop where
  read : ∃ ns, host.readSource job.preferences.sourcePath (host.clock s).2 = (⟨.ok file, ns⟩, s')
  tokens : (job.library.extract file.text).build.model.isEmpty = false

theorem Reaches.of_read {job : ExportJob} {host : Host (StateM σ)} {s s₁ s₂ : σ} {start : Nat}
    {file : SourceFile} {ns : List Notice} (hclock : host.clock s = (start, s₁))
    (hread : host.readSource job.preferences.sourcePath s₁ = (⟨.ok file, ns⟩, s₂))
    (hmodel : (job.library.extract file.text).build.model.isEmpty = false) :
    job.Reaches host s file s₂ :=
  ⟨⟨ns, by rw [hclock]; exact hread⟩, hmodel⟩

/-! ## What runs leave behind -/

/-- What a run leaves behind, by how it ends. -/
inductive Leaves (job : ExportJob) (host : Host (StateM σ)) (v : FileView σ) (s s' : σ) :
    Except RunError RunOutcome → Prop where
  | sourceUnavailable {e : SourceError} (h : v.look s' = v.look s) :
    Leaves job host v s s' (.error (.sourceUnavailable e))
  | nothingToExport {ws : List BuildWarning} {history : List RunState}
    (h : v.look s' = v.look s) : Leaves job host v s s' (.ok (.nothingToExport ws history))
  | outputUnavailable {e : ExportError} (h : v.OnlyDirectories s s') :
    Leaves job host v s s' (.error (.outputUnavailable e))
  | completed {report : RunReport} {file : SourceFile} {ns : List Notice} {s₂ s₃ : σ}
    (hread : host.readSource job.preferences.sourcePath (host.clock s).2 = (⟨.ok file, ns⟩, s₂))
    (hdir : host.makeDirectories job.preferences.outputDir s₂ = (.ok (), s₃))
    (h : job.Traces file.text (host.now s₃).1 v s s' report) :
    Leaves job host v s s' (.ok (.completed report))

/-- What a run leaves behind follows from its course. -/
theorem Course.leaves {job : ExportJob} {s s' : σ} {result : Except RunError RunOutcome}
    (h : job.Course host s result s') (hobeys : host.Obeys v) : job.Leaves host v s s' result := by
  -- nothing has happened when the source has been read
  have hquiet {s₁ s₂ : σ} {start : Nat} {reading : Reading} (hclock : host.clock s = (start, s₁))
      (hread : host.readSource job.preferences.sourcePath s₁ = (reading, s₂)) : v.Same s s₂ := by
    have hfirst := hobeys.clock s
    have hsource := Host.quiet_readSource hobeys job.preferences.sourcePath s₁
    rw [hclock] at hfirst
    rw [hread] at hsource
    exact hfirst.trans hsource
  have hmade {s₂ s₃ : σ} {answer : Except HostError Unit} (hsame : v.Same s s₂)
      (hdir : host.makeDirectories job.preferences.outputDir s₂ = (answer, s₃)) :
      v.OnlyDirectories s s₃ := by
    have hstep := hobeys.makeDirectories job.preferences.outputDir s₂
    rw [hdir] at hstep
    exact .trans (.of_look hsame.look) hstep
  cases h with
  | unreadable hclock hread => exact .sourceUnavailable (hquiet hclock hread).look
  | empty hclock hread hmodel => exact .nothingToExport (hquiet hclock hread).look
  | refused hclock hread hmodel hdir =>
    exact .outputUnavailable (hmade (hquiet hclock hread) hdir)
  | @completed s₁ s₂ s₃ s₄ s₅ _ _ _ file _ t xs hclock hread hmodel hdir hnow hattempts hstop =>
    obtain ⟨xs', s₅', ws, hattempts', hxs, hwrites⟩ := attemptAll_writes host
      job.preferences.outputDir (job.library.extract file.text).build.model (job.context t)
      job.registry.adapters s₄
    obtain ⟨rfl, rfl⟩ := Prod.mk.inj (hattempts.symm.trans hattempts')
    have hready : v.Same s₃ s₄ := by
      have hstep := hobeys.now s₃
      rwa [hnow] at hstep
    have hend : v.Same s₅ s' := by
      have hstep := hobeys.clock s₅
      rwa [hstop] at hstep
    refine .completed (by rw [hclock]; exact hread) hdir ?_
    rw [hnow]
    exact traces hxs (hwrites.lands hobeys) hend (.trans (hmade (hquiet hclock hread) hdir)
      (.of_look hready.look)) rfl

/-- **A run that fails or finds nothing leaves the files alone, and one that completes touches only
the files of its adapters.** -/
theorem run_leaves (job : ExportJob) (hobeys : host.Obeys v) (s : σ) :
    job.Leaves host v s ((job.run host).run s).2 ((job.run host).run s).1.result :=
  (job.run_course host s).leaves hobeys

/-- A working directory where `sampleJob` has left documents before. -/
def sampleFiles : FileSystem where
  base := "/app"
  top := [("tokens.dart", .file (.text "Color get ink => const Color(0xFF336699);")),
    ("out", .directory [("a.txt", .file (.text "old a")), ("b.txt", .file (.text "old b"))])]

theorem run_leaves_sampleFiles :
    (FileSystem.host ⟨0, 0⟩).Obeys FileSystem.view ∧
      sampleJob.Leaves (FileSystem.host ⟨0, 0⟩) FileSystem.view sampleFiles
        ((sampleJob.run (FileSystem.host ⟨0, 0⟩)).run sampleFiles).2
        ((sampleJob.run (FileSystem.host ⟨0, 0⟩)).run sampleFiles).1.result ∧
      ((sampleJob.run (FileSystem.host ⟨0, 0⟩)).run sampleFiles).2.places
        = [(["tokens.dart"], .file (.text "Color get ink => const Color(0xFF336699);")),
          (["out"], .directory), (["out", "a.txt"], .file (.text "1")),
          (["out", "b.txt"], .file (.text "old b")), (["out", "c.txt"], .file (.text "Tokens"))] :=
  have hobeys := FileSystem.obeys_host ⟨0, 0⟩
  ⟨hobeys, run_leaves sampleJob hobeys sampleFiles, by decide +kernel⟩

end ExportJob

end DesignTokens
