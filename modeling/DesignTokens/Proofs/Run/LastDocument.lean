import DesignTokens.Proofs.Run.Traces
import DesignTokens.Proofs.Storage.Reading

/-!
# Documents that are read back

A run writes its documents one after the other, each to the place that its path leads to. What is
read at a path afterwards is the last document of its place. A registry keeps file names distinct as
texts, but two texts can lead to one place, and then only the later document is there.
-/

namespace DesignTokens

variable {σ : Type} {v : FileView σ} {host : Host (StateM σ)}

/-! ## The last write to a place -/

/-- The host has done what it was asked for. -/
def WriteRecord.accepted (w : WriteRecord) : Bool := w.answer.isOk

/-- What stands at a place behind some writes is the text of the last one that led there. -/
theorem Host.Writes.look_of_last {s s' : σ} {ws : List WriteRecord} (h : host.Writes s ws s')
    (hobeys : host.Obeys v) {before after : List WriteRecord} {w : WriteRecord}
    (hws : ws.filter WriteRecord.accepted = before ++ w :: after) {place : v.Place}
    (hplace : v.leadsTo s w.path = some place)
    (hlast : ∀ u ∈ after, v.leadsTo s u.path ≠ some place) :
    v.look s' place = some (.file (.text w.text)) := by
  induction h generalizing before with
  | nil => exact absurd hws.symm (List.append_ne_nil_of_right_ne_nil _ (List.cons_ne_nil _ _))
  | @cons path text s s' ws rest ih =>
    have hways := hobeys.ways path text s
    rw [← hways] at hplace hlast
    cases hanswer : (host.writeText path text s).1 with
    | error e =>
      rw [List.filter_cons_of_neg (by rw [WriteRecord.accepted, hanswer]; exact nofun)] at hws
      exact ih hws hplace hlast
    | ok _ =>
      rw [List.filter_cons_of_pos (by rw [WriteRecord.accepted, hanswer]; rfl)] at hws
      cases before with
      | cons b before => exact ih (List.cons.inj hws).2 hplace hlast
      | nil =>
        -- nothing behind the write leads to its place, so the text stays
        obtain ⟨rfl, rfl⟩ := List.cons.inj hws
        rcases (rest.lands hobeys).look place with ⟨hkept, -⟩ | ⟨u, hu, hok, hother, -⟩
        · rw [hkept]
          rw [hways] at hplace
          exact (hobeys.written path text s hanswer place).1 hplace
        · have haccepted : u.accepted = true := by rw [WriteRecord.accepted, hok]; rfl
          exact absurd hother (hlast u (List.mem_filter.2 ⟨hu, haccepted⟩))

theorem exists_last {α : Type} {p : α → Prop} {l : List α} (h : ∃ x ∈ l, p x) :
    ∃ before x after, l = before ++ x :: after ∧ p x ∧ ∀ y ∈ after, ¬p y := by
  induction l with
  | nil =>
    obtain ⟨_, hx, _⟩ := h
    cases hx
  | cons a l ih =>
    by_cases hlater : ∃ x ∈ l, p x
    · obtain ⟨before, x, after, rfl, hx, hafter⟩ := ih hlater
      exact ⟨a :: before, x, after, rfl, hx, hafter⟩
    · obtain ⟨x, hx, hp⟩ := h
      rcases List.mem_cons.1 hx with rfl | hx
      · exact ⟨[], x, l, rfl, hp, fun y hy hpy => hlater ⟨y, hy, hpy⟩⟩
      · exact absurd ⟨x, hx, hp⟩ hlater

namespace ExportJob

/-! ## The documents that a host takes -/

/-- The write of a document that a host has taken. -/
def writeOf (dir : String) (d : Document) : WriteRecord :=
  ⟨(d.writtenTo dir).path, d.contents, .ok ()⟩

theorem AttemptedAll.exists_documents {dir : String} {m : TokenModel} {ctx : DocumentContext}
    {as : List Adapter} {xs : List Attempt} {ws : List WriteRecord}
    (h : AttemptedAll dir m ctx as xs ws) :
    ∃ docs : List Document, docs.Sublist (documents as m ctx) ∧
      xs.filterMap Attempt.written? = docs.map (·.writtenTo dir) ∧
      ws.filter WriteRecord.accepted = docs.map (writeOf dir) := by
  induction h with
  | nil => exact ⟨[], .slnil, rfl, rfl⟩
  | cons first rest ih =>
    obtain ⟨docs, hdocs, hwritten, hws⟩ := ih
    cases first with
    | failed h =>
      refine ⟨docs, ?_, ?_, hws⟩
      · rw [documents_cons_error h]
        exact hdocs
      · rw [List.filterMap_cons_none rfl]
        exact hwritten
    | @written d h =>
      refine ⟨d :: docs, ?_, ?_, ?_⟩
      · rw [documents_cons_ok h]
        exact hdocs.cons_cons d
      · rw [List.filterMap_cons_some (Attempt.written?_ok _ _), hwritten, List.map_cons]
      · rw [List.singleton_append, List.filter_cons_of_pos rfl, hws]
        rfl
    | @refused d e h =>
      refine ⟨docs, ?_, ?_, ?_⟩
      · rw [documents_cons_ok h]
        exact hdocs.cons d
      · rw [List.filterMap_cons_none rfl]
        exact hwritten
      · rw [List.singleton_append, List.filter_cons_of_neg Bool.false_ne_true]
        exact hws

/-! ## Reading documents -/

/-- The documents that a completed run has given to its host, in their order: the adapters have
rendered them for the tokens of the source, and the report lists them. -/
structure Delivered (job : ExportJob) (host : Host (StateM σ)) (s : σ) (report : RunReport)
    (docs : List Document) : Prop where
  rendered : ∃ file s₂ s₃, job.Reaches host s file s₂ ∧
    host.makeDirectories job.preferences.outputDir s₂ = (.ok (), s₃) ∧
    docs.Sublist (documents job.registry.adapters (job.library.extract file.text).build.model
      (job.context (host.now s₃).1))
  listed : report.written = docs.map (·.writtenTo job.preferences.outputDir)

/-- What is read at the paths of documents. -/
structure ReadBack (host : Host (StateM σ)) (v : FileView σ) (dir : String) (s : σ)
    (docs : List Document) : Prop where
  /-- At a path stands the last document whose path leads to the same place. -/
  last : ∀ d ∈ docs, ∀ place, v.leadsTo s (d.writtenTo dir).path = some place →
    ∃ before e after, docs = before ++ e :: after ∧
      v.leadsTo s (e.writtenTo dir).path = some place ∧
      (∀ f ∈ after, v.leadsTo s (f.writtenTo dir).path ≠ some place) ∧
      (host.readText (d.writtenTo dir).path s).1 = .ok e.contents
  /-- So all documents are there exactly if those with one place are equal. -/
  own : (∀ d ∈ docs, ∀ place, v.leadsTo s (d.writtenTo dir).path = some place →
      (host.readText (d.writtenTo dir).path s).1 = .ok d.contents) ↔
    ∀ d ∈ docs, ∀ e ∈ docs, ∀ place, v.leadsTo s (d.writtenTo dir).path = some place →
      v.leadsTo s (e.writtenTo dir).path = some place → d.contents = e.contents

section

variable {dir : String} {s₁ s₂ s : σ} {docs : List Document} {ws : List WriteRecord}
  (hwrites : host.Writes s₁ ws s₂) (hobeys : host.Obeys v) (hend : v.Same s₂ s)
  (hws : ws.filter WriteRecord.accepted = docs.map (writeOf dir))
include hwrites hobeys hend hws

/-- A place that documents lead to holds the last of them. -/
theorem exists_last_document {d : Document} (hd : d ∈ docs) {place : v.Place}
    (hplace : v.leadsTo s (d.writtenTo dir).path = some place) :
    ∃ before e after, docs = before ++ e :: after ∧
      v.leadsTo s (e.writtenTo dir).path = some place ∧
      (∀ f ∈ after, v.leadsTo s (f.writtenTo dir).path ≠ some place) ∧
      v.look s place = some (.file (.text e.contents)) := by
  have hways : v.leadsTo s = v.leadsTo s₁ := hend.leadsTo.trans (hwrites.lands hobeys).leadsTo
  have hthere : ∃ d ∈ docs, v.leadsTo s (d.writtenTo dir).path = some place := ⟨d, hd, hplace⟩
  obtain ⟨before, e, after, rfl, hlast, hafter⟩ := exists_last hthere
  refine ⟨before, e, after, rfl, hlast, hafter, ?_⟩
  rw [List.map_append, List.map_cons] at hws
  rw [hways] at hlast hafter
  rw [hend.look]
  refine hwrites.look_of_last hobeys hws hlast fun u hu => ?_
  obtain ⟨f, hf, rfl⟩ := List.mem_map.1 hu
  exact hafter f hf

theorem readBack (hreads : host.Reads v) : ReadBack host v dir s docs := by
  constructor
  · intro d hd place hplace
    obtain ⟨before, e, after, hdocs, hlast, hafter, hlook⟩ :=
      exists_last_document hwrites hobeys hend hws hd hplace
    exact ⟨before, e, after, hdocs, hlast, hafter, hreads s _ place _ hplace hlook⟩
  · constructor
    · intro hown d hd e he place hplace hplace'
      obtain ⟨_, x, _, _, _, _, hlook⟩ := exists_last_document hwrites hobeys hend hws hd hplace
      -- both paths are read at the one place, where the last document stands
      have hd' := hown d hd place hplace
      have he' := hown e he place hplace'
      rw [hreads s _ place _ hplace hlook] at hd'
      rw [hreads s _ place _ hplace' hlook] at he'
      exact (Except.ok.inj hd').symm.trans (Except.ok.inj he')
    · intro hequal d hd place hplace
      obtain ⟨_, e, _, hdocs, hplace', _, hlook⟩ :=
        exists_last_document hwrites hobeys hend hws hd hplace
      have he : e ∈ docs := hdocs ▸ List.mem_append_right _ List.mem_cons_self
      rw [hequal d hd e he place hplace hplace']
      exact hreads s _ place _ hplace hlook

end

/-- **At the path of a document that a run has written, the last document of the run is read that
leads to the same place.** -/
theorem run_reads_back (job : ExportJob) (hobeys : host.Obeys v) (hreads : host.Reads v) {s : σ}
    {report : RunReport} (h : ((job.run host).run s).1.result = .ok (.completed report)) :
    ∃ docs, job.Delivered host s report docs ∧
      ReadBack host v job.preferences.outputDir ((job.run host).run s).2 docs := by
  have hcourse := job.run_course host s
  rw [h] at hcourse
  generalize ((job.run host).run s).2 = s' at hcourse
  cases hcourse with
  | @completed s₁ s₂ s₃ s₄ s₅ _ start stop file ns t xs hclock hread hmodel hdir hnow hattempts
      hstop =>
    obtain ⟨xs', s₅', ws, hattempts', hxs, hwrites⟩ := attemptAll_writes host
      job.preferences.outputDir (job.library.extract file.text).build.model (job.context t)
      job.registry.adapters s₄
    obtain ⟨rfl, rfl⟩ := Prod.mk.inj (hattempts.symm.trans hattempts')
    obtain ⟨docs, hdocs, hwritten, hws⟩ := hxs.exists_documents
    have hend : v.Same s₅ s' := by
      have hstep := hobeys.clock s₅
      rwa [hstop] at hstep
    refine ⟨docs, ⟨⟨file, s₂, s₃, .of_read hclock hread hmodel, hdir, ?_⟩, hwritten⟩,
      readBack hwrites hobeys hend hws hreads⟩
    rw [hnow]
    exact hdocs

/-- What a run has written, if it has completed. -/
def written? : Except RunError RunOutcome → Option (List WrittenDocument)
  | .ok (.completed report) => some report.written
  | .ok (.nothingToExport _ _) | .error _ => none

theorem exists_report {result : Except RunError RunOutcome} {ws : List WrittenDocument}
    (h : written? result = some ws) :
    ∃ report, result = .ok (.completed report) ∧ report.written = ws := by
  rcases result with e | (_ | report)
  · cases h
  · cases h
  · exact ⟨report, rfl, Option.some.inj h⟩

theorem run_reads_back_sampleFiles :
    ∃ report, ((sampleJob.run (FileSystem.host ⟨0, 0⟩)).run sampleFiles).1.result
        = .ok (.completed report) ∧
      report.written = [⟨"a", "out/a.txt", 1⟩, ⟨"c", "out/c.txt", 6⟩] ∧
      ∃ docs, sampleJob.Delivered (FileSystem.host ⟨0, 0⟩) sampleFiles report docs ∧
        ReadBack (FileSystem.host ⟨0, 0⟩) FileSystem.view "out"
          ((sampleJob.run (FileSystem.host ⟨0, 0⟩)).run sampleFiles).2 docs := by
  have hwrites : written? ((sampleJob.run (FileSystem.host ⟨0, 0⟩)).run sampleFiles).1.result
      = some [⟨"a", "out/a.txt", 1⟩, ⟨"c", "out/c.txt", 6⟩] := by decide +kernel
  obtain ⟨report, hresult, hwritten⟩ := exists_report hwrites
  exact ⟨report, hresult, hwritten, run_reads_back sampleJob (FileSystem.obeys_host ⟨0, 0⟩)
    (FileSystem.reads_host ⟨0, 0⟩) hresult⟩

/-- A job with two adapters whose file names lead to one place. -/
def sharingJob : ExportJob :=
  { sampleJob with
    registry := ⟨[⟨"first", "tokens.txt", "", fun _ _ => .ok "first"⟩,
      ⟨"second", "./tokens.txt", "", fun _ _ => .ok "second"⟩]⟩ }

/-- A registry takes both adapters, the report lists both documents, and the first is gone. -/
theorem sharingJob_overwrites :
    Registry.empty.registerAll sharingJob.registry.adapters = (sharingJob.registry, none) ∧
      (∃ report, ((sharingJob.run (FileSystem.host ⟨0, 0⟩)).run sampleFiles).1.result
          = .ok (.completed report) ∧
        report.written
          = [⟨"first", "out/tokens.txt", 5⟩, ⟨"second", "out/./tokens.txt", 6⟩]) ∧
      (((sharingJob.run (FileSystem.host ⟨0, 0⟩)).run sampleFiles).2.readText "out/tokens.txt")
        = .ok "second" := by
  have hrun : written? ((sharingJob.run (FileSystem.host ⟨0, 0⟩)).run sampleFiles).1.result
        = some [⟨"first", "out/tokens.txt", 5⟩, ⟨"second", "out/./tokens.txt", 6⟩] ∧
      (((sharingJob.run (FileSystem.host ⟨0, 0⟩)).run sampleFiles).2.readText "out/tokens.txt")
        = .ok "second" := by
    decide +kernel
  exact ⟨rfl, exists_report hrun.1, hrun.2⟩

end ExportJob

end DesignTokens
