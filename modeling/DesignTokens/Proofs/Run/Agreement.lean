import DesignTokens.Proofs.Document.Registration
import DesignTokens.Run.Export

/-!
# Runs and renderings agree

A rendering shows what documents a source gives; a run gives them to a host, which may refuse any of
them. To say what a run hands to its host, the host is put under a record of the writes that it is
asked for and of its answers. Whatever the host answers, the run settles every adapter once: with
the document of the rendering if the host took it, and with a failure if there is no document or the
host refused it.
-/

namespace DesignTokens

/-! ## Hosts with a record -/

/-- A write that a host was asked for, and its answer. -/
structure WriteRecord where
  path : String
  text : String
  answer : Except HostError Unit

namespace Host

variable {σ α β : Type}

def unrecorded (x : StateM σ α) : StateM (σ × List WriteRecord) α :=
  fun s => ((x s.1).1, (x s.1).2, s.2)

/-- A host with a record of the writes that it is asked for, in their order. -/
def recorded (host : Host (StateM σ)) : Host (StateM (σ × List WriteRecord)) where
  examine path := unrecorded (host.examine path)
  readText path := unrecorded (host.readText path)
  makeDirectories path := unrecorded (host.makeDirectories path)
  writeText path text := fun s =>
    ((host.writeText path text s.1).1, (host.writeText path text s.1).2,
      s.2 ++ [⟨path, text, (host.writeText path text s.1).1⟩])
  now := unrecorded host.now
  clock := unrecorded host.clock

theorem unrecorded_bind (x : StateM σ α) (f : α → StateM σ β) :
    unrecorded (x >>= f) = unrecorded x >>= fun a => unrecorded (f a) := rfl

theorem unrecorded_apply {x : StateM σ α} {s s' : σ} {a : α} (h : x s = (a, s'))
    (log : List WriteRecord) : unrecorded x (s, log) = (a, s', log) := by
  show ((x s).1, (x s).2, log) = _
  rw [h]

theorem readSource_recorded (host : Host (StateM σ)) (path : String) :
    host.recorded.readSource path = unrecorded (host.readSource path) := by
  unfold readSource
  rw [unrecorded_bind]
  refine bind_congr fun start => ?_
  simp only
  split
  · rfl
  · rw [unrecorded_bind]
    refine bind_congr fun examined => ?_
    cases examined with
    | absent => rfl
    | noFile => rfl
    | file canonical size =>
      simp only
      split
      · rfl
      · rw [unrecorded_bind]
        refine bind_congr fun text => ?_
        cases text <;> rfl

/-- The first step does what the second one does, but for the record. -/
def Forgets (y : StateM (σ × List WriteRecord) α) (x : StateM σ α) : Prop :=
  ∀ s log, ((y (s, log)).1, (y (s, log)).2.1) = x s

theorem Forgets.unrecorded (x : StateM σ α) : Forgets (unrecorded x) x :=
  fun _ _ => rfl

theorem Forgets.pure (a : α) :
    Forgets (pure a) (pure a : StateM σ α) :=
  fun _ _ => rfl

theorem Forgets.writeText (host : Host (StateM σ)) (path text : String) :
    Forgets (host.recorded.writeText path text) (host.writeText path text) :=
  fun _ _ => rfl

theorem Forgets.bind {y : StateM (σ × List WriteRecord) α} {x : StateM σ α}
    {g : α → StateM (σ × List WriteRecord) β} {f : α → StateM σ β} (h : Forgets y x)
    (hnext : ∀ a, Forgets (g a) (f a)) : Forgets (y >>= g) (x >>= f) := by
  intro s log
  have hfirst := h s log
  show ((g (y (s, log)).1 (y (s, log)).2).1, (g (y (s, log)).1 (y (s, log)).2).2.1)
    = f (x s).1 (x s).2
  rw [← hfirst]
  exact hnext _ _ _

/-! ## Writes -/

section

variable {host : Host (StateM σ)}

/-- What becomes of a host that is asked for some writes, one after the other. -/
inductive Writes (host : Host (StateM σ)) : σ → List WriteRecord → σ → Prop where
  | nil (s : σ) : Writes host s [] s
  | cons {path text : String} {s s' : σ} {ws : List WriteRecord}
    (rest : Writes host (host.writeText path text s).2 ws s') :
    Writes host s (⟨path, text, (host.writeText path text s).1⟩ :: ws) s'

namespace Writes

theorem single (host : Host (StateM σ)) (path text : String) (s : σ) :
    host.Writes s [⟨path, text, (host.writeText path text s).1⟩] (host.writeText path text s).2 :=
  .cons (.nil _)

theorem append {s₁ s₂ s₃ : σ} {ws vs : List WriteRecord} (h : host.Writes s₁ ws s₂)
    (h' : host.Writes s₂ vs s₃) : host.Writes s₁ (ws ++ vs) s₃ := by
  induction h with
  | nil => exact h'
  | cons _ ih => exact .cons (ih h')

/-- The record of a host grows by the writes. -/
theorem record_eq {p p' : σ × List WriteRecord} {ws : List WriteRecord}
    (h : host.recorded.Writes p ws p') : p'.2 = p.2 ++ ws := by
  induction h with
  | nil p => exact (List.append_nil p.2).symm
  | cons _ ih => exact ih.trans (List.append_assoc _ _ _)

end Writes

end

end Host

open Host

namespace ExportJob

variable {σ : Type}

theorem forgets_attempt (host : Host (StateM σ)) (dir : String) (m : TokenModel)
    (ctx : DocumentContext) (a : Adapter) :
    Forgets (attempt host.recorded dir m ctx a) (attempt host dir m ctx a) := by
  unfold attempt
  cases a.produce m ctx with
  | error e => exact .pure _
  | ok d =>
    refine .bind (.bind (.writeText host _ d.contents) fun answer => ?_) fun result => .pure _
    cases answer <;> exact .pure _

theorem forgets_attemptAll (host : Host (StateM σ)) (dir : String) (m : TokenModel)
    (ctx : DocumentContext) (as : List Adapter) :
    Forgets (attemptAll host.recorded dir m ctx as) (attemptAll host dir m ctx as) := by
  induction as with
  | nil => exact .pure []
  | cons a as ih =>
    exact .bind (forgets_attempt host dir m ctx a) fun first => .bind ih fun rest => .pure _

theorem forgets_run (job : ExportJob) (host : Host (StateM σ)) :
    Forgets (job.run host.recorded) (job.run host) := by
  unfold run
  refine .bind (.unrecorded host.clock) fun start => ?_
  rw [readSource_recorded]
  refine .bind (.unrecorded _) fun reading => ?_
  cases reading.result with
  | error e => exact .pure _
  | ok file =>
    simp only
    split
    · exact .pure _
    · refine .bind (.bind (.unrecorded _) fun made => ?_) fun opened => ?_
      · cases made <;> exact .pure _
      · cases opened with
        | error e => exact .pure _
        | ok _ =>
          refine .bind (.unrecorded host.now) fun now => ?_
          refine .bind (forgets_attemptAll host _ _ _ _) fun attempts => ?_
          exact .bind (.unrecorded host.clock) fun stop => .pure _

/-- The writes that a run asks its host for, with the answers of the host. -/
def writes (job : ExportJob) (host : Host (StateM σ)) (s : σ) : List WriteRecord :=
  ((job.run host.recorded).run (s, [])).2.2

end ExportJob

/-! ## Registries that come from registrations -/

namespace Registry

inductive Built : Registry → Prop where
  | empty : Built empty
  | register {r r' : Registry} {a : Adapter} (before : Built r) (h : r.register a = .ok r') :
    Built r'

theorem Built.distinct {r : Registry} (h : Built r) : r.Distinct := by
  induction h with
  | empty => exact distinct_empty
  | @register r r' a _ h ih =>
    have hoffer := ih.offer a
    rwa [offer_of_register h] at hoffer

theorem Built.registerAll {r : Registry} (h : Built r) (as : List Adapter) :
    Built (r.registerAll as).1 := by
  induction as generalizing r with
  | nil => exact h
  | cons a as ih =>
    rw [Registry.registerAll]
    cases hr : r.register a with
    | error e => exact h
    | ok r' => exact ih (.register h hr)

theorem built_standard (withOverview : Bool) : Built (standard withOverview) := by
  have h := Built.empty.registerAll (standardAdapters withOverview)
  rwa [registerAll_standard] at h

end Registry

/-! ## What comes of the attempts -/

theorem Adapter.adapter_of_produce {a : Adapter} {m : TokenModel} {ctx : DocumentContext}
    {d : Document} (h : a.produce m ctx = .ok d) : d.adapter = a.id := by
  unfold produce at h
  split at h
  · cases h
    rfl
  · cases h

namespace Attempt

theorem written?_ok (id : String) (d : WrittenDocument) :
    (⟨id, .ok d⟩ : Attempt).written? = some d := rfl

theorem failure?_error (id : String) (e : ExportError) :
    (⟨id, .error e⟩ : Attempt).failure? = some ⟨id, e⟩ := rfl

end Attempt

def Document.writtenTo (d : Document) (dir : String) : WrittenDocument :=
  ⟨d.adapter, Path.join dir d.fileName, d.contents.utf8ByteSize⟩

def Document.refusedBy (d : Document) (dir : String) (e : HostError) : AdapterFailure :=
  ⟨d.adapter, .write d.adapter (Path.join dir d.fileName) e.message⟩

namespace ExportJob

variable {dir : String} {m : TokenModel} {ctx : DocumentContext}

/-- What can come of asking an adapter, and the writes that this takes. -/
inductive Attempted (dir : String) (m : TokenModel) (ctx : DocumentContext) :
    Adapter → Attempt → List WriteRecord → Prop where
  | failed {a : Adapter} {e : ExportError} (h : a.produce m ctx = .error e) :
    Attempted dir m ctx a ⟨a.id, .error e⟩ []
  | written {a : Adapter} {d : Document} (h : a.produce m ctx = .ok d) :
    Attempted dir m ctx a ⟨a.id, .ok (d.writtenTo dir)⟩
      [⟨Path.join dir d.fileName, d.contents, .ok ()⟩]
  | refused {a : Adapter} {d : Document} {e : HostError} (h : a.produce m ctx = .ok d) :
    Attempted dir m ctx a ⟨(d.refusedBy dir e).adapter, .error (d.refusedBy dir e).error⟩
      [⟨Path.join dir d.fileName, d.contents, .error e⟩]

inductive AttemptedAll (dir : String) (m : TokenModel) (ctx : DocumentContext) :
    List Adapter → List Attempt → List WriteRecord → Prop where
  | nil : AttemptedAll dir m ctx [] [] []
  | cons {a : Adapter} {x : Attempt} {ws : List WriteRecord} {as : List Adapter}
    {xs : List Attempt} {vs : List WriteRecord} (first : Attempted dir m ctx a x ws)
    (rest : AttemptedAll dir m ctx as xs vs) :
    AttemptedAll dir m ctx (a :: as) (x :: xs) (ws ++ vs)

theorem attempt_writes {σ : Type} (host : Host (StateM σ)) (dir : String) (m : TokenModel)
    (ctx : DocumentContext) (a : Adapter) (s : σ) :
    ∃ x s' ws, attempt host dir m ctx a s = (x, s') ∧ Attempted dir m ctx a x ws ∧
      host.Writes s ws s' := by
  unfold attempt
  cases hd : a.produce m ctx with
  | error e => exact ⟨_, s, [], rfl, .failed hd, .nil s⟩
  | ok d =>
    have hwrites := Host.Writes.single host (Path.join dir d.fileName) d.contents s
    cases hw : host.writeText (Path.join dir d.fileName) d.contents s with
    | mk answer s' =>
      rw [hw] at hwrites
      simp only [writeDocument, bind, StateT.bind, hw]
      cases answer with
      | ok _ => exact ⟨_, s', _, rfl, .written hd, hwrites⟩
      | error e =>
        refine ⟨_, s', _, ?_, .refused (e := e) hd, hwrites⟩
        rw [Document.refusedBy, Adapter.adapter_of_produce hd]
        rfl

theorem attemptAll_writes {σ : Type} (host : Host (StateM σ)) (dir : String) (m : TokenModel)
    (ctx : DocumentContext) (as : List Adapter) (s : σ) :
    ∃ xs s' ws, attemptAll host dir m ctx as s = (xs, s') ∧ AttemptedAll dir m ctx as xs ws ∧
      host.Writes s ws s' := by
  induction as generalizing s with
  | nil => exact ⟨[], s, [], rfl, .nil, .nil s⟩
  | cons a as ih =>
    obtain ⟨x, s₁, ws, hfirst, hx, hwrites⟩ := attempt_writes host dir m ctx a s
    obtain ⟨xs, s₂, vs, hrest, hxs, hwrites'⟩ := ih s₁
    refine ⟨x :: xs, s₂, ws ++ vs, ?_, .cons hx hxs, hwrites.append hwrites'⟩
    rw [attemptAll]
    simp only [bind, StateT.bind, hfirst, hrest]
    rfl

theorem attemptAll_recorded {σ : Type} (host : Host (StateM σ)) (dir : String) (m : TokenModel)
    (ctx : DocumentContext) (as : List Adapter) (s : σ) (log : List WriteRecord) :
    ∃ xs s' ws, attemptAll host.recorded dir m ctx as (s, log) = (xs, s', log ++ ws) ∧
      AttemptedAll dir m ctx as xs ws := by
  obtain ⟨xs, ⟨s', log'⟩, ws, hattempts, hxs, hwrites⟩ :=
    attemptAll_writes host.recorded dir m ctx as (s, log)
  obtain rfl : log' = log ++ ws := hwrites.record_eq
  exact ⟨xs, s', ws, hattempts, hxs⟩

/-! ## What the attempts add up to -/

def documents (as : List Adapter) (m : TokenModel) (ctx : DocumentContext) : List Document :=
  as.filterMap fun a => (a.produce m ctx).toOption

/-- What keeps an adapter from its document, if something does. -/
def failure? (m : TokenModel) (ctx : DocumentContext) (a : Adapter) : Option AdapterFailure :=
  match a.produce m ctx with
  | .ok _ => none
  | .error e => some ⟨a.id, e⟩

def failures (as : List Adapter) (m : TokenModel) (ctx : DocumentContext) : List AdapterFailure :=
  as.filterMap (failure? m ctx)

theorem documents_cons_ok {a : Adapter} {d : Document} (h : a.produce m ctx = .ok d)
    (as : List Adapter) : documents (a :: as) m ctx = d :: documents as m ctx :=
  List.filterMap_cons_some (by rw [h]; rfl)

theorem documents_cons_error {a : Adapter} {e : ExportError} (h : a.produce m ctx = .error e)
    (as : List Adapter) : documents (a :: as) m ctx = documents as m ctx :=
  List.filterMap_cons_none (by rw [h]; rfl)

theorem failures_cons_ok {a : Adapter} {d : Document} (h : a.produce m ctx = .ok d)
    (as : List Adapter) : failures (a :: as) m ctx = failures as m ctx :=
  List.filterMap_cons_none (by rw [failure?, h])

theorem failures_cons_error {a : Adapter} {e : ExportError} (h : a.produce m ctx = .error e)
    (as : List Adapter) : failures (a :: as) m ctx = ⟨a.id, e⟩ :: failures as m ctx :=
  List.filterMap_cons_some (by rw [failure?, h])

theorem Attempted.settled {a : Adapter} {x : Attempt} {ws : List WriteRecord}
    (h : Attempted dir m ctx a x ws) :
    x.adapter = a.id ∧
      ((∃ d, x.written? = some d ∧ d.adapter = a.id ∧ x.failure? = none) ∨
        (∃ f, x.failure? = some f ∧ f.adapter = a.id ∧ x.written? = none)) := by
  cases h with
  | failed h => exact ⟨rfl, .inr ⟨_, rfl, rfl, rfl⟩⟩
  | written h => exact ⟨rfl, .inl ⟨_, rfl, Adapter.adapter_of_produce h, rfl⟩⟩
  | refused h =>
    have hid := Adapter.adapter_of_produce h
    exact ⟨hid, .inr ⟨_, rfl, hid, rfl⟩⟩

namespace AttemptedAll

variable {as : List Adapter} {xs : List Attempt} {ws : List WriteRecord}

theorem map_adapter (h : AttemptedAll dir m ctx as xs ws) :
    xs.map (·.adapter) = as.map (·.id) := by
  induction h with
  | nil => rfl
  | cons first _ ih => rw [List.map_cons, List.map_cons, first.settled.1, ih]

theorem map_write (h : AttemptedAll dir m ctx as xs ws) :
    ws.map (fun w => (w.path, w.text))
      = (documents as m ctx).map fun d => (Path.join dir d.fileName, d.contents) := by
  induction h with
  | nil => rfl
  | cons first _ ih =>
    cases first with
    | failed h => rw [documents_cons_error h, List.nil_append, ih]
    | written h | refused h =>
      rw [documents_cons_ok h, List.map_append, ih]
      rfl

theorem written_sublist (h : AttemptedAll dir m ctx as xs ws) :
    ((xs.filterMap Attempt.written?).map (·.adapter)).Sublist (as.map (·.id)) := by
  induction h with
  | nil => exact .slnil
  | cons first _ ih =>
    rcases first.settled.2 with ⟨d, hd, hid, -⟩ | ⟨-, -, -, hnone⟩
    · rw [List.filterMap_cons_some hd, List.map_cons, List.map_cons, hid]
      exact ih.cons_cons _
    · rw [List.filterMap_cons_none hnone]
      exact ih.cons _

theorem failed_sublist (h : AttemptedAll dir m ctx as xs ws) :
    ((xs.filterMap Attempt.failure?).map (·.adapter)).Sublist (as.map (·.id)) := by
  induction h with
  | nil => exact .slnil
  | cons first _ ih =>
    rcases first.settled.2 with ⟨-, -, -, hnone⟩ | ⟨f, hf, hid, -⟩
    · rw [List.filterMap_cons_none hnone]
      exact ih.cons _
    · rw [List.filterMap_cons_some hf, List.map_cons, List.map_cons, hid]
      exact ih.cons_cons _

theorem written_iff_not_failed (h : AttemptedAll dir m ctx as xs ws)
    (hnodup : (as.map (·.id)).Nodup) {id : String} (hid : id ∈ as.map (·.id)) :
    id ∈ (xs.filterMap Attempt.written?).map (·.adapter) ↔
      id ∉ (xs.filterMap Attempt.failure?).map (·.adapter) := by
  induction h with
  | nil => cases hid
  | @cons a x ws as xs vs first rest ih =>
    obtain ⟨hfresh, hnodup⟩ := List.nodup_cons.1 hnodup
    by_cases hsame : id = a.id
    · subst hsame
      have hwritten := mt (fun hw => rest.written_sublist.subset hw) hfresh
      have hfailed := mt (fun hf => rest.failed_sublist.subset hf) hfresh
      rcases first.settled.2 with ⟨d, hd, had, hnone⟩ | ⟨f, hf, haf, hnone⟩
      · rw [List.filterMap_cons_some hd, List.filterMap_cons_none hnone, List.map_cons, had]
        exact iff_of_true (List.mem_cons_self) hfailed
      · rw [List.filterMap_cons_some hf, List.filterMap_cons_none hnone, List.map_cons, haf]
        exact iff_of_false hwritten (not_not_intro List.mem_cons_self)
    · have hrest := ih hnodup ((List.mem_cons.1 hid).resolve_left hsame)
      rcases first.settled.2 with ⟨d, hd, had, hnone⟩ | ⟨f, hf, haf, hnone⟩
      · rw [List.filterMap_cons_some hd, List.filterMap_cons_none hnone, List.map_cons, had,
          List.mem_cons, or_iff_right hsame]
        exact hrest
      · rw [List.filterMap_cons_some hf, List.filterMap_cons_none hnone, List.map_cons, haf,
          List.mem_cons, or_iff_right hsame]
        exact hrest

theorem mem_written (h : AttemptedAll dir m ctx as xs ws) (d : WrittenDocument) :
    d ∈ xs.filterMap Attempt.written? ↔
      ∃ p ∈ (documents as m ctx).zip ws, p.2.answer = .ok () ∧ d = p.1.writtenTo dir := by
  induction h with
  | nil => simp [documents]
  | cons first _ ih =>
    cases first with
    | failed h =>
      rw [documents_cons_error h, List.nil_append, List.filterMap_cons_none rfl, ih]
    | written h =>
      rw [documents_cons_ok h, List.filterMap_cons_some (Attempt.written?_ok _ _)]
      simp only [List.mem_cons, ih, List.singleton_append, List.zip_cons_cons, exists_eq_or_imp,
        true_and]
    | refused h =>
      rw [documents_cons_ok h, List.filterMap_cons_none rfl, ih]
      simp only [List.singleton_append, List.zip_cons_cons, List.mem_cons, exists_eq_or_imp,
        reduceCtorEq, false_and, false_or]

theorem mem_failed (h : AttemptedAll dir m ctx as xs ws) (f : AdapterFailure) :
    f ∈ xs.filterMap Attempt.failure? ↔
      f ∈ failures as m ctx ∨
        ∃ p ∈ (documents as m ctx).zip ws, ∃ e, p.2.answer = .error e ∧ f = p.1.refusedBy dir e := by
  induction h with
  | nil => simp [documents, failures]
  | cons first _ ih =>
    cases first with
    | failed h =>
      rw [documents_cons_error h, failures_cons_error h, List.nil_append,
        List.filterMap_cons_some (Attempt.failure?_error _ _), List.mem_cons, List.mem_cons, ih,
        or_assoc]
    | written h =>
      rw [documents_cons_ok h, failures_cons_ok h, List.filterMap_cons_none rfl, ih]
      simp only [List.singleton_append, List.zip_cons_cons, List.mem_cons, exists_eq_or_imp,
        reduceCtorEq, false_and, exists_false, false_or]
    | refused h =>
      rw [documents_cons_ok h, failures_cons_ok h,
        List.filterMap_cons_some (Attempt.failure?_error _ _)]
      simp only [List.mem_cons, ih, List.singleton_append, List.zip_cons_cons, exists_eq_or_imp,
        Except.error.injEq, exists_eq_left']
      -- the refusal stands before the failures of the other adapters, and among the refusals
      exact or_left_comm

end AttemptedAll

/-! ## Agreement -/

/-- What a report on a run says, measured by the rendering of the source and by the writes that the
host was asked for. -/
structure ReportAgrees (job : ExportJob) (r : Rendering) (report : RunReport)
    (log : List WriteRecord) : Prop where
  outputDir : report.outputDir = job.preferences.outputDir
  warnings : report.warnings = r.warnings
  counts : report.counts = r.model.counts
  metrics : report.metrics = r.metrics
  history : report.history = [.idle, .scanning] ++ job.registry.ids.map .exporting ++ [.done]
  nodup : job.registry.ids.Nodup
  either : ∀ id ∈ job.registry.ids,
    (id ∈ report.written.map (·.adapter) ↔ id ∉ report.failed.map (·.adapter))
  written_order : (report.written.map (·.adapter)).Sublist job.registry.ids
  failed_order : (report.failed.map (·.adapter)).Sublist job.registry.ids
  /-- The host is handed every document of the rendering once, in order. -/
  handed : log.map (fun w => (w.path, w.text))
    = r.documents.map fun d => (Path.join job.preferences.outputDir d.fileName, d.contents)
  written : ∀ w, w ∈ report.written ↔
    ∃ p ∈ r.documents.zip log, p.2.answer = .ok () ∧ w = p.1.writtenTo job.preferences.outputDir
  failed : ∀ f, f ∈ report.failed ↔
    f ∈ r.failures ∨ ∃ p ∈ r.documents.zip log, ∃ e, p.2.answer = .error e ∧
      f = p.1.refusedBy job.preferences.outputDir e

/-- How a run ends whose source can be read and whose directory can be made, measured by the
rendering of the source and by the writes that the host was asked for. -/
inductive Agrees (job : ExportJob) (r : Rendering) :
    Except RunError RunOutcome → List WriteRecord → Prop where
  | nothing (hmodel : r.model.isEmpty = true) (hdocuments : r.documents = [])
    (hfailures : r.failures = []) :
    Agrees job r (.ok (.nothingToExport r.warnings [.idle, .scanning, .done])) []
  | completed {report : RunReport} {log : List WriteRecord} (hmodel : r.model.isEmpty = false)
    (hreport : ReportAgrees job r report log) : Agrees job r (.ok (.completed report)) log

theorem context_congr {job : ExportJob}
    (htime : job.preferences.embedTimestamp = true → job.fixedTime.isSome = true)
    (t t' : Instant) : job.context t = job.context t' := by
  have hstamp : job.stamp t = job.stamp t' := by
    unfold stamp
    split
    · rename_i hembed
      obtain ⟨fixed, hfixed⟩ := Option.isSome_iff_exists.1 (htime hembed)
      rw [hfixed]
      rfl
    · rfl
  rw [context, hstamp]
  rfl

theorem render_of_isEmpty {job : ExportJob} {source : String}
    (h : (job.library.extract source).build.model.isEmpty = true) (t : Instant) :
    (job.render source t).documents = [] ∧ (job.render source t).failures = [] := by
  simp only [render, h, if_true, List.filterMap_nil, and_self]

theorem render_of_not_isEmpty {job : ExportJob} {source : String}
    (h : (job.library.extract source).build.model.isEmpty = false) (t : Instant) :
    (job.render source t).documents
        = documents job.registry.adapters (job.library.extract source).build.model (job.context t) ∧
      (job.render source t).failures
        = failures job.registry.adapters (job.library.extract source).build.model
            (job.context t) := by
  simp only [render, h, Bool.false_eq_true, if_false, List.filterMap_map]
  exact ⟨rfl, rfl⟩

theorem reportAgrees {job : ExportJob} {source : String} {t : Instant} {xs : List Attempt}
    {ws : List WriteRecord} (hbuilt : job.registry.Built)
    (hmodel : (job.library.extract source).build.model.isEmpty = false)
    (h : AttemptedAll job.preferences.outputDir (job.library.extract source).build.model
      (job.context t) job.registry.adapters xs ws) (nanos : Nat) :
    ReportAgrees job (job.render source t)
      (job.report (job.library.extract source) (job.library.extract source).build.model xs nanos)
      ws := by
  obtain ⟨hdocuments, hfailures⟩ := render_of_not_isEmpty hmodel t
  have hhistory : xs.map (fun x => RunState.exporting x.adapter)
      = job.registry.ids.map .exporting := by
    rw [Registry.ids, ← h.map_adapter, List.map_map]
    rfl
  exact
    { outputDir := rfl
      warnings := rfl
      counts := rfl
      metrics := rfl
      history := by rw [← hhistory]; rfl
      nodup := hbuilt.distinct.ids
      either := fun id hid => h.written_iff_not_failed hbuilt.distinct.ids hid
      written_order := h.written_sublist
      failed_order := h.failed_sublist
      handed := by rw [hdocuments]; exact h.map_write
      written := by rw [hdocuments]; exact h.mem_written
      failed := by rw [hdocuments, hfailures]; exact h.mem_failed }

variable {σ : Type}

/-- A run and the rendering of its source agree, whatever the host answers to the writes. -/
theorem run_agrees_render (job : ExportJob) (host : Host (StateM σ)) {s s₁ s₂ s₃ : σ} {start : Nat}
    {file : SourceFile} {ns : List Notice} (hbuilt : job.registry.Built)
    (htime : job.preferences.embedTimestamp = true → job.fixedTime.isSome = true)
    (hclock : host.clock s = (start, s₁))
    (hread : host.readSource job.preferences.sourcePath s₁ = (⟨.ok file, ns⟩, s₂))
    (hdir : host.makeDirectories job.preferences.outputDir s₂ = (.ok (), s₃)) (t : Instant) :
    Agrees job (job.render file.text t) ((job.run host).run s).1.result (job.writes host s) := by
  have hrun : ((job.run host).run s).1 = ((job.run host.recorded).run (s, [])).1 :=
    (congrArg Prod.fst (forgets_run job host s [])).symm
  rw [hrun, writes]
  have hclock' : host.recorded.clock (s, []) = (start, s₁, []) := unrecorded_apply hclock []
  have hread' : host.recorded.readSource job.preferences.sourcePath (s₁, [])
      = (⟨.ok file, ns⟩, s₂, []) := by
    rw [readSource_recorded]
    exact unrecorded_apply hread []
  have hdir' : host.recorded.makeDirectories job.preferences.outputDir (s₂, [])
      = (.ok (), s₃, []) := unrecorded_apply hdir []
  have hopen : openOutput host.recorded job.preferences.outputDir (s₂, []) = (.ok (), s₃, []) := by
    simp only [openOutput, bind, StateT.bind, hdir']
    rfl
  unfold run
  simp only [StateT.run, bind, StateT.bind, hclock', hread']
  by_cases hempty : (job.library.extract file.text).build.model.isEmpty = true
  · obtain ⟨hdocuments, hfailures⟩ := render_of_isEmpty hempty t
    simp only [hempty, if_true]
    exact .nothing hempty hdocuments hfailures
  · rw [Bool.not_eq_true] at hempty
    obtain ⟨hdocuments, hfailures⟩ := render_of_not_isEmpty hempty t
    obtain ⟨xs, s₄, ws, hattempts, hxs⟩ := attemptAll_recorded host job.preferences.outputDir
      (job.library.extract file.text).build.model (job.context (host.now s₃).1)
      job.registry.adapters (host.now s₃).2 []
    have hnow : host.recorded.now (s₃, []) = ((host.now s₃).1, (host.now s₃).2, []) := rfl
    have hstop : host.recorded.clock (s₄, [] ++ ws) = ((host.clock s₄).1, (host.clock s₄).2, ws) :=
      rfl
    simp only [hempty, Bool.false_eq_true, if_false, bind, StateT.bind, hopen, hnow, hattempts,
      hstop]
    rw [context_congr htime _ t] at hxs
    exact .completed hempty (reportAgrees hbuilt hempty hxs _)

/-- A host with one source whose directory `out` already has a directory `c.txt`. Its clock counts
the questions for the time. -/
def sampleHost : Host (StateM Nat) where
  examine _ := pure (.file "/app/tokens.dart" 41)
  readText _ := pure (.ok "Color get ink => const Color(0xFF336699);")
  makeDirectories _ := pure (.ok ())
  writeText path _ := pure (if path = "out/c.txt" then .error .isDirectory else .ok ())
  now := pure ⟨0, 0⟩
  clock := modifyGet fun n => (n, n + 1)

/-- A job with an adapter that has a document, one that has none, and one whose document
`sampleHost` refuses. -/
def sampleJob : ExportJob where
  preferences := ⟨"tokens.dart", "out", "Tokens", "1.0", false, true⟩
  library := .standard
  registry := ⟨[⟨"a", "a.txt", "", fun m _ => .ok (toString m.total)⟩,
    ⟨"b", "b.txt", "", fun _ _ => .error (.serialization "b" "no text")⟩,
    ⟨"c", "c.txt", "", fun _ ctx => .ok ctx.documentName⟩]⟩
  fixedTime := none

theorem run_agrees_render_sample :
    sampleJob.registry.Built ∧
      (sampleJob.library.extract "Color get ink => const Color(0xFF336699);").build.model.isEmpty
        = false ∧
      Agrees sampleJob (sampleJob.render "Color get ink => const Color(0xFF336699);" ⟨0, 0⟩)
        ((sampleJob.run sampleHost).run 7).1.result (sampleJob.writes sampleHost 7) :=
  have hbuilt : sampleJob.registry.Built := .registerAll .empty sampleJob.registry.adapters
  ⟨hbuilt, by decide +kernel,
    run_agrees_render sampleJob sampleHost hbuilt (fun h => nomatch h) rfl rfl rfl ⟨0, 0⟩⟩

end ExportJob

end DesignTokens
