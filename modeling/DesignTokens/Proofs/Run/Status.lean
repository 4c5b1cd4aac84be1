import DesignTokens.CommandLine.Command
import DesignTokens.Proofs.Extract.Account
import DesignTokens.Proofs.Extract.Fold
import DesignTokens.Proofs.Log.Collected
import DesignTokens.Proofs.Run.Agreement

/-!
# The status of a run

A run warns of every match that its scan drops and of every value that cannot be read, and it notes
an error for every adapter that fails. These are all its complaints, in this order. The status line
counts what the collector keeps of them.
-/

namespace DesignTokens

/-! ## Complaints of the stages -/

/-- The notices that are collected. -/
def complaints (ns : List Notice) : List Notice := ns.filter (·.isCollected)

theorem complaints_append (ns ms : List Notice) :
    complaints (ns ++ ms) = complaints ns ++ complaints ms :=
  List.filter_append ..

namespace Notice

@[simp] theorem isCollected_info (message : String) (details : List (String × String)) :
    (info message details).isCollected = false := rfl

@[simp] theorem isCollected_success (code : LogCode) (message : String)
    (details : List (String × String)) : (success code message details).isCollected = false := rfl

@[simp] theorem isCollected_debug (message : String) (details : List (String × String)) :
    (debug message details).isCollected = false := rfl

end Notice

@[simp] theorem Attempt.isCollected_transition (s : RunState) :
    (transition s).isCollected = false := rfl

/-- Whether an event warns of a match that a limit has dropped. -/
def LogEvent.isDrop (e : LogEvent) : Bool :=
  e.isWarning && (e.code = .hitLimitReached || e.code = .nameTooLong)

/-- A failure as it is noted. -/
def AdapterFailure.notice (f : AdapterFailure) : Notice :=
  .error f.error.code f.error.message [("adapter", f.adapter)]

namespace Finding

/-- What a rule has to say about a match that it drops. -/
def dropNotice? (rule : String) (f : Finding) : Option Notice :=
  if f.isDropped then f.notice? rule else none

theorem complaints_filterMap (rule : String) (fs : List Finding) :
    complaints (fs.filterMap (notice? rule)) = fs.filterMap (dropNotice? rule) := by
  rw [complaints, List.filter_filterMap]
  refine congrArg (fun p => List.filterMap p fs) (funext fun f => ?_)
  cases f <;> rfl

theorem length_filterMap_dropNotice? (rule : String) (fs : List Finding) :
    (fs.filterMap (dropNotice? rule)).length = fs.countP isDropped := by
  rw [List.length_filterMap_eq_countP]
  refine congrArg (fun p => List.countP p fs) (funext fun f => ?_)
  cases f <;> rfl

theorem isDrop_of_dropNotice? {rule : String} {f : Finding} {n : Notice}
    (h : f.dropNotice? rule = some n) (time : Int) (file : Option String) :
    (n.event time file).isDrop = true := by
  cases f with
  | accepted | guarded => cases h
  | tooLong | overLimit =>
    cases h
    cases file <;> rfl

end Finding

namespace Scan

variable (sc : Scan)

/-- What there is to say about the matches that are dropped. -/
def dropNotices : List Notice :=
  sc.byRule.flatMap fun r => r.findings.filterMap (Finding.dropNotice? r.rule.id)

theorem complaints_notices : complaints sc.notices = sc.dropNotices := by
  have hrules : complaints (sc.byRule.flatMap RuleScan.notices) = sc.dropNotices := by
    rw [complaints, List.filter_flatMap]
    exact List.flatMap_congr fun r _ => Finding.complaints_filterMap r.rule.id r.findings
  rw [notices, complaints_append, hrules]
  exact List.append_nil _

theorem length_dropNotices : sc.dropNotices.length = sc.metrics.dropped := by
  show _ = List.countP _ _
  rw [dropNotices, List.length_flatMap, List.countP_flatMap]
  refine congrArg List.sum (List.map_congr_left fun r _ => ?_)
  exact Finding.length_filterMap_dropNotice? r.rule.id r.findings

theorem isDrop_of_mem_dropNotices {n : Notice} (h : n ∈ sc.dropNotices) (time : Int)
    (file : Option String) : (n.event time file).isDrop = true := by
  obtain ⟨r, -, hr⟩ := List.mem_flatMap.1 h
  obtain ⟨f, -, hf⟩ := List.mem_filterMap.1 hr
  exact Finding.isDrop_of_dropNotice? hf time file

end Scan

namespace Build

theorem complaints_noticesFrom (m : TokenModel) (es : List (Hit × Effect)) :
    complaints (noticesFrom m es) =
      (es.filterMap fun step => step.2.warning?).map BuildWarning.notice := by
  induction es generalizing m with
  | nil => rfl
  | cons step es ih =>
    obtain ⟨h, e⟩ := step
    cases e with
    | warn w => exact congrArg (w.notice :: ·) (ih _)
    | bind name value =>
      rw [noticesFrom, List.filterMap_cons_none rfl, ← ih (apply m (h, .bind name value))]
      split <;> rfl

theorem complaints_notices (b : Build) :
    complaints b.notices = b.warnings.map BuildWarning.notice := by
  rw [notices, complaints_append, complaints_noticesFrom]
  exact List.append_nil _

/-- The codes of values that cannot be read. -/
def malformedCodes : List LogCode :=
  [.malformedNumber, .malformedColor, .malformedDuration, .malformedOffset]

end Build

theorem Hit.Means.code_mem {h : Hit} {bs : List (String × TokenValue)} {ws : List BuildWarning}
    (hm : h.Means bs ws) {w : BuildWarning} (hw : w ∈ ws) : w.code ∈ Build.malformedCodes := by
  cases hm with
  | color | number | duration | curve => cases hw
  | malformedColor | malformedNumber | malformedDuration =>
    rw [List.mem_singleton.1 hw]
    simp [complaint, Build.malformedCodes]
  | gradient =>
    obtain ⟨s, -, rfl⟩ := List.mem_map.1 hw
    simp [complaint, Build.malformedCodes]
  | textStyle _ hsize =>
    rw [hsize.code_eq hw]
    decide
  | shadow _ hblur hoffset halpha =>
    rcases List.mem_append.1 hw with hw | hw
    · rcases List.mem_append.1 hw with hw | hw
      · rw [hblur.code_eq hw]
        decide
      · rw [hoffset.code_eq hw]
        decide
    · rw [halpha.code_eq hw]
      decide

theorem Build.isDrop_warning {hits : List Hit} {w : BuildWarning}
    (hw : w ∈ (ofHits hits).warnings) (time : Int) (file : Option String) :
    (w.notice.event time file).isDrop = false := by
  rw [warnings_ofHits] at hw
  obtain ⟨h, -, hw⟩ := List.mem_flatMap.1 hw
  have hcode := h.means.code_mem hw
  have hevent : (w.notice.event time file).isDrop =
      (decide (w.code = .hitLimitReached) || decide (w.code = .nameTooLong)) := by
    cases file <;> rfl
  rw [hevent]
  simp only [malformedCodes, List.mem_cons, List.not_mem_nil, or_false] at hcode
  rcases hcode with hc | hc | hc | hc <;> rw [hc] <;> decide

theorem Attempt.complaints_flatMap (as : List Attempt) :
    complaints (as.flatMap notices) = (as.filterMap failure?).map AdapterFailure.notice := by
  induction as with
  | nil => rfl
  | cons a as ih =>
    rw [List.flatMap_cons, complaints_append, ih]
    obtain ⟨id, result⟩ := a
    cases result <;> rfl

/-! ## Complaints of a run -/

section Always

variable {σ α β : Type}

/-- What a step gives has a property, whatever the state is. -/
def Always (x : StateM σ α) (p : α → Prop) : Prop := ∀ s, p (x.run s).1

theorem Always.pure {p : α → Prop} {a : α} (h : p a) : Always (pure a : StateM σ α) p :=
  fun _ => h

theorem Always.bind {x : StateM σ α} {f : α → StateM σ β} {p : α → Prop} {q : β → Prop}
    (hx : Always x p) (hf : ∀ a, p a → Always (f a) q) : Always (x >>= f) q :=
  fun s => hf _ (hx s) _

theorem Always.bind_any {x : StateM σ α} {f : α → StateM σ β} {q : β → Prop}
    (hf : ∀ a, Always (f a) q) : Always (x >>= f) q :=
  fun _ => hf _ _

/-- **A source that can be used gives no complaint.** -/
theorem Host.complaints_readSource (host : Host (StateM σ)) (path : String) :
    Always (host.readSource path) fun r =>
      ∀ file, r.result = .ok file → complaints r.notices = [] := by
  unfold readSource
  refine .bind_any fun start => ?_
  simp only
  split
  · exact .pure fun _ h => nomatch h
  · refine .bind_any fun examined => ?_
    cases examined with
    | absent | noFile => exact .pure fun _ h => nomatch h
    | file canonical size =>
      simp only
      split
      · exact .pure fun _ h => nomatch h
      · refine .bind_any fun text => ?_
        cases text with
        | error fault => exact .pure fun _ h => nomatch h
        | ok text =>
          refine .bind_any fun stop => .pure fun _ _ => ?_
          unfold Reading.done
          split <;> rfl

end Always

namespace ExportJob

/-- What a run complains about, which found a text and came to an outcome. -/
structure Complains (lib : Library) (text : String) (ns : List Notice) (o : RunOutcome) : Prop where
  warnings : o.warnings = (lib.extract text).build.warnings
  notices : ∃ failed : List AdapterFailure, o.failedAdapters = failed.map (·.adapter) ∧
    complaints ns = (lib.scan text).dropNotices ++ o.warnings.map BuildWarning.notice
      ++ failed.map AdapterFailure.notice

theorem complaints_extraction (lib : Library) (text : String) :
    complaints (lib.extract text).notices = (lib.scan text).dropNotices
      ++ (lib.extract text).build.warnings.map BuildWarning.notice := by
  rw [Extraction.notices, complaints_append, Scan.complaints_notices, Build.complaints_notices]
  rfl

variable {σ : Type}

/-- **A run that comes to an outcome complains of what it dropped, skipped and failed to write.** -/
theorem complains_run (job : ExportJob) (host : Host (StateM σ)) {p : String → Prop}
    (hp : Always (host.readSource job.preferences.sourcePath) fun r =>
      ∀ file, r.result = .ok file → p file.text) :
    Always (job.run host) fun r => ∀ o, r.result = .ok o →
      ∃ text, p text ∧ Complains job.library text r.notices o := by
  have hread : Always (host.readSource job.preferences.sourcePath) fun r =>
      ∀ file, r.result = .ok file → p file.text ∧ complaints r.notices = [] :=
    fun s file h => ⟨hp s file h, host.complaints_readSource _ s file h⟩
  unfold run
  refine .bind_any fun start => .bind hread fun reading hreading => ?_
  cases hresult : reading.result with
  | error e => exact .pure fun _ h => nomatch h
  | ok file =>
    obtain ⟨htext, hquiet⟩ := hreading file hresult
    simp only
    split
    · refine .pure fun o h => ⟨file.text, htext, ?_⟩
      cases h
      refine ⟨rfl, [], rfl, ?_⟩
      simp only [complaints_append, hquiet, complaints_extraction]
      simp [complaints, RunOutcome.warnings]
    · refine .bind_any fun opened => ?_
      cases opened with
      | error e => exact .pure fun _ h => nomatch h
      | ok _ =>
        refine .bind_any fun now => .bind_any fun attempts => .bind_any fun stop => ?_
        refine .pure fun o h => ⟨file.text, htext, ?_⟩
        cases h
        refine ⟨rfl, attempts.filterMap Attempt.failure?, rfl, ?_⟩
        simp only [complaints_append, hquiet, complaints_extraction, Attempt.complaints_flatMap]
        simp [complaints, RunOutcome.warnings, completion, report]

theorem nothingToExport_run (job : ExportJob) (host : Host (StateM σ)) {file : SourceFile}
    (hread : Always (host.readSource job.preferences.sourcePath) fun r => r.result = .ok file)
    (hempty : (job.library.extract file.text).build.model.isEmpty = true) :
    Always (job.run host) fun r => r.result = .ok (.nothingToExport
      (job.library.extract file.text).build.warnings [.idle, .scanning, .done]) := by
  unfold run
  refine .bind_any fun start => .bind hread fun reading hreading => ?_
  simp only [hreading, hempty, if_true]
  exact .pure rfl

end ExportJob

/-! ## The log of a run -/

theorem Notice.level_event (n : Notice) (time : Int) (file : Option String) :
    (n.event time file).level = n.level := by
  cases file <;> rfl

theorem Notice.isCollected_of_mem {job : ExportJob} {n : Notice}
    (h : n ∈ CommandLine.loggingReady :: job.notices) : n.isCollected = false := by
  simp only [ExportJob.notices, Registry.notices, List.mem_cons, List.mem_append, List.mem_map,
    List.not_mem_nil, or_false] at h
  rcases h with rfl | ⟨a, -, rfl⟩ | rfl | rfl <;> rfl

namespace CommandLine

variable (l : LogPreferences) (time : Int) (job : ExportJob) (ns : List Notice)

/-- The event of what a run has to say. -/
def eventOf (n : Notice) : LogEvent :=
  n.event time (if l.showsFile then some job.preferences.sourcePath else none)

/-- The log in front of a run. -/
def logBefore : Log :=
  ((Log.start l.showsFile time).addAll [loggingReady]).addAll job.notices

theorem logOf_eq : logOf l time job ns =
    (((logBefore l time job).enter job.preferences.sourcePath).addAll ns).leave := by
  simp only [logOf, logBefore, Log.afterAll, Log.after]

theorem events_logOf : (logOf l time job ns).events =
    (loggingReady :: job.notices).map (·.event time none) ++ ns.map (eventOf l time job) := by
  have hbefore : (logBefore l time job).events =
      (loggingReady :: job.notices).map (·.event time none) := by
    simp [logBefore, Log.addAll, Log.start, Log.eventOf]
  rw [logOf_eq, ← hbefore]
  rfl

theorem collector_logOf : (logOf l time job ns).collector =
    .ofFile job.preferences.sourcePath ((complaints ns).map (eventOf l time job)) := by
  have hbefore : (logBefore l time job).collector = .ofFile job.preferences.sourcePath [] := by
    rw [logBefore, Log.collector_addAll_of_none rfl, Log.collector_addAll_of_none rfl]
    rfl
  rw [logOf_eq]
  exact Log.collector_addAll rfl [] ns hbefore

/-- What only holds of complaints is counted among the complaints of the run. -/
theorem countP_events_logOf {p : LogEvent → Bool}
    (hp : ∀ e, p e = true → e.level.isComplaint = true) :
    (logOf l time job ns).events.countP p =
      ((complaints ns).map (eventOf l time job)).countP p := by
  have hquiet : ((loggingReady :: job.notices).map (·.event time none)).countP p = 0 := by
    rw [List.countP_eq_zero]
    intro e he h
    obtain ⟨n, hn, rfl⟩ := List.mem_map.1 he
    have hcollected := hp _ h
    rw [Notice.level_event] at hcollected
    exact Bool.false_ne_true ((Notice.isCollected_of_mem hn).symm.trans hcollected)
  rw [events_logOf, List.countP_append, hquiet, Nat.zero_add, List.countP_map, List.countP_map,
    complaints, List.countP_filter]
  refine congrArg (fun q => List.countP q ns) (funext fun n => ?_)
  have hn : p (eventOf l time job n) = true → n.isCollected = true := by
    intro h
    have hcollected := hp _ h
    rwa [eventOf, Notice.level_event] at hcollected
  show p (eventOf l time job n) = (p (eventOf l time job n) && n.isCollected)
  cases h : p (eventOf l time job n) with
  | false => rfl
  | true => exact (hn h).symm

/-! ## Counts -/

variable {job ns} {text : String} {o : RunOutcome}

/-- The number of warnings of a run. -/
def warned (job : ExportJob) (text : String) (o : RunOutcome) : Nat :=
  (job.library.scan text).metrics.dropped + o.warnings.length

theorem isDrop_eventOf {n : Notice} (hn : n ∈ (job.library.scan text).dropNotices) :
    (eventOf l time job n).isDrop = true :=
  Scan.isDrop_of_mem_dropNotices _ hn _ _

theorem isWarning_of_isDrop {e : LogEvent} (h : e.isDrop = true) : e.isWarning = true :=
  (Bool.and_eq_true_iff.1 h).1

theorem isWarning_eventOf (w : BuildWarning) : (eventOf l time job w.notice).isWarning = true := by
  rw [LogEvent.isWarning, eventOf, Notice.level_event]
  rfl

theorem isDrop_eventOf_warning (h : ExportJob.Complains job.library text ns o) {w : BuildWarning}
    (hw : w ∈ o.warnings) : (eventOf l time job w.notice).isDrop = false := by
  rw [h.warnings] at hw
  exact Build.isDrop_warning hw _ _

theorem isError_eventOf (f : AdapterFailure) : (eventOf l time job f.notice).isError = true := by
  rw [LogEvent.isError, eventOf, Notice.level_event]
  rfl

/-- The complaints of a run as events: warnings first, then errors. -/
theorem map_eventOf_complaints (h : ExportJob.Complains job.library text ns o) :
    ∃ ws es, (complaints ns).map (eventOf l time job) = ws ++ es ∧
      (∀ e ∈ ws, e.isWarning = true) ∧ (∀ e ∈ es, e.isError = true) ∧
      ws.countP (·.isDrop) = (job.library.scan text).metrics.dropped ∧
      ws.length = warned job text o ∧ es.length = o.failedAdapters.length := by
  obtain ⟨failed, hfailed, hns⟩ := h.notices
  have hdrops : ((job.library.scan text).dropNotices.map (eventOf l time job)).countP (·.isDrop) =
      (job.library.scan text).metrics.dropped := by
    rw [List.countP_eq_length.2 (List.forall_mem_map.2 fun n hn => isDrop_eventOf l time hn),
      List.length_map, Scan.length_dropNotices]
  have hskips : (o.warnings.map fun w => eventOf l time job w.notice).countP (·.isDrop) = 0 := by
    rw [List.countP_eq_zero, List.forall_mem_map]
    intro w hw
    rw [isDrop_eventOf_warning l time h hw]
    exact Bool.false_ne_true
  refine ⟨(job.library.scan text).dropNotices.map (eventOf l time job)
      ++ o.warnings.map fun w => eventOf l time job w.notice,
    failed.map fun f => eventOf l time job f.notice, ?_, ?_, ?_, ?_, ?_, ?_⟩
  · rw [hns, List.map_append, List.map_append, List.map_map, List.map_map]
    rfl
  · rw [List.forall_mem_append, List.forall_mem_map, List.forall_mem_map]
    exact ⟨fun n hn => isWarning_of_isDrop (isDrop_eventOf l time hn),
      fun w _ => isWarning_eventOf l time w⟩
  · rw [List.forall_mem_map]
    exact fun f _ => isError_eventOf l time f
  · rw [List.countP_append, hdrops, hskips, Nat.add_zero]
  · rw [List.length_append, List.length_map, List.length_map, Scan.length_dropNotices, warned]
  · rw [hfailed, List.length_map, List.length_map]

theorem counts_events (h : ExportJob.Complains job.library text ns o) :
    (logOf l time job ns).events.countP (·.isDrop) = (job.library.scan text).metrics.dropped ∧
      (logOf l time job ns).events.countP (·.isWarning) = warned job text o ∧
      (logOf l time job ns).events.countP (·.isError) = o.failedAdapters.length := by
  obtain ⟨ws, es, hsplit, hws, hes, hdrop, hlength, hfailed⟩ :=
    map_eventOf_complaints l time h
  have hwarning (e : LogEvent) (he : e.isWarning = true) : e.level.isComplaint = true := by
    rw [of_decide_eq_true he]
    rfl
  have herror (e : LogEvent) (he : e.isError = true) : e.level.isComplaint = true := by
    rw [of_decide_eq_true he]
    rfl
  have hno (p : LogEvent → Bool) (xs : List LogEvent) (hp : ∀ e ∈ xs, p e = false) :
      xs.countP p = 0 :=
    List.countP_eq_zero.2 fun e he => by rw [hp e he]; exact Bool.false_ne_true
  rw [countP_events_logOf l time job ns fun e he => hwarning e (isWarning_of_isDrop he),
    countP_events_logOf l time job ns hwarning, countP_events_logOf l time job ns herror, hsplit,
    List.countP_append, List.countP_append, List.countP_append, hdrop,
    List.countP_eq_length.2 hws, List.countP_eq_length.2 hes, hlength, hfailed]
  have hw := hno _ es fun e he => FileEvents.isWarning_of_isError (hes e he)
  have he := hno _ ws fun e he => FileEvents.isError_of_isWarning (hws e he)
  have hd : es.countP (·.isDrop) = 0 := hno _ es fun e he => by
    rw [LogEvent.isDrop, FileEvents.isWarning_of_isError (hes e he), Bool.false_and]
  rw [hd, hw, he]
  exact ⟨rfl, rfl, Nat.zero_add _⟩

theorem counts_summary (h : ExportJob.Complains job.library text ns o) :
    (logOf l time job ns).collector.summary.totalErrors =
        min o.failedAdapters.length (eventLimit - warned job text o) ∧
      (logOf l time job ns).collector.summary.totalWarnings =
        min (warned job text o) eventLimit
          + if eventLimit < warned job text o + o.failedAdapters.length then 1 else 0 := by
  obtain ⟨ws, es, hsplit, hws, hes, -, hlength, hfailed⟩ :=
    map_eventOf_complaints l time h
  rw [collector_logOf, Collector.totalErrors_ofFile, Collector.totalWarnings_ofFile, hsplit,
    FileEvents.countP_isError_kept hws hes, FileEvents.countP_isWarning_kept hws hes, hlength,
    hfailed]
  exact ⟨rfl, rfl⟩

/-! ## The status line -/

/-- The text of a status line. -/
def statusText (errors warnings : Nat) (o : RunOutcome) : String :=
  "export-tokens: " ++ toString errors ++ " error(s), " ++ toString warnings
    ++ " warning(s) logged, " ++ toString o.warnings.length ++ " value(s) skipped"
    ++ (if o.failedAdapters.isEmpty then ""
      else "; failed adapters: " ++ ", ".intercalate o.failedAdapters)

theorem statusLine?_eq (o : RunOutcome) (s : Collector.Summary) : statusLine? o s =
    if s.totalErrors = 0 ∧ s.totalWarnings = 0 ∧ o.warnings.length = 0 then none
    else some (statusText s.totalErrors s.totalWarnings o) := by
  have hcond : (!s.hasErrors && !s.hasWarnings && o.warnings.isEmpty) = true ↔
      s.totalErrors = 0 ∧ s.totalWarnings = 0 ∧ o.warnings.length = 0 := by
    simp [Collector.Summary.hasErrors, Collector.Summary.hasWarnings, and_assoc]
  rw [statusLine?]
  split
  · rename_i h
    rw [if_pos (hcond.1 h)]
  · rename_i h
    rw [if_neg (mt hcond.2 h)]
    rfl

/-- **The status line counts the complaints that are kept.** -/
theorem statusLine?_of_complains (h : ExportJob.Complains job.library text ns o) :
    statusLine? o (logOf l time job ns).collector.summary =
      if warned job text o = 0 ∧ o.failedAdapters.length = 0 then none
      else some (statusText (min o.failedAdapters.length (eventLimit - warned job text o))
        (min (warned job text o) eventLimit
          + if eventLimit < warned job text o + o.failedAdapters.length then 1 else 0) o) := by
  obtain ⟨herrors, hwarnings⟩ := counts_summary l time h
  have hlimit : eventLimit = 1000 := rfl
  have hskipped : o.warnings.length ≤ warned job text o := Nat.le_add_left _ _
  rw [statusLine?_eq, herrors, hwarnings]
  refine if_congr ?_ rfl rfl
  constructor
  · rintro ⟨hnoErrors, hnoWarnings, -⟩
    omega
  · rintro ⟨hnone, hfine⟩
    rw [hnone, hfine, if_neg (by omega)]
    omega

/-- The number of values and matches that a run has lost, going by its log and its outcome. -/
def lost (log : Log) (o : RunOutcome) : Nat :=
  log.events.countP (·.isDrop) + o.warnings.length

theorem lost_logOf (h : ExportJob.Complains job.library text ns o) :
    lost (logOf l time job ns) o = warned job text o := by
  rw [lost, (counts_events l time h).1, warned]

/-- What the status line of an outcome says, measured by the events in the log of the run. Where
these are more than are kept of a file, the line counts those that are kept, and one warning for the
others. -/
structure StatusTells (log : Log) (o : RunOutcome) : Prop where
  warnings : log.events.countP (·.isWarning) = lost log o
  errors : log.events.countP (·.isError) = o.failedAdapters.length
  none_iff : statusLine? o log.collector.summary = none ↔
    lost log o = 0 ∧ o.failedAdapters = []
  exact : 0 < lost log o + o.failedAdapters.length →
    lost log o + o.failedAdapters.length ≤ eventLimit →
      statusLine? o log.collector.summary = some (statusText o.failedAdapters.length (lost log o) o)
  capped : eventLimit < lost log o + o.failedAdapters.length →
    statusLine? o log.collector.summary =
      some (statusText (min o.failedAdapters.length (eventLimit - lost log o))
        (min (lost log o) eventLimit + 1) o)

/-- **The status line of a run tells what was lost and who failed**, up to the number of events that
are kept. -/
theorem statusTells_run (l : LogPreferences) (time : Int) (job : ExportJob) {σ : Type}
    (host : Host (StateM σ)) (s : σ) {o : RunOutcome}
    (h : ((job.run host).run s).1.result = .ok o) :
    StatusTells (logOf l time job ((job.run host).run s).1.notices) o := by
  obtain ⟨text, -, hcomplains⟩ :=
    job.complains_run host (p := fun _ => True) (fun _ _ _ => trivial) s o h
  obtain ⟨-, hwarning, herror⟩ := counts_events l time hcomplains
  have hline := statusLine?_of_complains l time hcomplains
  rw [← lost_logOf l time hcomplains] at hwarning hline
  refine ⟨hwarning, herror, ?_, fun hsome hfew => ?_, fun hmany => ?_⟩
  · rw [hline, ite_eq_left_iff, ← List.length_eq_zero_iff]
    simp only [reduceCtorEq, imp_false, not_not]
  · rw [hline, if_neg (by omega), if_neg (by omega), Nat.min_eq_left (by omega),
      Nat.min_eq_left (by omega), Nat.add_zero]
  · rw [hline, if_neg (by omega), if_pos hmany]

theorem exists_of_toOption_map {ε α β : Type} {f : α → β} {b : β} {r : Except ε α}
    (h : r.toOption.map f = some b) : ∃ a, r = .ok a ∧ f a = b := by
  cases r with
  | error e => cases h
  | ok a => exact ⟨a, rfl, Option.some.inj h⟩

/-- A host whose source has a number that cannot be read, and which refuses a document. -/
def noisyHost : Host (StateM Nat) :=
  { ExportJob.sampleHost with
    readText := fun _ => pure (.ok "double get a => .;\ndouble get b => 1;") }

/-- A job with a rule for numbers and an adapter without a document. -/
def noisyJob : ExportJob :=
  { ExportJob.sampleJob with
    library := ⟨[⟨"size", .spacing, .getter "double" .amount, .numeric, .any⟩]⟩ }

theorem statusTells_run_noisy :
    ∃ o, ((noisyJob.run noisyHost).run 7).1.result = .ok o ∧
      o.warnings.length = 1 ∧ o.failedAdapters = ["b", "c"] ∧
      StatusTells (logOf ⟨false, .info, true⟩ 0 noisyJob ((noisyJob.run noisyHost).run 7).1.notices)
        o := by
  have hvalues : ((noisyJob.run noisyHost).run 7).1.result.toOption.map
      (fun o => (o.warnings.length, o.failedAdapters)) = some (1, ["b", "c"]) := by
    decide +kernel
  obtain ⟨o, hresult, hcounts⟩ := exists_of_toOption_map hvalues
  obtain ⟨hskipped, hfailed⟩ := Prod.mk.inj hcounts
  exact ⟨o, hresult, hskipped, hfailed,
    statusTells_run ⟨false, .info, true⟩ 0 _ noisyHost 7 hresult⟩

/-! ## More than is kept -/

/-- A name that is too long. -/
def longName : String := String.ofList (List.replicate 256 'a')

theorem isName_replicate {n : Nat} (h : n ≠ 0) :
    Text.IsName (String.ofList (List.replicate n 'a')).toList := by
  rw [String.toList_ofList]
  refine ⟨by rwa [Ne, List.replicate_eq_nil_iff], fun c hc => ?_⟩
  rw [List.eq_of_mem_replicate hc]
  decide

theorem sum_longCurves {f : List Fate → Nat} (hf : f [] = 0) (n : Nat) :
    (Library.standard.rules.map fun r => f (r.fates (Rule.curveLines n longName).toList)).sum =
      f (List.replicate n .tooLong) := by
  have hlong : ¬ longName.utf8ByteSize ≤ nameLimit := by decide +kernel
  have hname : Text.IsName longName.toList := isName_replicate (by decide)
  rw [Rule.sum_curveLines hf hname, if_neg hlong]

theorem hits_longCurves (n : Nat) :
    (Library.standard.scan (Rule.curveLines n longName)).hits = [] := by
  rw [← List.length_eq_zero_iff, Library.length_hits_scan]
  simp only [Rule.hits_findings]
  rw [sum_longCurves (f := fun fs => min hitLimit (fs.count .accepted)) rfl, List.count_replicate]
  rfl

theorem dropped_longCurves (n : Nat) :
    (Library.standard.scan (Rule.curveLines n longName)).metrics.dropped = n := by
  have hcount : (List.replicate n Fate.tooLong).count .accepted = 0 := by
    rw [List.count_replicate]
    rfl
  have hall : upTo (· == .accepted) (hitLimit + 1) (List.replicate n Fate.tooLong) =
      List.replicate n .tooLong :=
    upTo_eq_self (Nat.lt_of_le_of_lt (Nat.le_of_eq hcount) (Nat.zero_lt_succ _))
  rw [Scan.dropped_metrics, Library.countP_findings_scan]
  simp only [Rule.dropped_findings, Rule.countedFates]
  rw [sum_longCurves (f := fun fs => (upTo (· == .accepted) (hitLimit + 1) fs).count .tooLong
      + if hitLimit < fs.count .accepted then 1 else 0) rfl, hall, hcount,
    if_neg (Nat.not_lt_zero _), List.count_replicate_self, Nat.add_zero]

/-- A host with one source and nothing else. -/
def sourceHost (size : Nat) (text : String) : Host (StateM Unit) where
  examine _ := pure (.file "/app/tokens.dart" size)
  readText _ := pure (.ok text)
  makeDirectories _ := pure (.ok ())
  writeText _ _ := pure (.ok ())
  now := pure ⟨0, 0⟩
  clock := pure 0

/-- The outcome of a run that found nothing at all. -/
def nothingFound : RunOutcome := .nothingToExport [] [.idle, .scanning, .done]

theorem readSource_sourceHost {path : String} (hpath : path ≠ "") {size : Nat}
    (hsize : size ≤ sourceLimit) (text : String) :
    Always ((sourceHost size text).readSource path) fun r =>
      r.result = .ok ⟨"/app/tokens.dart", size, text⟩ := by
  unfold Host.readSource
  refine .bind_any fun start => ?_
  simp only [hpath, if_false]
  refine .bind (p := fun x => x = .file "/app/tokens.dart" size) (fun _ => rfl) ?_
  rintro _ rfl
  simp only [Nat.not_lt.2 hsize, if_false]
  refine .bind (p := fun x => x = .ok text) (fun _ => rfl) ?_
  rintro _ rfl
  exact .bind_any fun stop => .pure rfl

theorem run_sourceHost {job : ExportJob} (hpath : job.preferences.sourcePath ≠ "") {size : Nat}
    (hsize : size ≤ sourceLimit) {text : String} (hnone : (job.library.scan text).hits = []) :
    ((job.run (sourceHost size text)).run ()).1.result = .ok nothingFound ∧
      ExportJob.Complains job.library text ((job.run (sourceHost size text)).run ()).1.notices
        nothingFound := by
  have hread := readSource_sourceHost hpath hsize text
  have hbuild : (job.library.extract text).build = ⟨[]⟩ := by
    rw [Library.extract, hnone]
    rfl
  have hresult : ((job.run (sourceHost size text)).run ()).1.result = .ok nothingFound := by
    have hrun := job.nothingToExport_run (sourceHost size text) hread (by rw [hbuild]; rfl) ()
    rw [hbuild] at hrun
    exact hrun
  have htext : Always ((sourceHost size text).readSource job.preferences.sourcePath) fun r =>
      ∀ file, r.result = .ok file → file.text = text :=
    fun s file h => congrArg SourceFile.text (Except.ok.inj (h.symm.trans (hread s)))
  obtain ⟨_, rfl, hcomplains⟩ :=
    job.complains_run (sourceHost size text) (p := (· = text)) htext () _ hresult
  exact ⟨hresult, hcomplains⟩

/-- A job whose source drops more matches than a file keeps events. -/
def floodJob : ExportJob := .standard ⟨"tokens.dart", "out", "Tokens", "1.0", false, true⟩

def floodHost : Host (StateM Unit) := sourceHost 280560 (Rule.curveLines 1002 longName)

/-- Of more complaints than a file keeps, two too many count as one. -/
theorem statusLine?_flood :
    ((floodJob.run floodHost).run ()).1.result = .ok nothingFound ∧
      lost (logOf ⟨false, .error, true⟩ 0 floodJob ((floodJob.run floodHost).run ()).1.notices)
        nothingFound = 1002 ∧
      statusLine? nothingFound (logOf ⟨false, .error, true⟩ 0 floodJob
          ((floodJob.run floodHost).run ()).1.notices).collector.summary =
        some "export-tokens: 0 error(s), 1001 warning(s) logged, 0 value(s) skipped" := by
  unfold floodHost
  have hlibrary : floodJob.library = .standard := by
    rw [floodJob, ExportJob.standard, ExportJob.withRegistry]
  have hnone : (floodJob.library.scan (Rule.curveLines 1002 longName)).hits = [] := by
    rw [hlibrary, hits_longCurves]
  have hdropped : warned floodJob (Rule.curveLines 1002 longName) nothingFound = 1002 := by
    rw [warned, hlibrary, dropped_longCurves]
    rfl
  have hpath : floodJob.preferences.sourcePath ≠ "" := by decide
  have hsize : 280560 ≤ sourceLimit := by decide
  obtain ⟨hresult, hcomplains⟩ := run_sourceHost hpath hsize hnone
  have hline := statusLine?_of_complains ⟨false, .error, true⟩ 0 hcomplains
  rw [hdropped] at hline
  exact ⟨hresult, (lost_logOf _ 0 hcomplains).trans hdropped, hline.trans (by decide)⟩

end CommandLine

end DesignTokens
