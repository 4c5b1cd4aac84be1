import DesignTokens.Proofs.Run.Traces

/-!
# Codes and the ends of runs

The registry of codes says which problems end a run. What a run does is decided elsewhere, where its
steps are put together. The two agree about sources, documents and writes. They do not agree about
output directories that are refused, which end a run although their code is one to go on after, nor
about the errors of registrations, which end no run that an adapter reports them to.
-/

namespace DesignTokens

/-! ## Codes of errors -/

theorem SourceError.fatal_code (e : SourceError) :
    e.code.halts = true ∧ e.code.recoverable = false := by
  cases e <;> exact ⟨rfl, rfl⟩

namespace ExportError

/-- The errors that a registry answers with. -/
def ofRegistration : ExportError → Bool
  | duplicateAdapter _ | duplicateFileName _ _ _ => true
  | serialization _ _ | write _ _ _ | outputDirectory _ _ => false

theorem halts_code (e : ExportError) : e.code.halts = e.ofRegistration := by
  cases e <;> rfl

end ExportError

theorem Adapter.produce_eq_error_iff {a : Adapter} {m : TokenModel} {ctx : DocumentContext}
    {e : ExportError} : a.produce m ctx = .error e ↔ a.render m ctx = .error e := by
  unfold produce
  cases a.render m ctx <;> simp

namespace ExportJob

variable {σ : Type} {job : ExportJob} {host : Host (StateM σ)} {s : σ}

/-! ## Failures of adapters -/

section

variable {dir : String} {m : TokenModel} {ctx : DocumentContext} {as : List Adapter}

theorem mem_failures {f : AdapterFailure} :
    f ∈ failures as m ctx ↔ ∃ a ∈ as, ∃ e, a.render m ctx = .error e ∧ f = ⟨a.id, e⟩ := by
  rw [failures, List.mem_filterMap]
  refine exists_congr fun a => and_congr_right fun _ => ?_
  unfold failure?
  simp only [← Adapter.produce_eq_error_iff]
  cases a.produce m ctx with
  | ok d => simp
  | error e => simp [eq_comm]

/-- A host's part in a failure is a write that a run goes on after, so only adapters can give a
failure with a code that ends runs. -/
theorem AttemptedAll.passing_failed_iff {xs : List Attempt} {ws : List WriteRecord}
    (h : AttemptedAll dir m ctx as xs ws) :
    (∀ f ∈ xs.filterMap Attempt.failure?, f.error.code.halts = false) ↔
      ¬∃ a ∈ as, ∃ e, a.render m ctx = .error e ∧ e.ofRegistration = true := by
  constructor
  · rintro hpass ⟨a, ha, e, herror, hregistration⟩
    have hhalts := hpass ⟨a.id, e⟩
      ((h.mem_failed _).2 (.inl (mem_failures.2 ⟨a, ha, e, herror, rfl⟩)))
    rw [ExportError.halts_code, hregistration] at hhalts
    cases hhalts
  · intro hnone f hf
    rw [ExportError.halts_code]
    rcases (h.mem_failed f).1 hf with hf | ⟨_, _, e, _, rfl⟩
    · obtain ⟨a, ha, e, herror, rfl⟩ := mem_failures.1 hf
      exact Bool.eq_false_iff.2 fun hregistration => hnone ⟨a, ha, e, herror, hregistration⟩
    · rfl

end

/-! ## Ends of runs -/

/-- What the registry of codes says agrees with the end of a run: an error of the run is one that
ends runs and is not recovered from, and a completed run went on after its failures. -/
def EndsAsRegistered : Except RunError RunOutcome → Prop
  | .error e => e.code.halts = true ∧ e.code.recoverable = false
  | .ok (.nothingToExport _ _) => True
  | .ok (.completed report) => ∀ f ∈ report.failed, f.error.code.halts = false

instance : DecidablePred EndsAsRegistered
  | .error e => inferInstanceAs (Decidable (e.code.halts = true ∧ e.code.recoverable = false))
  | .ok (.nothingToExport _ _) => inferInstanceAs (Decidable True)
  | .ok (.completed report) =>
    inferInstanceAs (Decidable (∀ f ∈ report.failed, f.error.code.halts = false))

/-- A run has tokens, and no directory for its documents. -/
def OutputRefused (job : ExportJob) (host : Host (StateM σ)) (s : σ) : Prop :=
  ∃ file s₂ e s₃, job.Reaches host s file s₂ ∧
    host.makeDirectories job.preferences.outputDir s₂ = (.error e, s₃)

/-- An adapter is asked for its document, and answers with the error of a registration. -/
def RegistrationReported (job : ExportJob) (host : Host (StateM σ)) (s : σ) : Prop :=
  ∃ file s₂ s₃, job.Reaches host s file s₂ ∧
    host.makeDirectories job.preferences.outputDir s₂ = (.ok (), s₃) ∧
    ∃ a ∈ job.registry.adapters, ∃ e,
      a.render (job.library.extract file.text).build.model (job.context (host.now s₃).1) = .error e ∧
        e.ofRegistration = true

section

variable {file : SourceFile} {s₂ s₃ : σ}

theorem Reaches.unique {file' : SourceFile} {s₂' : σ} (h : job.Reaches host s file s₂)
    (h' : job.Reaches host s file' s₂') : file' = file ∧ s₂' = s₂ := by
  obtain ⟨ns, hread⟩ := h.read
  obtain ⟨ns', hread'⟩ := h'.read
  rw [hread] at hread'
  cases hread'
  exact ⟨rfl, rfl⟩

theorem outputRefused_iff (h : job.Reaches host s file s₂) :
    job.OutputRefused host s ↔
      ∃ e s₃, host.makeDirectories job.preferences.outputDir s₂ = (.error e, s₃) := by
  constructor
  · rintro ⟨file', s₂', e, s₃, h', hdir⟩
    obtain ⟨rfl, rfl⟩ := h.unique h'
    exact ⟨e, s₃, hdir⟩
  · rintro ⟨e, s₃, hdir⟩
    exact ⟨file, s₂, e, s₃, h, hdir⟩

theorem registrationReported_iff (h : job.Reaches host s file s₂)
    (hdir : host.makeDirectories job.preferences.outputDir s₂ = (.ok (), s₃)) :
    job.RegistrationReported host s ↔ ∃ a ∈ job.registry.adapters, ∃ e,
      a.render (job.library.extract file.text).build.model (job.context (host.now s₃).1) = .error e ∧
        e.ofRegistration = true := by
  constructor
  · rintro ⟨file', s₂', s₃', h', hdir', hreported⟩
    obtain ⟨rfl, rfl⟩ := h.unique h'
    rw [hdir] at hdir'
    cases hdir'
    exact hreported
  · exact fun hreported => ⟨file, s₂, s₃, h, hdir, hreported⟩

/-- Without a source that has tokens nothing comes to a directory or to an adapter. -/
theorem not_refused_nor_reported (hnever : ∀ file s₂, ¬job.Reaches host s file s₂) :
    ¬job.OutputRefused host s ∧ ¬job.RegistrationReported host s :=
  ⟨fun ⟨file, s₂, _, _, hreaches, _⟩ => hnever file s₂ hreaches,
    fun ⟨file, s₂, _, hreaches, _⟩ => hnever file s₂ hreaches⟩

end

theorem not_endsAsRegistered_of_directory (dir message : String) :
    ¬EndsAsRegistered (.error (.outputUnavailable (.outputDirectory dir message))) := by
  rintro ⟨hhalts, -⟩
  rw [RunError.code, ExportError.halts_code] at hhalts
  cases hhalts

/-- **The registry of codes agrees with a run exactly if the run is not refused its output directory
and no adapter reports the error of a registration.** -/
theorem endsAsRegistered_iff (job : ExportJob) (host : Host (StateM σ)) (s : σ) :
    EndsAsRegistered ((job.run host).run s).1.result ↔
      ¬job.OutputRefused host s ∧ ¬job.RegistrationReported host s := by
  have hcourse := job.run_course host s
  generalize ((job.run host).run s).1.result = result at hcourse
  generalize ((job.run host).run s).2 = s' at hcourse
  cases hcourse with
  | @unreadable s₁ s₂ start e ns hclock hread =>
    refine iff_of_true e.fatal_code (not_refused_nor_reported fun file s₂ hreaches => ?_)
    obtain ⟨ns', hread'⟩ := hreaches.read
    rw [hclock, hread] at hread'
    cases hread'
  | @empty s₁ s₂ start file ns hclock hread hmodel =>
    refine iff_of_true trivial (not_refused_nor_reported fun file' s₂ hreaches => ?_)
    obtain ⟨ns', hread'⟩ := hreaches.read
    rw [hclock, hread] at hread'
    cases hread'
    rw [hreaches.tokens] at hmodel
    cases hmodel
  | @refused s₁ s₂ _ start file ns e hclock hread hmodel hdir =>
    have hreaches := Reaches.of_read hclock hread hmodel
    refine iff_of_false (not_endsAsRegistered_of_directory _ _) fun h => h.1 ?_
    exact (outputRefused_iff hreaches).2 ⟨e, _, hdir⟩
  | @completed s₁ s₂ s₃ s₄ s₅ s₆ start stop file ns t xs hclock hread hmodel hdir hnow hattempts
      hstop =>
    have hreaches := Reaches.of_read hclock hread hmodel
    have hready : ¬job.OutputRefused host s := by
      rw [outputRefused_iff hreaches, hdir]
      rintro ⟨e, s₃', heq⟩
      cases heq
    obtain ⟨xs', s₅', ws, hattempts', hxs, -⟩ := attemptAll_writes host job.preferences.outputDir
      (job.library.extract file.text).build.model (job.context t) job.registry.adapters s₄
    obtain ⟨rfl, rfl⟩ := Prod.mk.inj (hattempts.symm.trans hattempts')
    rw [and_iff_right hready, registrationReported_iff hreaches hdir, hnow]
    exact hxs.passing_failed_iff

/-- The working directory of `sampleFiles`, but with a file in place of the output directory. -/
def blockedFiles : FileSystem where
  base := "/app"
  top := [("tokens.dart", .file (.text "Color get ink => const Color(0xFF336699);")),
    ("out", .file (.text "no directory"))]

/-- A job whose adapter answers as a registry does. -/
def misfiledJob : ExportJob :=
  { sampleJob with
    registry := ⟨[⟨"a", "a.txt", "", fun _ _ => .error (.duplicateAdapter "a")⟩]⟩ }

/-- A run that ends for want of its output directory has the code of a problem to go on after, and a
run goes on after an error with the code of a problem that ends runs. -/
theorem ends_against_registry :
    ((sampleJob.run (FileSystem.host ⟨0, 0⟩)).run blockedFiles).1.result
        = .error (.outputUnavailable (.outputDirectory "out" "File exists (os error 17)")) ∧
      LogCode.outputDirectoryFailed.halts = false ∧
      LogCode.outputDirectoryFailed.recoverable = true ∧
      ¬EndsAsRegistered ((sampleJob.run (FileSystem.host ⟨0, 0⟩)).run blockedFiles).1.result ∧
      ¬EndsAsRegistered ((misfiledJob.run (FileSystem.host ⟨0, 0⟩)).run sampleFiles).1.result := by
  decide +kernel

end ExportJob

end DesignTokens
