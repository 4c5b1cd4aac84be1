import DesignTokens.Log.Notice

/-!
# What the log keeps of a file

While a file is being processed, errors and warnings are collected under it. The collector keeps the
first thousand of them and one marker for all others. As long as there is no marker, its counts are
those of the events.
-/

namespace DesignTokens

/-! ## One file -/

/-- What is kept of the events of a file. -/
def FileEvents.kept (es : List LogEvent) : List LogEvent :=
  es.take eventLimit ++ if eventLimit < es.length then [overflowMarker] else []

namespace FileEvents

theorem kept_of_le {es : List LogEvent} (h : es.length ≤ eventLimit) : kept es = es := by
  rw [kept, List.take_of_length_le h, if_neg (Nat.not_lt.2 h), List.append_nil]

theorem kept_of_lt {es : List LogEvent} (h : eventLimit < es.length) :
    kept es = es.take eventLimit ++ [overflowMarker] := by
  rw [kept, if_pos h]

theorem record_kept (path : String) (es : List LogEvent) (e : LogEvent) :
    record ⟨path, kept es⟩ e = ⟨path, kept (es ++ [e])⟩ := by
  have hlength : (es ++ [e]).length = es.length + 1 := by simp
  rcases Nat.lt_trichotomy es.length eventLimit with hlt | heq | hgt
  · have hbefore : kept es = es := kept_of_le (by omega)
    have hafter : kept (es ++ [e]) = es ++ [e] := kept_of_le (by omega)
    simp only [hbefore, hafter, record, hlt, if_true]
  · -- the file is full, and the event becomes the marker
    have hbefore : kept es = es := kept_of_le (by omega)
    have hafter : kept (es ++ [e]) = es ++ [overflowMarker] := by
      rw [kept_of_lt (by omega), ← heq, List.take_left]
    simp only [hbefore, hafter, record, heq, Nat.lt_irrefl, if_false, if_true]
  · have hafter : kept (es ++ [e]) = kept es := by
      rw [kept_of_lt (by omega), kept_of_lt hgt, List.take_append_of_le_length (by omega)]
    have hkept : (kept es).length = eventLimit + 1 := by
      rw [kept_of_lt hgt, List.length_append, List.length_take, List.length_singleton]
      omega
    simp only [hafter, record, hkept]
    rw [if_neg (by omega), if_neg (by omega)]

end FileEvents

/-! ## A collector with one file -/

namespace Collector

/-- A collector after the events of a file, and of no other. -/
def ofFile (path : String) (es : List LogEvent) : Collector :=
  ⟨if es.isEmpty then [] else [⟨path, FileEvents.kept es⟩]⟩

theorem same_self (path : String) : Path.same path path = true := by
  simp [Path.same]

theorem record_ofFile (path : String) (es : List LogEvent) (e : LogEvent) :
    (ofFile path es).record path e = ofFile path (es ++ [e]) := by
  have hfirst : FileEvents.record ⟨path, []⟩ e = ⟨path, FileEvents.kept [e]⟩ :=
    FileEvents.record_kept path [] e
  have hrecord := FileEvents.record_kept path es e
  cases es with
  | nil => simp [ofFile, record, recordIn, hfirst]
  | cons e' es =>
    simp only [ofFile, List.isEmpty_cons, List.cons_append, Bool.false_eq_true, if_false, record,
      recordIn, same_self, if_true] at hrecord ⊢
    rw [hrecord]

theorem totalErrors_ofFile (path : String) (es : List LogEvent) :
    (ofFile path es).summary.totalErrors = (FileEvents.kept es).countP (·.isError) := by
  cases es with
  | nil => rfl
  | cons e es => simp [ofFile, summary, FileEvents.errors, List.countP_eq_length_filter]

theorem totalWarnings_ofFile (path : String) (es : List LogEvent) :
    (ofFile path es).summary.totalWarnings = (FileEvents.kept es).countP (·.isWarning) := by
  cases es with
  | nil => rfl
  | cons e es => simp [ofFile, summary, FileEvents.warnings, List.countP_eq_length_filter]

end Collector

/-! ## Counts of what is kept -/

namespace FileEvents

variable {ws es : List LogEvent}

theorem countP_take_of_forall {p : LogEvent → Bool} (h : ∀ e ∈ es, p e = true) (n : Nat) :
    (es.take n).countP p = min n es.length := by
  rw [List.countP_eq_length.2 fun e he => h e (List.mem_of_mem_take he), List.length_take]

theorem countP_take_of_forall_not {p : LogEvent → Bool} (h : ∀ e ∈ es, p e = false) (n : Nat) :
    (es.take n).countP p = 0 := by
  rw [List.countP_eq_zero]
  intro e he
  rw [h e (List.mem_of_mem_take he)]
  exact Bool.false_ne_true

theorem isError_of_isWarning {e : LogEvent} (h : e.isWarning = true) : e.isError = false := by
  rw [LogEvent.isWarning, decide_eq_true_eq] at h
  rw [LogEvent.isError, h]
  rfl

theorem isWarning_of_isError {e : LogEvent} (h : e.isError = true) : e.isWarning = false := by
  rw [LogEvent.isError, decide_eq_true_eq] at h
  rw [LogEvent.isWarning, h]
  rfl

-- Warnings come first here, so errors are what is kept of the rest.
theorem countP_isError_kept (hw : ∀ e ∈ ws, e.isWarning = true) (he : ∀ e ∈ es, e.isError = true) :
    (kept (ws ++ es)).countP (·.isError) = min es.length (eventLimit - ws.length) := by
  have hnone := countP_take_of_forall_not (fun e h => isError_of_isWarning (hw e h)) eventLimit
  have hall := countP_take_of_forall he (eventLimit - ws.length)
  have hmarker : (if eventLimit < (ws ++ es).length then [overflowMarker] else []).countP
      (·.isError) = 0 := by
    split <;> rfl
  rw [kept, List.countP_append, hmarker, List.take_append, List.countP_append, hnone, hall]
  omega

theorem countP_isWarning_kept (hw : ∀ e ∈ ws, e.isWarning = true)
    (he : ∀ e ∈ es, e.isError = true) : (kept (ws ++ es)).countP (·.isWarning) =
      min ws.length eventLimit + if eventLimit < ws.length + es.length then 1 else 0 := by
  have hall := countP_take_of_forall hw eventLimit
  have hnone := countP_take_of_forall_not (fun e h => isWarning_of_isError (he e h))
    (eventLimit - ws.length)
  have hmarker : (if eventLimit < (ws ++ es).length then [overflowMarker] else []).countP
      (·.isWarning) = if eventLimit < ws.length + es.length then 1 else 0 := by
    rw [List.length_append]
    split <;> rfl
  rw [kept, List.countP_append, hmarker, List.take_append, List.countP_append, hall, hnone]
  omega

end FileEvents

/-! ## Notices -/

namespace Log

theorem collector_addAll {log : Log} {path : String} (hfile : log.file = some path)
    (es : List LogEvent) (ns : List Notice) (hc : log.collector = .ofFile path es) :
    (log.addAll ns).collector =
      .ofFile path (es ++ (ns.filter (·.isCollected)).map log.eventOf) := by
  have hstep (c : Collector) (n : Notice) :
      log.collect n c = if n.isCollected then c.record path (log.eventOf n) else c := by
    rw [collect, hfile]
  show ns.foldl (fun c n => log.collect n c) log.collector = _
  simp only [hstep]
  rw [hc]
  clear hc
  induction ns generalizing es with
  | nil => simp
  | cons n ns ih =>
    rw [List.foldl_cons]
    cases h : n.isCollected with
    | false => simp [h, ih]
    | true => simp [h, ih, Collector.record_ofFile]

-- Outside of files nothing is collected.
theorem collector_addAll_of_none {log : Log} (hfile : log.file = none) (ns : List Notice) :
    (log.addAll ns).collector = log.collector := by
  have hstep (c : Collector) (n : Notice) : log.collect n c = c := by rw [collect, hfile]
  show ns.foldl (fun c n => log.collect n c) log.collector = _
  simp only [hstep]
  induction ns with
  | nil => rfl
  | cons n ns ih => exact ih

end Log

end DesignTokens
