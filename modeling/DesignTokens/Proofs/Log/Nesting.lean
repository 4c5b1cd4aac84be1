import DesignTokens.Log.Notice
import Mathlib.Data.List.Basic

/-!
# Blocks in programs that log

A program sets the file that is being processed, clears it, logs notices, and takes steps in blocks
that have a file of their own. Blocks can stand in blocks. The file of a block is there up to the
first block inside of it: a block does not bring back the file that it took the place of, it leaves
none. So each notice is told where it stands, and from that it follows which file its event shows
and under which file it is collected.
-/

namespace DesignTokens

/-! ## Where notices stand -/

/-- A notice of a program, and what the program around it says about the file it belongs to. -/
structure Place where
  /-- The file of the innermost block around the notice; outside of all blocks, the file that was
  being processed at the start. -/
  block : Option String
  /-- What the last step of that block in front of the notice made of the file, if one touched
  it. -/
  change : Option (Option String)
  notice : Notice

/-- The file that is being processed at a place. -/
def Place.current (p : Place) : Option String := p.change.getD p.block

namespace LogStep

/-- What a step makes of the file that is being processed; notices leave it alone. -/
def change? : LogStep → Option (Option String)
  | enter path => some (some path)
  | leave | inside _ _ => some none
  | note _ => none

mutual

def places (block : Option String) (change : Option (Option String)) : LogStep → List Place
  | enter _ | leave => []
  | note notices => notices.map fun n => ⟨block, change, n⟩
  | inside path steps => placesAll (some path) none steps

/-- The notices of steps in their order, each with its place. -/
def placesAll (block : Option String) (change : Option (Option String)) : List LogStep → List Place
  | [] => []
  | step :: rest => places block change step ++ placesAll block (step.change?.or change) rest

end

/-- What steps make of the file that is being processed. -/
def changeAll (change : Option (Option String)) (steps : List LogStep) : Option (Option String) :=
  steps.foldl (fun c step => step.change?.or c) change

mutual

/-- Whether the file is set by blocks only. -/
def isScoped : LogStep → Bool
  | enter _ | leave => false
  | note _ => true
  | inside _ steps => areScoped steps

def areScoped : List LogStep → Bool
  | [] => true
  | step :: rest => isScoped step && areScoped rest

end

end LogStep

/-! ## What a program does to the log -/

namespace Log

def withFile (log : Log) (file : Option String) : Log := { log with file := file }

/-- Takes up a notice at its place. -/
def addAt (log : Log) (p : Place) : Log := (log.withFile p.current).add p.notice

/-- Takes up notices at their places. -/
def addPlaces (log : Log) (ps : List Place) : Log := ps.foldl addAt log

theorem addPlaces_append (log : Log) (ps qs : List Place) :
    log.addPlaces (ps ++ qs) = (log.addPlaces ps).addPlaces qs :=
  List.foldl_append

-- A place says which file it needs, so the file before it does not matter.
theorem withFile_addPlaces (log : Log) (file file' : Option String) (ps : List Place) :
    ((log.withFile file).addPlaces ps).withFile file' = (log.addPlaces ps).withFile file' := by
  cases ps <;> rfl

theorem addAll_cons (log : Log) (n : Notice) (ns : List Notice) :
    log.addAll (n :: ns) = (log.add n).addAll ns := by
  simp only [add, addAll, List.map_cons, List.map_nil, List.foldl_cons, List.foldl_nil,
    List.append_assoc, List.singleton_append]
  rfl

theorem addAll_eq {log : Log} {block : Option String} {change : Option (Option String)}
    (h : log.file = change.getD block) (ns : List Notice) :
    log.addAll ns =
      (log.addPlaces (ns.map fun n => ⟨block, change, n⟩)).withFile (change.getD block) := by
  rw [← h]
  induction ns generalizing log with
  | nil => simp [addAll, addPlaces, withFile]
  | cons n ns ih =>
    have hplace : log.addAt ⟨block, change, n⟩ = log.add n := by
      rw [addAt, Place.current, ← h, withFile]
    have hfile : (log.add n).file = change.getD block := h
    rw [addAll_cons, ih hfile, List.map_cons, addPlaces, addPlaces, List.foldl_cons, hplace]
    rfl

mutual

theorem after_eq {log : Log} {block : Option String} {change : Option (Option String)}
    (h : log.file = change.getD block) (step : LogStep) :
    log.after step = (log.addPlaces (step.places block change)).withFile
      ((step.change?.or change).getD block) := by
  cases step with
  | enter path => rfl
  | leave => rfl
  | note ns => exact addAll_eq h ns
  | inside path steps =>
    have hfile : (log.enter path).file = Option.getD none (some path) := rfl
    rw [Log.after, afterAll_eq hfile steps]
    exact withFile_addPlaces log (some path) none _

theorem afterAll_eq {log : Log} {block : Option String} {change : Option (Option String)}
    (h : log.file = change.getD block) (steps : List LogStep) :
    log.afterAll steps = (log.addPlaces (LogStep.placesAll block change steps)).withFile
      ((LogStep.changeAll change steps).getD block) := by
  cases steps with
  | nil =>
    rw [LogStep.changeAll, List.foldl_nil, ← h]
    rfl
  | cons step rest =>
    rw [Log.afterAll, afterAll_eq (congrArg Log.file (after_eq h step)) rest, after_eq h step,
      LogStep.placesAll, addPlaces_append, withFile_addPlaces]
    rfl

end

/-! ## Events and collected events -/

/-- The event that a notice becomes at its place. -/
def eventAt (log : Log) (p : Place) : LogEvent :=
  p.notice.event log.time (if log.showsFile then p.current else none)

/-- What is collected of a notice at its place, and under which file. -/
def recordedAt (log : Log) (p : Place) : Option (String × LogEvent) :=
  if p.notice.isCollected then p.current.map fun file => (file, log.eventAt p) else none

theorem events_addPlaces (log : Log) (ps : List Place) :
    (log.addPlaces ps).events = log.events ++ ps.map log.eventAt := by
  induction ps generalizing log with
  | nil => exact (List.append_nil _).symm
  | cons p ps ih =>
    have hfirst : (log.addAt p).events = log.events ++ [log.eventAt p] := rfl
    have hrest : (log.addAt p).eventAt = log.eventAt := rfl
    rw [addPlaces, List.foldl_cons, ← addPlaces, ih, hfirst, hrest, List.append_assoc]
    rfl

theorem collector_addAt (log : Log) (p : Place) : (log.addAt p).collector =
    (log.recordedAt p).toList.foldl (fun c x => c.record x.1 x.2) log.collector := by
  have hevent : (log.withFile p.current).eventOf p.notice = log.eventAt p := rfl
  have hfile : (log.withFile p.current).file = p.current := rfl
  show (log.withFile p.current).collect p.notice log.collector = _
  rw [collect, recordedAt, hevent, hfile]
  generalize log.eventAt p = e
  cases p.notice.isCollected <;> cases p.current <;> rfl

theorem collector_addPlaces (log : Log) (ps : List Place) : (log.addPlaces ps).collector =
    (ps.filterMap log.recordedAt).foldl (fun c x => c.record x.1 x.2) log.collector := by
  induction ps generalizing log with
  | nil => rfl
  | cons p ps ih =>
    have hrest : (log.addAt p).recordedAt = log.recordedAt := rfl
    rw [addPlaces, List.foldl_cons, ← addPlaces, ih, hrest, collector_addAt]
    cases h : log.recordedAt p with
    | none => rw [List.filterMap_cons_none h]; rfl
    | some x => rw [List.filterMap_cons_some h]; rfl

end Log

/-- The event of a notice names the file that it is given, whatever the notice says itself. -/
theorem Notice.lookup_event (n : Notice) (time : Int) (file : String) :
    (n.event time (some file)).details.lookup "file" = some file :=
  Details.lookup_insert "file" file _

/-! ## Blocks -/

namespace LogStep

mutual

-- Where only blocks set the file, all that can stand in front of a notice in its block is another
-- block, and that leaves no file.
theorem change_of_mem_places {path : String} {change : Option (Option String)}
    (hchange : change = none ∨ change = some none) {step : LogStep} (h : step.isScoped = true)
    {p : Place} (hp : p ∈ step.places (some path) change) :
    p.block.isSome = true ∧ (p.change = none ∨ p.change = some none) := by
  cases step with
  | enter | leave => cases h
  | note ns =>
    obtain ⟨n, -, rfl⟩ := List.mem_map.1 hp
    exact ⟨rfl, hchange⟩
  | inside inner steps => exact change_of_mem_placesAll (.inl rfl) h hp

theorem change_of_mem_placesAll {path : String} {change : Option (Option String)}
    (hchange : change = none ∨ change = some none) {steps : List LogStep}
    (h : areScoped steps = true) {p : Place} (hp : p ∈ placesAll (some path) change steps) :
    p.block.isSome = true ∧ (p.change = none ∨ p.change = some none) := by
  cases steps with
  | nil => cases hp
  | cons step rest =>
    obtain ⟨hstep, hrest⟩ := Bool.and_eq_true_iff.1 h
    rcases List.mem_append.1 hp with hp | hp
    · exact change_of_mem_places hchange hstep hp
    · refine change_of_mem_placesAll ?_ hrest hp
      cases step with
      | enter | leave => cases hstep
      | note => exact hchange
      | inside => exact .inr rfl

end

end LogStep

/-- What comes of steps that are taken while a file is being processed. -/
structure Log.OfBlock (log : Log) (path : String) (steps : List LogStep) : Prop where
  /-- No file is being processed afterwards, -/
  file : (log.after (.inside path steps)).file = none
  /-- which is what was before only if there was none before either. -/
  restored : (log.after (.inside path steps)).file = log.file ↔ log.file = none
  events : (log.after (.inside path steps)).events =
    log.events ++ (LogStep.placesAll (some path) none steps).map log.eventAt
  collector : (log.after (.inside path steps)).collector =
    ((LogStep.placesAll (some path) none steps).filterMap log.recordedAt).foldl
      (fun c x => c.record x.1 x.2) log.collector
  carried : log.showsFile = true → ∀ p ∈ LogStep.placesAll (some path) none steps,
    ∀ file, p.current = some file → (log.eventAt p).details.lookup "file" = some file
  /-- A notice belongs to the innermost block around it exactly if there is no other block in front
  of it in that block. Otherwise it belongs to no file. -/
  innermost : LogStep.areScoped steps = true → ∀ p ∈ LogStep.placesAll (some path) none steps,
    (p.current = p.block ↔ p.change = none) ∧ (p.change ≠ none → p.current = none)

/-- **A block leaves no file behind**, and inside of it a notice belongs to the file of the
innermost block around it only up to the first block in there. -/
theorem Log.ofBlock (log : Log) (path : String) (steps : List LogStep) :
    log.OfBlock path steps := by
  have hfile : log.file = Option.getD none log.file := rfl
  have hafter := after_eq hfile (.inside path steps)
  exact
    { file := congrArg Log.file hafter
      restored := by rw [hafter]; exact eq_comm
      events := by rw [hafter]; exact log.events_addPlaces _
      collector := by rw [hafter]; exact log.collector_addPlaces _
      carried := by
        intro hshow p _ file hcurrent
        rw [eventAt, if_pos hshow, hcurrent]
        exact p.notice.lookup_event log.time file
      innermost := by
        intro hscoped p hp
        obtain ⟨hblock, hchange⟩ := LogStep.change_of_mem_placesAll (.inl rfl) hscoped hp
        obtain ⟨file, hfile⟩ := Option.isSome_iff_exists.1 hblock
        rcases hchange with hnone | hleft
        · simp [Place.current, hnone]
        · simp [Place.current, hleft, hfile] }

/-- A block that is opened while another file is being processed loses that file, and with it what
the block around it still has to say. -/
theorem Log.after_inside_forgets :
    LogStep.areScoped [.inside "inner.dart" [.note [.info "read" []]],
        .note [.warning .malformedNumber "odd" 3 []]] = true ∧
      (((Log.start true 0).enter "outer.dart").after
        (.inside "inner.dart" [.note [.info "read" []]])).file ≠ some "outer.dart" ∧
      ((Log.start true 0).after (.inside "outer.dart"
        [.inside "inner.dart" [.note [.info "read" []]],
          .note [.warning .malformedNumber "odd" 3 []]])).events.map
            (fun e => e.details.lookup "file") = [some "inner.dart", none] ∧
      ((Log.start true 0).after (.inside "outer.dart"
        [.inside "inner.dart" [.note [.info "read" []]],
          .note [.warning .malformedNumber "odd" 3 []]])).collector.files.length = 0 := by
  refine ⟨rfl, by decide, rfl, rfl⟩

end DesignTokens
