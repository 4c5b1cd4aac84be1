import DesignTokens.Proofs.Log.ByFile

/-!
# The report and the summary

The report is a list of lines. Each file that has an error or a warning gives a block of them, with
one entry for each of its errors and then one for each of its warnings; lines for the totals follow.
The summary tallies the same events in a pass of its own. For any sequence of recorded events the
two agree: on the files that have a block, on the number of entries, and on whether there is
anything to report.
-/

namespace DesignTokens

/-! ## Lines of a report -/

/-- A line of a report. -/
inductive ReportLine where
  | checking (path : String)
  | error (code message : String) (place : Option (String × Nat))
  | warning (code message : String) (place : Option (String × Nat))
  | gravity (severity category : String)
  | detail (key value : String)
  | help (action : String)
  | blank
  | totalErrors (n : Nat)
  | totalWarnings (n : Nat)
deriving DecidableEq, Repr

namespace ReportLine

def placeText : Option (String × Nat) → String
  | some (path, n) => " --> " ++ path ++ ":" ++ toString n
  | none => ""

def text : ReportLine → String
  | checking path => "Checking " ++ path ++ "..."
  | error code message place => "error[" ++ code ++ "]: " ++ message ++ placeText place
  | warning code message place => "warning[" ++ code ++ "]: " ++ message ++ placeText place
  | gravity severity category => "  = severity: " ++ severity ++ ", category: " ++ category
  | detail key value => "  = " ++ key ++ ": " ++ value
  | help action => "  = help: " ++ action
  | blank => ""
  | totalErrors n => "Total errors: " ++ toString n
  | totalWarnings n => "Total warnings: " ++ toString n

section Text

variable (path code message severity category action : String) (place : Option (String × Nat))

theorem text_checking : (checking path).text = "Checking " ++ path ++ "..." := rfl

theorem text_error : (error code message place).text =
    "error[" ++ code ++ "]: " ++ message ++ placeText place := rfl

theorem text_warning : (warning code message place).text =
    "warning[" ++ code ++ "]: " ++ message ++ placeText place := rfl

theorem text_gravity : (gravity severity category).text =
    "  = severity: " ++ severity ++ ", category: " ++ category := rfl

theorem text_help : (help action).text = "  = help: " ++ action := rfl

end Text

/-- The first line of an entry about an error. -/
def isError : ReportLine → Bool
  | error .. => true
  | _ => false

/-- The first line of an entry about a warning. -/
def isWarning : ReportLine → Bool
  | warning .. => true
  | _ => false

def isTotal : ReportLine → Bool
  | totalErrors _ | totalWarnings _ => true
  | _ => false

/-- Lines, each with its end. -/
def join (lines : List ReportLine) : String :=
  String.join (lines.map fun l => l.text ++ "\n")

theorem join_append (as bs : List ReportLine) : join (as ++ bs) = join as ++ join bs := by
  rw [join, List.map_append, String.join_append]
  rfl

theorem join_cons (l : ReportLine) (ls : List ReportLine) :
    join (l :: ls) = l.text ++ "\n" ++ join ls :=
  String.join_cons

theorem join_flatMap {α : Type} (f : α → List ReportLine) (as : List α) :
    join (as.flatMap f) = String.join (as.map fun a => join (f a)) := by
  induction as with
  | nil => rfl
  | cons a as ih => rw [List.flatMap_cons, join_append, ih, List.map_cons, String.join_cons]

theorem join_eq_empty_iff (ls : List ReportLine) : join ls = "" ↔ ls = [] := by
  cases ls with
  | nil => exact iff_of_true rfl rfl
  | cons l ls =>
    refine iff_of_false (fun h => ?_) (List.cons_ne_nil _ _)
    rw [join_cons, String.append_eq_empty_iff, String.append_eq_empty_iff] at h
    exact absurd h.1.2 (by decide)

end ReportLine

namespace Collector

/-! ## Entries and blocks -/

/-- What is shown of the details of an event: all but its file. -/
def shownDetails (e : LogEvent) : Details := e.details.filter fun (key, _) => key != "file"

section Entries

variable (path : String) (e : LogEvent)

theorem mem_shownDetails (x : String × String) :
    x ∈ (shownDetails e).pairs ↔ x ∈ e.details.pairs ∧ x.1 ≠ "file" := by
  rw [shownDetails, Details.filter, List.mem_filter, bne_iff_ne]

def placeOf : Option (String × Nat) := e.line.map fun n => (path, n)

def detailEntries : List ReportLine := (shownDetails e).map fun x => .detail x.1 x.2

/-- What helps against an error, if anything does. -/
def helpLines : List ReportLine :=
  if e.code.action = LogCode.noAction then [] else [.help e.code.action]

/-- The lines about an error. -/
def errorLines : List ReportLine :=
  .error e.code.text e.message (placeOf path e) ::
    .gravity e.code.severity.label e.code.category :: (detailEntries e ++ helpLines e)

/-- The lines about a warning. -/
def warningLines : List ReportLine :=
  .warning e.code.text e.message (placeOf path e) :: detailEntries e

theorem placeText_placeOf : ReportLine.placeText (placeOf path e) = location path e := by
  unfold placeOf location
  cases e.line <;> rfl

theorem join_detailEntries : ReportLine.join (detailEntries e) = detailLines e := by
  rw [ReportLine.join, detailEntries, Details.map, List.map_map, detailLines, shownDetails]
  refine congrArg String.join (List.map_congr_left fun x _ => ?_)
  obtain ⟨key, value⟩ := x
  rfl

theorem join_helpLines : ReportLine.join (helpLines e) =
    if e.code.action = LogCode.noAction then "" else "  = help: " ++ e.code.action ++ "\n" := by
  rw [helpLines]
  split
  · rfl
  · rw [ReportLine.join_cons, ReportLine.text_help]
    exact String.append_empty

theorem join_errorLines : ReportLine.join (errorLines path e) = errorEntry path e := by
  unfold errorEntry
  rw [← join_helpLines, errorLines, ReportLine.join_cons, ReportLine.join_cons,
    ReportLine.join_append, join_detailEntries]
  simp only [ReportLine.text_error, ReportLine.text_gravity, placeText_placeOf, String.append_assoc]

theorem join_warningLines : ReportLine.join (warningLines path e) = warningEntry path e := by
  rw [warningLines, ReportLine.join_cons, join_detailEntries, ReportLine.text_warning,
    placeText_placeOf, warningEntry]

end Entries

/-- What a report says about a file. -/
structure ReportBlock where
  path : String
  errors : List LogEvent
  warnings : List LogEvent

namespace ReportBlock

def lines (b : ReportBlock) : List ReportLine :=
  .checking b.path ::
    (b.errors.flatMap (errorLines b.path) ++ (b.warnings.flatMap (warningLines b.path) ++ [.blank]))

end ReportBlock

def totalLines (s : Summary) : List ReportLine :=
  (if 0 < s.totalErrors then [.totalErrors s.totalErrors] else []) ++
    if 0 < s.totalWarnings then [.totalWarnings s.totalWarnings] else []

/-! ## The report is its lines -/

/-- Whether a file has anything to report. -/
def hasBlock (f : FileEvents) : Bool := !(f.errors.isEmpty && f.warnings.isEmpty)

def blockOf (f : FileEvents) : ReportBlock := ⟨f.path, f.errors, f.warnings⟩

/-- The blocks of files in order. -/
def blocksOf (files : List FileEvents) : List ReportBlock := (files.filter hasBlock).map blockOf

theorem block_eq (f : FileEvents) :
    block f = if hasBlock f then ReportLine.join (blockOf f).lines else "" := by
  have hlines : ReportLine.join (blockOf f).lines = "Checking " ++ f.path ++ "...\n"
      ++ String.join (f.errors.map (errorEntry f.path))
      ++ String.join (f.warnings.map (warningEntry f.path)) ++ "\n" := by
    rw [ReportBlock.lines, ReportLine.join_cons, ReportLine.join_append, ReportLine.join_append,
      ReportLine.join_flatMap, ReportLine.join_flatMap]
    simp only [join_errorLines, join_warningLines, ReportLine.text_checking, String.append_assoc]
    rfl
  rw [block, hlines, hasBlock]
  cases f.errors.isEmpty && f.warnings.isEmpty <;> rfl

theorem join_lines (files : List FileEvents) :
    ReportLine.join ((blocksOf files).flatMap ReportBlock.lines) =
      String.join (files.map block) := by
  rw [ReportLine.join_flatMap, blocksOf, List.map_map]
  induction files with
  | nil => rfl
  | cons f files ih =>
    rw [List.map_cons, String.join_cons, block_eq, List.filter_cons, ← ih]
    cases hasBlock f with
    | true => exact String.join_cons
    | false => exact String.empty_append.symm

theorem join_totalLines (s : Summary) : ReportLine.join (totalLines s) = totals s := by
  have hline {n : Nat} (l : ReportLine) : ReportLine.join (if 0 < n then [l] else []) =
      if decide (0 < n) then l.text ++ "\n" else "" := by
    by_cases h : 0 < n
    · rw [if_pos h, if_pos (decide_eq_true h), ReportLine.join_cons]
      exact String.append_empty
    · rw [if_neg h, if_neg (by simpa using h)]
      rfl
  rw [totalLines, ReportLine.join_append, hline, hline]
  rfl

theorem report_eq (c : Collector) : c.report =
    ReportLine.join ((blocksOf c.files).flatMap ReportBlock.lines ++ totalLines c.summary) := by
  rw [ReportLine.join_append, join_lines, join_totalLines]
  rfl

/-! ## The lines and the counts -/

section Lines

variable (path : String) (e : LogEvent)

theorem countP_detailEntries {p : ReportLine → Bool} (hp : ∀ k v, p (.detail k v) = false) :
    (detailEntries e).countP p = 0 := by
  rw [detailEntries, Details.map, List.countP_map, List.countP_eq_zero]
  intro x _
  rw [Function.comp_apply, hp]
  exact Bool.false_ne_true

theorem countP_errorLines {p : ReportLine → Bool} (hdetail : ∀ k v, p (.detail k v) = false)
    (hgravity : ∀ s c, p (.gravity s c) = false) (hhelp : ∀ a, p (.help a) = false) :
    (errorLines path e).countP p =
      if p (.error e.code.text e.message (placeOf path e)) then 1 else 0 := by
  have hnone : (helpLines e).countP p = 0 := by
    rw [helpLines]
    split
    · rfl
    · rw [List.countP_singleton, hhelp]
      rfl
  rw [errorLines, List.countP_cons, List.countP_cons, List.countP_append, hnone,
    countP_detailEntries e hdetail, hgravity, if_neg Bool.false_ne_true, Nat.zero_add]

theorem countP_warningLines {p : ReportLine → Bool} (hdetail : ∀ k v, p (.detail k v) = false) :
    (warningLines path e).countP p =
      if p (.warning e.code.text e.message (placeOf path e)) then 1 else 0 := by
  rw [warningLines, List.countP_cons, countP_detailEntries e hdetail, Nat.zero_add]

end Lines

/-- Where each entry has so many lines of a kind, so many times as many have all of them. -/
theorem countP_entries {p : ReportLine → Bool} {f : LogEvent → List ReportLine} {n : Nat}
    (h : ∀ e, (f e).countP p = n) (es : List LogEvent) :
    (es.flatMap f).countP p = es.length * n := by
  have hconst : List.countP p ∘ f = fun _ => n := funext h
  rw [List.countP_flatMap, hconst, List.map_const', List.sum_replicate_nat]

namespace ReportBlock

variable (b : ReportBlock)

/-- A line of a kind that only an entry can have is found in the entries. -/
theorem countP_of_entries {p : ReportLine → Bool} {m n : Nat}
    (hchecking : ∀ path, p (.checking path) = false) (hblank : p .blank = false)
    (herrors : ∀ e, (errorLines b.path e).countP p = m)
    (hwarnings : ∀ e, (warningLines b.path e).countP p = n) :
    b.lines.countP p = b.errors.length * m + b.warnings.length * n := by
  rw [lines, List.countP_cons, List.countP_append, List.countP_append, countP_entries herrors,
    countP_entries hwarnings, List.countP_singleton, hchecking, hblank]
  rfl

theorem countP_isError : b.lines.countP ReportLine.isError = b.errors.length := by
  have herrors (e : LogEvent) : (errorLines b.path e).countP ReportLine.isError = 1 :=
    countP_errorLines _ e (fun _ _ => rfl) (fun _ _ => rfl) fun _ => rfl
  have hwarnings (e : LogEvent) : (warningLines b.path e).countP ReportLine.isError = 0 :=
    countP_warningLines _ e fun _ _ => rfl
  rw [b.countP_of_entries (fun _ => rfl) rfl herrors hwarnings, Nat.mul_one, Nat.mul_zero,
    Nat.add_zero]

theorem countP_isWarning : b.lines.countP ReportLine.isWarning = b.warnings.length := by
  have herrors (e : LogEvent) : (errorLines b.path e).countP ReportLine.isWarning = 0 :=
    countP_errorLines _ e (fun _ _ => rfl) (fun _ _ => rfl) fun _ => rfl
  have hwarnings (e : LogEvent) : (warningLines b.path e).countP ReportLine.isWarning = 1 :=
    countP_warningLines _ e fun _ _ => rfl
  rw [b.countP_of_entries (fun _ => rfl) rfl herrors hwarnings, Nat.mul_one, Nat.mul_zero,
    Nat.zero_add]

/-- No block has a line for a total. -/
theorem countP_isTotal : b.lines.countP ReportLine.isTotal = 0 := by
  have herrors (e : LogEvent) : (errorLines b.path e).countP ReportLine.isTotal = 0 :=
    countP_errorLines _ e (fun _ _ => rfl) (fun _ _ => rfl) fun _ => rfl
  have hwarnings (e : LogEvent) : (warningLines b.path e).countP ReportLine.isTotal = 0 :=
    countP_warningLines _ e fun _ _ => rfl
  rw [b.countP_of_entries (fun _ => rfl) rfl herrors hwarnings, Nat.mul_zero, Nat.mul_zero]

end ReportBlock

theorem errors_of_not_hasBlock {f : FileEvents} (h : hasBlock f = false) :
    f.errors = [] ∧ f.warnings = [] := by
  rw [hasBlock, Bool.not_eq_false', Bool.and_eq_true, List.isEmpty_iff, List.isEmpty_iff] at h
  exact h

/-- The lines of a kind in all blocks are counted over all files. -/
theorem countP_lines {p : ReportLine → Bool} {g : FileEvents → List LogEvent}
    (hblock : ∀ f, (blockOf f).lines.countP p = (g f).length)
    (hnone : ∀ f, hasBlock f = false → g f = []) (files : List FileEvents) :
    ((blocksOf files).flatMap ReportBlock.lines).countP p = (files.flatMap g).length := by
  induction files with
  | nil => rfl
  | cons f files ih =>
    rw [List.flatMap_cons, List.length_append, ← ih, blocksOf, List.filter_cons]
    cases h : hasBlock f with
    | true =>
      rw [if_pos rfl, List.map_cons, List.flatMap_cons, List.countP_append, hblock]
      rfl
    | false =>
      rw [if_neg Bool.false_ne_true, hnone f h, List.length_nil, Nat.zero_add]
      rfl

/-- A file with errors counts once, and so does one that only has warnings. -/
theorem length_blocksOf (files : List FileEvents) : (blocksOf files).length =
    (files.countP fun f => !f.errors.isEmpty) +
      files.countP fun f => f.errors.isEmpty && !f.warnings.isEmpty := by
  rw [blocksOf, List.length_map, ← List.countP_eq_length_filter]
  induction files with
  | nil => rfl
  | cons f files ih =>
    rw [List.countP_cons, List.countP_cons, List.countP_cons, ih, hasBlock]
    cases f.errors.isEmpty <;> cases f.warnings.isEmpty <;> simp <;> omega

/-- A total that is positive has a line, and no other. -/
theorem mem_totalLines_iff {s : Summary} {l : ReportLine} : l ∈ totalLines s ↔
    (0 < s.totalErrors ∧ l = .totalErrors s.totalErrors) ∨
      0 < s.totalWarnings ∧ l = .totalWarnings s.totalWarnings := by
  have hline {n : Nat} {l' : ReportLine} :
      l ∈ (if 0 < n then [l'] else []) ↔ 0 < n ∧ l = l' := by
    split
    · rename_i hn
      rw [List.mem_singleton, and_iff_right hn]
    · rename_i hn
      exact iff_of_false List.not_mem_nil fun h => hn h.1
  rw [totalLines, List.mem_append, hline, hline]

/-! ## Any sequence of events -/

/-- The path that a file of a sequence of events is first recorded under. -/
def firstPath (file : List PathPart) (calls : List (String × LogEvent)) : Option String :=
  (calls.find? fun x => Path.parts x.1 = file).map (·.1)

theorem firstPath_concat (file : List PathPart) (calls : List (String × LogEvent))
    (x : String × LogEvent) : firstPath file (calls ++ [x]) =
      (firstPath file calls).or (if Path.parts x.1 = file then some x.1 else none) := by
  rw [firstPath, List.find?_append, Option.map_or]
  by_cases h : Path.parts x.1 = file <;> simp [firstPath, h]

theorem firstPath_eq_none {file : List PathPart} {calls : List (String × LogEvent)}
    (h : file ∉ filesOf calls) : firstPath file calls = none := by
  rw [firstPath, Option.map_eq_none_iff, List.find?_eq_none]
  intro x hx hfile
  exact h (List.mem_toFinset.2 (List.mem_map.2 ⟨x, hx, of_decide_eq_true hfile⟩))

theorem path_record (f : FileEvents) (e : LogEvent) : (f.record e).path = f.path := by
  unfold FileEvents.record
  split
  · rfl
  · split <;> rfl

/-- A file is shown under the path that it was first recorded under. -/
theorem firstPath_recordAll (calls : List (String × LogEvent)) :
    ∀ f ∈ (recordAll calls).files, firstPath f.key calls = some f.path := by
  induction calls using List.reverseRecOn with
  | nil => exact List.forall_mem_nil _
  | append_singleton calls x ih =>
    have haccounts := Accounts.recordAll calls
    intro f hf
    rw [recordAll, List.foldl_concat] at hf
    rcases of_mem_recordIn haccounts.sorted hf with ⟨-, hf⟩ | ⟨g, hg, rfl⟩
    · rw [firstPath_concat, ih f hf, Option.some_or]
    · rw [FileEvents.key_record, path_record, firstPath_concat]
      rcases hg with ⟨hg, -⟩ | ⟨rfl, hfresh⟩
      · rw [ih g hg, Option.some_or]
      · have hnone : firstPath (FileEvents.key ⟨x.1, []⟩) calls = none :=
          firstPath_eq_none (mt (haccounts.keys _).2 hfresh)
        rw [hnone, Option.none_or]
        exact if_pos rfl

/-- What is known of the report on a sequence of events, which consists of blocks and totals. -/
structure Reports (calls : List (String × LogEvent)) (blocks : List ReportBlock) : Prop where
  text : (recordAll calls).report = ReportLine.join
    (blocks.flatMap ReportBlock.lines ++ totalLines (recordAll calls).summary)
  order : blocks.Pairwise fun a b =>
    Path.partsBefore (Path.parts a.path) (Path.parts b.path) = true
  /-- A file has a block if an error or a warning is stored for it. -/
  files : ∀ file, (∃ b ∈ blocks, Path.parts b.path = file) ↔
    ∃ e ∈ FileEvents.kept (eventsFor file calls), e.isError = true ∨ e.isWarning = true
  shown : ∀ b ∈ blocks, firstPath (Path.parts b.path) calls = some b.path
  errors : ∀ b ∈ blocks, b.errors =
    (FileEvents.kept (eventsFor (Path.parts b.path) calls)).filter (·.isError)
  warnings : ∀ b ∈ blocks, b.warnings =
    (FileEvents.kept (eventsFor (Path.parts b.path) calls)).filter (·.isWarning)
  /-- The details of an entry are shown in the order of their keys, and all of them but its file. -/
  details : ∀ b ∈ blocks, ∀ e ∈ b.errors ++ b.warnings,
    (shownDetails e).pairs.Pairwise (fun x y => x.1 < y.1) ∧
      ∀ x, x ∈ (shownDetails e).pairs ↔ x ∈ e.details.pairs ∧ x.1 ≠ "file"
  blocks_length : blocks.length =
    (recordAll calls).summary.filesWithErrors + (recordAll calls).summary.filesWithWarnings
  error_entries : (blocks.flatMap ReportBlock.lines).countP ReportLine.isError =
    (recordAll calls).summary.totalErrors
  warning_entries : (blocks.flatMap ReportBlock.lines).countP ReportLine.isWarning =
    (recordAll calls).summary.totalWarnings
  totals : ∀ l : ReportLine, l.isTotal = true →
    (l ∈ blocks.flatMap ReportBlock.lines ++ totalLines (recordAll calls).summary ↔
      (0 < (recordAll calls).summary.totalErrors ∧
          l = .totalErrors (recordAll calls).summary.totalErrors) ∨
        0 < (recordAll calls).summary.totalWarnings ∧
          l = .totalWarnings (recordAll calls).summary.totalWarnings)
  empty : (recordAll calls).report = "" ↔ (recordAll calls).summary.hasErrors = false ∧
    (recordAll calls).summary.hasWarnings = false

section Recorded

variable (calls : List (String × LogEvent))

theorem hasBlock_iff (f : FileEvents) :
    hasBlock f = true ↔ ∃ e ∈ f.events, e.isError = true ∨ e.isWarning = true := by
  rw [hasBlock, Bool.not_and, Bool.or_eq_true, FileEvents.errors, FileEvents.warnings,
    isEmpty_filter_iff, isEmpty_filter_iff, ← exists_or]
  exact exists_congr fun e => and_or_left.symm

theorem exists_block_iff (file : List PathPart) :
    (∃ b ∈ blocksOf (recordAll calls).files, Path.parts b.path = file) ↔
      ∃ e ∈ FileEvents.kept (eventsFor file calls), e.isError = true ∨ e.isWarning = true := by
  have haccounts := Accounts.recordAll calls
  constructor
  · rintro ⟨b, hb, rfl⟩
    obtain ⟨f, hf, rfl⟩ := List.mem_map.1 hb
    obtain ⟨hf, hblock⟩ := List.mem_filter.1 hf
    obtain ⟨e, he, hkind⟩ := (hasBlock_iff f).1 hblock
    exact ⟨e, haccounts.events f hf ▸ he, hkind⟩
  · rintro ⟨e, he, hkind⟩
    have hfile : file ∈ filesOf calls := by
      by_contra hnot
      rw [eventsFor_eq_nil hnot] at he
      exact absurd he List.not_mem_nil
    obtain ⟨f, hf, rfl⟩ := List.mem_map.1 ((haccounts.keys file).2 hfile)
    rw [← haccounts.events f hf] at he
    have hblock : hasBlock f = true := (hasBlock_iff f).2 ⟨e, he, hkind⟩
    exact ⟨blockOf f, List.mem_map_of_mem (List.mem_filter.2 ⟨hf, hblock⟩), rfl⟩

theorem report_eq_empty_iff (c : Collector) :
    c.report = "" ↔ c.summary.hasErrors = false ∧ c.summary.hasWarnings = false := by
  have hzero {n : Nat} : decide (0 < n) = false ↔ n = 0 := by
    rw [decide_eq_false_iff_not, Nat.not_lt, Nat.le_zero]
  rw [report_eq, ReportLine.join_eq_empty_iff, List.append_eq_nil_iff, Summary.hasErrors,
    Summary.hasWarnings, hzero, hzero]
  constructor
  · rintro ⟨hlines, -⟩
    have herrors := countP_lines (fun f => (blockOf f).countP_isError)
      (fun f hf => (errors_of_not_hasBlock hf).1) c.files
    have hwarnings := countP_lines (fun f => (blockOf f).countP_isWarning)
      (fun f hf => (errors_of_not_hasBlock hf).2) c.files
    rw [hlines] at herrors hwarnings
    exact ⟨herrors.symm, hwarnings.symm⟩
  · rintro ⟨herrors, hwarnings⟩
    have hnone {g : FileEvents → List LogEvent} (h : (c.files.flatMap g).length = 0) :
        ∀ f ∈ c.files, g f = [] :=
      List.flatMap_eq_nil_iff.1 (List.length_eq_zero_iff.1 h)
    have hempty : c.files.filter hasBlock = [] := by
      rw [List.filter_eq_nil_iff]
      intro f hf
      rw [hasBlock, hnone herrors f hf, hnone hwarnings f hf]
      decide
    constructor
    · rw [blocksOf, hempty]
      rfl
    · rw [totalLines, herrors, hwarnings]
      rfl

/-- **The report and the summary agree.** The report on any sequence of events consists of a block
for each file with a stored error or warning, in the order of the paths, and of the totals. A block
has an entry for each stored error and then one for each stored warning; the summary counts just
these blocks and entries, and the report is empty exactly if it counts none. -/
theorem reports_recordAll : ∃ blocks, Reports calls blocks := by
  have haccounts := Accounts.recordAll calls
  have hfile {b : ReportBlock} (hb : b ∈ blocksOf (recordAll calls).files) :
      ∃ f ∈ (recordAll calls).files, b = blockOf f := by
    obtain ⟨f, hf, rfl⟩ := List.mem_map.1 hb
    exact ⟨f, (List.mem_filter.1 hf).1, rfl⟩
  refine ⟨blocksOf (recordAll calls).files, ?_⟩
  constructor
  case text => exact report_eq _
  case order =>
    rw [blocksOf, List.pairwise_map]
    exact haccounts.sorted.filter _
  case files => exact exists_block_iff calls
  case shown =>
    intro b hb
    obtain ⟨f, hf, rfl⟩ := hfile hb
    exact firstPath_recordAll calls f hf
  case errors =>
    intro b hb
    obtain ⟨f, hf, rfl⟩ := hfile hb
    exact congrArg (List.filter _) (haccounts.events f hf)
  case warnings =>
    intro b hb
    obtain ⟨f, hf, rfl⟩ := hfile hb
    exact congrArg (List.filter _) (haccounts.events f hf)
  case details =>
    intro b _ e _
    exact ⟨(shownDetails e).increasing, mem_shownDetails e⟩
  case blocks_length => exact length_blocksOf _
  case error_entries =>
    exact countP_lines (fun f => (blockOf f).countP_isError)
      (fun f hf => (errors_of_not_hasBlock hf).1) _
  case warning_entries =>
    exact countP_lines (fun f => (blockOf f).countP_isWarning)
      (fun f hf => (errors_of_not_hasBlock hf).2) _
  case totals =>
    intro l hl
    have hnone : l ∉ (blocksOf (recordAll calls).files).flatMap ReportBlock.lines := by
      intro hmem
      obtain ⟨b, -, hb⟩ := List.mem_flatMap.1 hmem
      exact List.countP_eq_zero.1 b.countP_isTotal l hb hl
    rw [List.mem_append, or_iff_right hnone, mem_totalLines_iff]
  case empty => exact report_eq_empty_iff _

end Recorded

end Collector

end DesignTokens
