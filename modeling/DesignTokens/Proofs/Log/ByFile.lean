import DesignTokens.Proofs.Log.Collected
import Mathlib.Algebra.BigOperators.Group.Finset.Basic
import Mathlib.Data.List.Induction

/-!
# Events by file

Events are recorded for many files in any order. What the collector keeps of a file is what it would
keep if there were no other files, and its summary counts what it keeps, each file once. Both rest
on the order of the files: they stand in the strict order of their paths, so a path has at most one
file, and the search for it stops at the right place.
-/

namespace DesignTokens

/-! ## The order of paths -/

namespace PathPart

theorem before_name (a b : String) : (name a).before (name b) = decide (a < b) := rfl

theorem before_irrefl (a : PathPart) : a.before a = false := by
  cases a with
  | root | here | parent => rfl
  | name a => rw [before_name, decide_eq_false (String.lt_irrefl a)]

theorem before_trans {a b c : PathPart} (hab : a.before b = true) (hbc : b.before c = true) :
    a.before c = true := by
  cases b with
  | root => cases a <;> cases hab
  | here | parent => cases a <;> cases hab <;> cases c <;> first | rfl | cases hbc
  | name b =>
    cases c with
    | root | here | parent => cases hbc
    | name c =>
      cases a with
      | root | here | parent => rfl
      | name a =>
        rw [before_name, decide_eq_true_eq] at hab hbc ⊢
        exact String.lt_trans hab hbc

theorem before_or_before {a b : PathPart} (h : a ≠ b) : a.before b = true ∨ b.before a = true := by
  cases a with
  | root | here | parent => cases b <;> first | exact .inl rfl | exact .inr rfl | exact absurd rfl h
  | name a =>
    cases b with
    | root | here | parent => exact .inr rfl
    | name b =>
      rw [before_name, before_name, decide_eq_true_eq, decide_eq_true_eq]
      by_cases hab : a < b
      · exact .inl hab
      · have hne : b ≠ a := fun heq => h (congrArg name heq.symm)
        exact .inr (Std.lt_of_le_of_ne (String.not_lt.1 hab) hne)

end PathPart

namespace Path

variable {as bs cs : List PathPart}

theorem partsBefore_irrefl (as : List PathPart) : partsBefore as as = false := by
  induction as with
  | nil => rfl
  | cons a as ih => simpa [partsBefore] using ih

theorem ne_of_partsBefore (h : partsBefore as bs = true) : as ≠ bs := by
  rintro rfl
  rw [partsBefore_irrefl] at h
  cases h

theorem partsBefore_trans (hab : partsBefore as bs = true) (hbc : partsBefore bs cs = true) :
    partsBefore as cs = true := by
  induction as generalizing bs cs with
  | nil =>
    cases cs with
    | nil => cases bs <;> cases hbc
    | cons c cs => rfl
  | cons a as ih =>
    cases bs with
    | nil => cases hab
    | cons b bs =>
      cases cs with
      | nil => cases hbc
      | cons c cs =>
        rw [partsBefore] at hab hbc ⊢
        by_cases h : a = b
        · by_cases h' : b = c
          · simp only [h, h', if_true] at hab hbc ⊢
            exact ih hab hbc
          · simp only [h, h', if_false] at hbc ⊢
            exact hbc
        · by_cases h' : b = c
          · subst h'
            simpa only [h, if_false] using hab
          · rw [if_neg h] at hab
            rw [if_neg h'] at hbc
            have hac := PathPart.before_trans hab hbc
            have hne : a ≠ c := by
              rintro rfl
              rw [PathPart.before_irrefl] at hac
              cases hac
            rwa [if_neg hne]

theorem partsBefore_or_partsBefore (h : as ≠ bs) :
    partsBefore as bs = true ∨ partsBefore bs as = true := by
  induction as generalizing bs with
  | nil =>
    cases bs with
    | nil => exact absurd rfl h
    | cons b bs => exact .inl rfl
  | cons a as ih =>
    cases bs with
    | nil => exact .inr rfl
    | cons b bs =>
      by_cases hab : a = b
      · subst hab
        simpa [partsBefore] using ih (fun hrest => h (hrest ▸ rfl))
      · simpa only [partsBefore, hab, Ne.symm hab, if_false] using PathPart.before_or_before hab

end Path

/-! ## One more event -/

namespace FileEvents

/-- What a file is known by. -/
def key (f : FileEvents) : List PathPart := Path.parts f.path

theorem key_record (f : FileEvents) (e : LogEvent) : (f.record e).key = f.key := by
  unfold record
  split
  · rfl
  · split <;> rfl

theorem events_record {f : FileEvents} {es : List LogEvent} (h : f.events = kept es)
    (e : LogEvent) : (f.record e).events = kept (es ++ [e]) := by
  have hrecord := record_kept f.path es e
  rw [← h] at hrecord
  exact congrArg events hrecord

theorem length_kept_le (es : List LogEvent) : (kept es).length ≤ eventLimit + 1 := by
  have hmarker : (if eventLimit < es.length then [overflowMarker] else []).length ≤ 1 := by
    split <;> simp
  rw [kept, List.length_append, List.length_take]
  omega

end FileEvents

namespace Collector

/-- Files in the strict order of their paths. -/
def Sorted (files : List FileEvents) : Prop :=
  files.Pairwise fun f g => Path.partsBefore f.key g.key = true

variable {files : List FileEvents} {path : String} {e : LogEvent}

theorem mem_keys_recordIn {k : List PathPart} :
    k ∈ (recordIn path e files).map (·.key) ↔
      k = Path.parts path ∨ k ∈ files.map (·.key) := by
  induction files with
  | nil =>
    rw [recordIn, List.map_singleton, FileEvents.key_record]
    simp [FileEvents.key]
  | cons f files ih =>
    rw [recordIn]
    split
    · rename_i hsame
      have hkey : Path.parts path = f.key := (Path.same_iff _ _).1 hsame
      simp only [List.map_cons, List.mem_cons, FileEvents.key_record, hkey, ← or_assoc, or_self]
    · split
      · simp only [List.map_cons, List.mem_cons, FileEvents.key_record]
        rfl
      · simp only [List.map_cons, List.mem_cons, ih, or_left_comm]

theorem sorted_recordIn (h : Sorted files) : Sorted (recordIn path e files) := by
  induction files with
  | nil => exact List.pairwise_singleton _ _
  | cons f files ih =>
    obtain ⟨hf, hfiles⟩ := List.pairwise_cons.1 h
    rw [recordIn]
    split
    · exact List.pairwise_cons.2 ⟨fun g hg => (f.key_record e).symm ▸ hf g hg, hfiles⟩
    · rename_i hdiffers
      split
      · rename_i hbefore
        refine List.pairwise_cons.2 ⟨fun g hg => ?_, h⟩
        rw [FileEvents.key_record]
        rcases List.mem_cons.1 hg with rfl | hg
        · exact hbefore
        · exact Path.partsBefore_trans hbefore (hf g hg)
      · rename_i hnot
        -- the path is not that of `f` and not before it, so it comes behind it
        have hbehind : Path.partsBefore f.key (Path.parts path) = true := by
          rw [Path.same_iff] at hdiffers
          exact (Path.partsBefore_or_partsBefore hdiffers).resolve_left hnot
        refine List.pairwise_cons.2 ⟨fun g hg => ?_, ih hfiles⟩
        rcases mem_keys_recordIn.1 (List.mem_map_of_mem (f := FileEvents.key) hg) with hkey | hkey
        · rw [hkey]
          exact hbehind
        · obtain ⟨g', hg', hkey⟩ := List.mem_map.1 hkey
          rw [← hkey]
          exact hf g' hg'

/-- After one more event, a file is as it was or the one of the event; that was there or is new. -/
theorem of_mem_recordIn (h : Sorted files) {f : FileEvents} (hf : f ∈ recordIn path e files) :
    f.key ≠ Path.parts path ∧ f ∈ files ∨
      ∃ g, (g ∈ files ∧ g.key = Path.parts path ∨
        g = ⟨path, []⟩ ∧ Path.parts path ∉ files.map (·.key)) ∧ f = g.record e := by
  induction files with
  | nil => exact .inr ⟨⟨path, []⟩, .inr ⟨rfl, List.not_mem_nil⟩, List.mem_singleton.1 hf⟩
  | cons f' files ih =>
    obtain ⟨hbefore, hfiles⟩ := List.pairwise_cons.1 h
    rw [recordIn] at hf
    split at hf
    · rename_i hsame
      have hkey : Path.parts path = f'.key := (Path.same_iff _ _).1 hsame
      rcases List.mem_cons.1 hf with rfl | hf
      · exact .inr ⟨f', .inl ⟨List.mem_cons_self, hkey.symm⟩, rfl⟩
      · refine .inl ⟨?_, List.mem_cons_of_mem _ hf⟩
        rw [hkey]
        exact (Path.ne_of_partsBefore (hbefore f hf)).symm
    · rename_i hdiffers
      rw [Path.same_iff] at hdiffers
      split at hf
      · rename_i hfront
        -- all files come behind the path, so none is its own
        have hfresh : ∀ g ∈ f' :: files, g.key ≠ Path.parts path := by
          intro g hg
          refine (Path.ne_of_partsBefore ?_).symm
          rcases List.mem_cons.1 hg with rfl | hg
          · exact hfront
          · exact Path.partsBefore_trans hfront (hbefore g hg)
        rcases List.mem_cons.1 hf with rfl | hf
        · refine .inr ⟨⟨path, []⟩, .inr ⟨rfl, fun hmem => ?_⟩, rfl⟩
          obtain ⟨g, hg, hkey⟩ := List.mem_map.1 hmem
          exact hfresh g hg hkey
        · exact .inl ⟨hfresh f hf, hf⟩
      · rcases List.mem_cons.1 hf with rfl | hf
        · exact .inl ⟨fun heq => hdiffers heq.symm, List.mem_cons_self⟩
        · rcases ih hfiles hf with ⟨hkey, hmem⟩ | ⟨g, ⟨hmem, hkey⟩ | ⟨rfl, hfresh⟩, rfl⟩
          · exact .inl ⟨hkey, List.mem_cons_of_mem _ hmem⟩
          · exact .inr ⟨g, .inl ⟨List.mem_cons_of_mem _ hmem, hkey⟩, rfl⟩
          · refine .inr ⟨⟨path, []⟩, .inr ⟨rfl, fun hmem => ?_⟩, rfl⟩
            rcases List.mem_cons.1 hmem with heq | hmem
            · exact hdiffers heq
            · exact hfresh hmem

/-! ## Any sequence of events -/

/-- The events of a sequence that are recorded for a file. -/
def eventsFor (file : List PathPart) (calls : List (String × LogEvent)) : List LogEvent :=
  (calls.filter fun x => Path.parts x.1 = file).map (·.2)

/-- The files of a sequence of events, each once. -/
def filesOf (calls : List (String × LogEvent)) : Finset (List PathPart) :=
  (calls.map fun x => Path.parts x.1).toFinset

/-- A collector after a sequence of events. -/
def recordAll (calls : List (String × LogEvent)) : Collector :=
  calls.foldl (fun c x => c.record x.1 x.2) .empty

/-- Files in order, which are those of a sequence of events, and of each what is kept of its own
events. -/
structure Accounts (files : List FileEvents) (calls : List (String × LogEvent)) : Prop where
  sorted : Sorted files
  keys : ∀ k, k ∈ files.map (·.key) ↔ k ∈ filesOf calls
  events : ∀ f ∈ files, f.events = FileEvents.kept (eventsFor f.key calls)

theorem eventsFor_concat (file : List PathPart) (calls : List (String × LogEvent))
    (x : String × LogEvent) : eventsFor file (calls ++ [x]) =
      eventsFor file calls ++ if Path.parts x.1 = file then [x.2] else [] := by
  rw [eventsFor, List.filter_append, List.map_append]
  by_cases h : Path.parts x.1 = file <;> simp [eventsFor, h]

theorem eventsFor_eq_nil {file : List PathPart} {calls : List (String × LogEvent)}
    (h : file ∉ filesOf calls) : eventsFor file calls = [] := by
  rw [eventsFor, List.map_eq_nil_iff, List.filter_eq_nil_iff]
  intro x hx hfile
  exact h (List.mem_toFinset.2 (List.mem_map.2 ⟨x, hx, of_decide_eq_true hfile⟩))

namespace Accounts

variable {calls : List (String × LogEvent)}

theorem nil : Accounts [] [] where
  sorted := .nil
  keys _ := by simp [filesOf]
  events _ hf := nomatch hf

theorem concat (h : Accounts files calls) (path : String) (e : LogEvent) :
    Accounts (recordIn path e files) (calls ++ [(path, e)]) where
  sorted := sorted_recordIn h.sorted
  keys k := by
    rw [mem_keys_recordIn, h.keys]
    simp [filesOf]
  events f hf := by
    rcases of_mem_recordIn h.sorted hf with ⟨hkey, hf⟩ | ⟨g, hg, rfl⟩
    · rw [eventsFor_concat, if_neg hkey.symm, List.append_nil]
      exact h.events f hf
    · have hkept : g.events = FileEvents.kept (eventsFor g.key calls) ∧
          g.key = Path.parts path := by
        rcases hg with ⟨hg, hkey⟩ | ⟨rfl, hfresh⟩
        · exact ⟨h.events g hg, hkey⟩
        · have hnone : eventsFor (Path.parts path) calls = [] :=
            eventsFor_eq_nil (mt (h.keys _).2 hfresh)
          exact ⟨by rw [FileEvents.key, hnone]; rfl, rfl⟩
      obtain ⟨hevents, hkey⟩ := hkept
      rw [FileEvents.key_record, eventsFor_concat, if_pos hkey.symm]
      exact FileEvents.events_record hevents e

theorem recordAll (calls : List (String × LogEvent)) :
    Accounts (Collector.recordAll calls).files calls := by
  induction calls using List.reverseRecOn with
  | nil => exact .nil
  | append_singleton calls x ih =>
    rw [Collector.recordAll, List.foldl_concat]
    exact ih.concat x.1 x.2

variable (h : Accounts files calls)
include h

theorem nodup_keys : (files.map (·.key)).Nodup := by
  rw [List.nodup_iff_pairwise_ne, List.pairwise_map]
  exact h.sorted.imp Path.ne_of_partsBefore

theorem toFinset_keys : (files.map (·.key)).toFinset = filesOf calls := by
  ext k
  rw [List.mem_toFinset, h.keys]

theorem length_eq : files.length = (filesOf calls).card := by
  rw [← h.toFinset_keys, List.toFinset_card_of_nodup h.nodup_keys, List.length_map]

/-- The events of one kind in all files of a collector, counted over the files of the sequence. -/
theorem length_flatMap_events (p : LogEvent → Bool) :
    (files.flatMap fun f => f.events.filter p).length =
      ∑ file ∈ filesOf calls, (FileEvents.kept (eventsFor file calls)).countP p := by
  rw [← h.toFinset_keys, List.sum_toFinset _ h.nodup_keys, List.map_map, List.length_flatMap]
  refine congrArg List.sum (List.map_congr_left fun f hf => ?_)
  rw [h.events f hf, ← List.countP_eq_length_filter]
  rfl

theorem countP_events (p : List LogEvent → Bool) : (files.countP fun f => p f.events) =
    ((filesOf calls).filter fun file => p (FileEvents.kept (eventsFor file calls))).card := by
  rw [← h.toFinset_keys, ← List.toFinset_filter,
    List.toFinset_card_of_nodup (h.nodup_keys.filter _), ← List.countP_eq_length_filter,
    List.countP_map]
  exact List.countP_congr fun f hf => by rw [Function.comp_apply, h.events f hf]

theorem eventsOf_eq (path : String) : eventsOf ⟨files⟩ path =
    FileEvents.kept (eventsFor (Path.parts path) calls) := by
  rw [eventsOf]
  split
  · rename_i f hfind
    have hkey : f.key = Path.parts path :=
      (Path.same_iff _ _).1 (by simpa using List.find?_some hfind)
    rw [h.events f (List.mem_of_find?_eq_some hfind), hkey]
  · rename_i hnone
    have hfresh : Path.parts path ∉ files.map (·.key) := by
      intro hmem
      obtain ⟨f, hf, hkey⟩ := List.mem_map.1 hmem
      exact List.find?_eq_none.1 hnone f hf ((Path.same_iff _ _).2 hkey)
    rw [eventsFor_eq_nil (mt (h.keys _).2 hfresh)]
    rfl

end Accounts

/-- What is known of a collector after a sequence of events. -/
structure ByFile (c : Collector) (calls : List (String × LogEvent)) : Prop where
  /-- Of a file its first thousand events are stored, and one marker if it has more. -/
  events : ∀ path, c.eventsOf path = (eventsFor (Path.parts path) calls).take 1000 ++
    if 1000 < (eventsFor (Path.parts path) calls).length then [FileEvents.overflowMarker] else []
  marker : FileEvents.overflowMarker.isWarning = true ∧
    FileEvents.overflowMarker.code.text = "W000"
  bounded : ∀ path, (c.eventsOf path).length ≤ 1001
  /-- The events of other files do not matter. -/
  own : ∀ path,
    c.eventsOf path = (recordAll (calls.filter fun x => Path.same x.1 path)).eventsOf path
  totalFiles : c.summary.totalFiles = (filesOf calls).card
  totalErrors : c.summary.totalErrors =
    ∑ file ∈ filesOf calls, (FileEvents.kept (eventsFor file calls)).countP (·.isError)
  totalWarnings : c.summary.totalWarnings =
    ∑ file ∈ filesOf calls, (FileEvents.kept (eventsFor file calls)).countP (·.isWarning)
  filesWithErrors : c.summary.filesWithErrors =
    ((filesOf calls).filter fun file =>
      ∃ e ∈ FileEvents.kept (eventsFor file calls), e.isError = true).card
  /-- A file with errors is not counted here. -/
  filesWithWarnings : c.summary.filesWithWarnings =
    ((filesOf calls).filter fun file =>
      (∃ e ∈ FileEvents.kept (eventsFor file calls), e.isWarning = true) ∧
        ¬ ∃ e ∈ FileEvents.kept (eventsFor file calls), e.isError = true).card

theorem eventsFor_filter (path : String) (calls : List (String × LogEvent)) :
    eventsFor (Path.parts path) (calls.filter fun x => Path.same x.1 path) =
      eventsFor (Path.parts path) calls := by
  rw [eventsFor, eventsFor, List.filter_filter]
  congr 1
  refine List.filter_congr fun x _ => ?_
  rw [Bool.and_eq_left_iff_imp, decide_eq_true_eq, Path.same_iff]
  exact id

theorem isEmpty_filter_iff (p : LogEvent → Bool) (es : List LogEvent) :
    (!(es.filter p).isEmpty) = true ↔ ∃ e ∈ es, p e = true := by
  rw [Bool.not_eq_true', List.isEmpty_eq_false_iff_exists_mem]
  simp only [List.mem_filter]

/-- **A collector keeps its files apart, and counts what it keeps.** -/
theorem byFile_recordAll (calls : List (String × LogEvent)) :
    (recordAll calls).ByFile calls where
  events := (Accounts.recordAll calls).eventsOf_eq
  marker := ⟨rfl, rfl⟩
  bounded path := by
    have hkept : (recordAll calls).eventsOf path = _ := (Accounts.recordAll calls).eventsOf_eq path
    rw [hkept]
    exact FileEvents.length_kept_le _
  own path := by
    have hall := (Accounts.recordAll calls).eventsOf_eq path
    have hown := (Accounts.recordAll (calls.filter fun x => Path.same x.1 path)).eventsOf_eq path
    rw [eventsFor_filter] at hown
    exact hall.trans hown.symm
  totalFiles := (Accounts.recordAll calls).length_eq
  totalErrors := (Accounts.recordAll calls).length_flatMap_events (·.isError)
  totalWarnings := (Accounts.recordAll calls).length_flatMap_events (·.isWarning)
  filesWithErrors := by
    have hcount := (Accounts.recordAll calls).countP_events fun es =>
      !(es.filter (·.isError)).isEmpty
    refine hcount.trans (congrArg Finset.card (Finset.filter_congr fun file _ => ?_))
    exact isEmpty_filter_iff _ _
  filesWithWarnings := by
    have hcount := (Accounts.recordAll calls).countP_events fun es =>
      (es.filter (·.isError)).isEmpty && !(es.filter (·.isWarning)).isEmpty
    refine hcount.trans (congrArg Finset.card (Finset.filter_congr fun file _ => ?_))
    rw [Bool.and_eq_true, isEmpty_filter_iff, and_comm, ← isEmpty_filter_iff (·.isError),
      Bool.not_eq_true, Bool.not_eq_false']

end Collector

end DesignTokens
