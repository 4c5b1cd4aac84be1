import DesignTokens.Proofs.Extract.Fold
import DesignTokens.Proofs.Extract.LineIndex
import DesignTokens.Proofs.Extract.Origins
import DesignTokens.Run.Job
import DesignTokens.Storage.Source

/-!
# The lines of hits

The line of a hit is looked up in the line table of the source, by the byte at which its match
starts. It is one plus the line feeds in front of the match, so it never decreases along the hits of
a rule, and a warning about a hit has the same line. A source file counts its lines in another way,
by the line feeds that end them and an open line behind the last one; a match that has any
characters stands on one of these lines.
-/

namespace DesignTokens

/-! ## Lines of matches -/

/-- A text has more lines than line feeds in front of its last character. -/
theorem count_lt_lineCount (before : List Char) {rest : List Char} (h : rest ≠ []) :
    before.count '\n' < lineCount (before ++ rest) := by
  have hlast : (before ++ rest).getLast? = some (rest.getLast h) := by
    rw [List.getLast?_append_of_ne_nil _ h, List.getLast?_eq_some_getLast h]
  rw [lineCount, hlast, List.count_append]
  by_cases hfeed : rest.getLast h = '\n'
  · have hpos : 0 < rest.count '\n' := List.count_pos_iff.2 (hfeed ▸ List.getLast_mem h)
    omega
  · simp only [if_neg hfeed]
    omega

section Matches

variable {P : Type} [Matcher P] [LawfulMatcher P]

namespace LineIndex

variable {p : P} {s : List Char} {a b o : Occurrence}

theorem lineOf_le_of_offset_le (ha : a ∈ Matcher.occurrences p s)
    (hb : b ∈ Matcher.occurrences p s) (h : a.offset ≤ b.offset) :
    (of s).lineOf a.bytes ≤ (of s).lineOf b.bytes := by
  rw [lineOf_of_occurrence ha, lineOf_of_occurrence hb]
  exact Nat.add_le_add_left ((List.take_sublist_take_left h).count_le _) 1

/-- A match with any characters stands on a line of the text. -/
theorem lineOf_le_lineCount (h : o ∈ Matcher.occurrences p s) (hwidth : 0 < o.width) :
    (of s).lineOf o.bytes ≤ lineCount s := by
  have hinside := LawfulMatcher.inside h
  have hrest : s.drop o.offset ≠ [] := by
    rw [Ne, List.drop_eq_nil_iff]
    omega
  have hlt := count_lt_lineCount (s.take o.offset) hrest
  rw [List.take_append_drop] at hlt
  rw [lineOf_of_occurrence h]
  omega

end LineIndex

/-! ## Lines of hits -/

theorem Rule.pairwise_line_taken (r : Rule P) (source : List Char) :
    ((r.taken source).map (r.hitOf (.of source))).Pairwise fun a b => a.line ≤ b.line := by
  rw [List.pairwise_map]
  refine (r.pairwise_taken source).imp_of_mem fun ha hb hlt => ?_
  exact LineIndex.lineOf_le_of_offset_le (r.mem_occurrences_of_mem_taken source ha).1
    (r.mem_occurrences_of_mem_taken source hb).1 (Nat.le_of_lt hlt.1)

end Matches

/-- A match of a getter is not empty. -/
theorem GetterRule.width_pos {g : GetterRule} {source : List Char} {o : Occurrence}
    (h : o ∈ g.rule.pattern.occurrences source) : 0 < o.width := by
  obtain ⟨t, -, hlength, ht⟩ := Pattern.takes_of_mem_occurrences h
  obtain ⟨name, u, vs, -, -, -, rfl⟩ := Pattern.takes_getter ht
  have hget : 0 < " get ".toList.length := by decide
  rw [← hlength, List.length_append, Pattern.lead, List.length_append]
  omega

/-! ## Lines of warnings -/

/-- A warning is about a hit: it has its category, its name and its line. -/
structure BuildWarning.About (w : BuildWarning) (h : Hit) : Prop where
  category : w.category = h.category
  name : w.name = h.name
  line : w.line = h.line

namespace Hit

theorem about_complaint (h : Hit) (code : LogCode) (message : String) (raw : List Char) :
    (h.complaint code message raw).About h :=
  ⟨rfl, rfl, rfl⟩

theorem PartMeans.about {α : Type} {h : Hit} {part : Pattern} {read : List Char → Option α}
    {code : LogCode} {message : String} {value : Option α} {ws : List BuildWarning}
    (hm : h.PartMeans part read code message value ws) : ∀ w ∈ ws, w.About h := by
  cases hm with
  | missing | readable => exact List.forall_mem_nil _
  | malformed => exact List.forall_mem_singleton.2 (h.about_complaint ..)

theorem about_of_mem_warnings (h : Hit) : ∀ w ∈ h.warnings, w.About h := by
  have hm := h.means
  generalize h.bindings = bs at hm
  generalize h.warnings = ws at hm ⊢
  cases hm with
  | color | number | duration | curve => exact List.forall_mem_nil _
  | malformedColor | malformedNumber | malformedDuration =>
    exact List.forall_mem_singleton.2 (h.about_complaint ..)
  | gradient =>
    intro w hw
    obtain ⟨raw, -, rfl⟩ := List.mem_map.1 hw
    exact h.about_complaint ..
  | textStyle _ hsize => exact hsize.about
  | shadow _ hblur hoffset halpha =>
    exact List.forall_mem_append.2
      ⟨List.forall_mem_append.2 ⟨hblur.about, hoffset.about⟩, halpha.about⟩

end Hit

/-- **The lines that are reported are right.** Whatever the matcher and the rules are, each hit
comes from a match, and its line is one plus the line feeds in front of that; unless the match is
empty, it is one of the lines that the source file counts. It never decreases along the hits of one
rule. Each warning belongs to a hit and has its line. With the standard rules no match is empty. -/
theorem Library.lines_right {P : Type} [Matcher P] [LawfulMatcher P] (lib : Library P)
    (f : SourceFile) :
    (lib.scan f.text).hits =
        (lib.origins f.text.toList).map (Origin.hit (.of f.text.toList)) ∧
      (∀ x ∈ lib.origins f.text.toList,
        x.place ∈ Matcher.occurrences x.rule.pattern f.text.toList ∧
          (x.hit (.of f.text.toList)).line =
            1 + (f.text.toList.take x.place.offset).count '\n' ∧
          (0 < x.place.width → (x.hit (.of f.text.toList)).line ≤ f.lines)) ∧
      (∀ s ∈ (lib.scan f.text).byRule, s.hits.Pairwise fun a b => a.line ≤ b.line) ∧
      (lib.extract f.text).build.warnings = (lib.scan f.text).hits.flatMap Hit.warnings ∧
      (∀ h ∈ (lib.scan f.text).hits, ∀ w ∈ h.warnings, w.About h) ∧
      ∀ h ∈ (standard.scan f.text).hits, 1 ≤ h.line ∧ h.line ≤ f.lines := by
  have hplace {Q : Type} [Matcher Q] {lib : Library Q} {x : Origin Q}
      (hx : x ∈ lib.origins f.text.toList) :
      x.place ∈ Matcher.occurrences x.rule.pattern f.text.toList :=
    (x.rule.mem_occurrences_of_mem_taken _ (lib.mem_origins hx).2).1
  refine ⟨lib.hits_eq_origins f.text, fun x hx => ⟨hplace hx, ?_, fun hwidth => ?_⟩,
    fun s hs => ?_, Build.warnings_ofHits _, fun h _ => h.about_of_mem_warnings, fun h hh => ?_⟩
  · exact LineIndex.lineOf_of_occurrence (hplace hx)
  · rw [f.lines_eq]
    exact LineIndex.lineOf_le_lineCount (hplace hx) hwidth
  · rw [lib.byRule_scan] at hs
    obtain ⟨r, -, rfl⟩ := List.mem_map.1 hs
    rw [RuleScan.hits, r.hits_findings_eq]
    exact r.pairwise_line_taken _
  · rw [standard.hits_eq_origins] at hh
    obtain ⟨x, hx, rfl⟩ := List.mem_map.1 hh
    have hrule := (standard.mem_origins hx).1
    rw [standard_rules] at hrule
    obtain ⟨g, -, hg⟩ := List.mem_map.1 hrule
    have hwidth : 0 < x.place.width := GetterRule.width_pos (hg ▸ hplace hx)
    have hline := LineIndex.lineOf_of_occurrence (hplace hx)
    constructor
    · exact Nat.le_trans (Nat.le_add_right 1 _) (Nat.le_of_eq hline.symm)
    · rw [f.lines_eq]
      exact LineIndex.lineOf_le_lineCount (hplace hx) hwidth

/-- A character of two bytes, a blank line, and no line feed at the end. -/
theorem Library.lines_right_crlf :
    LawfulMatcher Pattern ∧
      (standard.scan "// é\r\n\r\nCurve get a => Curves.ease").hits.map (·.line) = [3] ∧
      ∀ h ∈ (standard.scan "// é\r\n\r\nCurve get a => Curves.ease").hits, 1 ≤ h.line ∧
        h.line ≤ SourceFile.lines ⟨"/a.dart", 35, "// é\r\n\r\nCurve get a => Curves.ease"⟩ := by
  refine ⟨inferInstance, ?_, (lines_right standard ⟨"/a.dart", 35, _⟩).2.2.2.2.2⟩
  rw [Scan.hits_standard]
  decide +kernel

end DesignTokens
