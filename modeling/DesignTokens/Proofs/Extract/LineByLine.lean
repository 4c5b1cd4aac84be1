import DesignTokens.Proofs.Extract.LineIndex
import DesignTokens.Proofs.Extract.Order
import DesignTokens.Proofs.Pattern.Break

/-!
# Declarations on one line

Seven of the ten standard rules look for a declaration that has no line feed in it. Such a rule can
be applied to the lines of a source one after the other: whatever is left unfinished at the end of
a line neither hides a declaration on the next line nor becomes one together with it.
-/

namespace DesignTokens

/-- A hit with so many more lines in front of it. -/
def Hit.below (lines : Nat) (h : Hit) : Hit :=
  { h with line := h.line + lines }

/-- The hits that bear the id of a rule. -/
def Scan.hitsOf (s : Scan) (rule : String) : List Hit :=
  s.hits.filter fun h => h.rule = rule

/-! ## A rule on both sides of a line break -/

namespace Rule

variable (r : Rule) (chars bytes : Nat)

-- Where a match stands makes no difference to whether it counts.
theorem acceptable_moved (o : Occurrence) : r.Acceptable (o.moved chars bytes) ↔ r.Acceptable o :=
  Iff.rfl

variable {r}

theorem acceptable_break (h : r.pattern.avoids '\n' = true) (s rest : List Char) :
    r.acceptable (s ++ '\n' :: rest) = r.acceptable s ++
      (r.acceptable rest).map
        (Occurrence.moved (s.length + 1) (String.utf8Len (s ++ ['\n']))) := by
  show (r.pattern.occurrences _).filter _ = _
  rw [Pattern.occurrences_break h, List.filter_append, List.filter_map]
  simp only [Function.comp_def, acceptable_moved]
  rfl

-- What is over the limit on one side is over it in the whole text.
theorem taken_break (h : r.pattern.avoids '\n' = true) (s rest : List Char) :
    r.taken (s ++ '\n' :: rest) = (r.taken s ++ (r.taken rest).map
      (Occurrence.moved (s.length + 1) (String.utf8Len (s ++ ['\n'])))).take 10000 := by
  have hlimit {α : Type} (n : Nat) (xs ys : List α) :
      (xs ++ ys).take n = (xs.take n ++ ys.take n).take n := by
    rw [List.take_append, List.take_append, List.take_take, List.take_take, List.length_take,
      Nat.min_self]
    congr 2
    omega
  rw [taken, acceptable_break h, hlimit, ← List.map_take]
  rfl

/-- In front of a break a match has the line that it has without the rest. -/
theorem hitOf_break {s rest : List Char} {o : Occurrence} (ho : o ∈ r.taken s) :
    r.hitOf (.of (s ++ '\n' :: rest)) o = r.hitOf (.of s) o := by
  have hbytes := LawfulMatcher.bytes (r.mem_occurrences_of_mem_taken s ho).1
  rw [hitOf, hbytes, Occurrence.byteOffset, LineIndex.lineOf_of_append_left,
    ← Occurrence.byteOffset, ← hbytes, hitOf]

/-- Behind a break a match is as many lines further down as there are in front of it. -/
theorem hitOf_moved {s rest : List Char} {o : Occurrence} (ho : o ∈ r.taken rest) :
    r.hitOf (.of (s ++ '\n' :: rest)) (o.moved (s.length + 1) (String.utf8Len (s ++ ['\n']))) =
      (r.hitOf (.of rest) o).below (s.count '\n' + 1) := by
  have hbytes := LawfulMatcher.bytes (r.mem_occurrences_of_mem_taken rest ho).1
  have hline := LineIndex.lineOf_of_append_right (s ++ ['\n']) rest o.offset
  rw [← Occurrence.byteOffset, ← hbytes, List.append_assoc, List.singleton_append, Nat.add_comm,
    List.count_append, List.count_singleton_self] at hline
  rw [hitOf, Occurrence.moved]
  simp only [hline]
  rfl

end Rule

/-! ## The hits of a rule -/

namespace Library

theorem hitsOf_scan {ds : List RuleDefinition} {lib : Library} (h : ofDefinitions ds = .ok lib)
    {r : Rule} (hr : r ∈ lib.rules) (source : String) : (lib.scan source).hitsOf r.id =
      (r.taken source.toList).map (r.hitOf (.of source.toList)) := by
  rw [Scan.hitsOf, lib.filter_hits_scan (q := fun r' => decide (r'.id = r.id)) (fun _ _ _ => rfl),
    filter_applied_id h hr, List.flatMap_singleton]

/-- A rule that no line feed belongs to finds on both sides of a line break what it finds there
alone, up to its limit. -/
theorem hitsOf_break {ds : List RuleDefinition} {lib : Library} (h : ofDefinitions ds = .ok lib)
    {r : Rule} (hr : r ∈ lib.rules) (hline : r.pattern.avoids '\n' = true) (s₁ s₂ : String) :
    (lib.scan (s₁ ++ "\n" ++ s₂)).hitsOf r.id =
      ((lib.scan s₁).hitsOf r.id ++
        ((lib.scan s₂).hitsOf r.id).map (Hit.below (s₁.toList.count '\n' + 1))).take 10000 := by
  have hchars : (s₁ ++ "\n" ++ s₂).toList = s₁.toList ++ '\n' :: s₂.toList := by
    rw [String.toList_append, String.toList_append, List.append_assoc]
    rfl
  have hfront : (r.taken s₁.toList).map (r.hitOf (.of (s₁.toList ++ '\n' :: s₂.toList))) =
      (r.taken s₁.toList).map (r.hitOf (.of s₁.toList)) :=
    List.map_congr_left fun _ ho => Rule.hitOf_break ho
  rw [hitsOf_scan h hr, hitsOf_scan h hr, hitsOf_scan h hr, hchars, Rule.taken_break hline,
    List.map_take, List.map_append, List.map_map, List.map_map, hfront]
  refine congrArg (fun hits => List.take 10000 (_ ++ hits)) ?_
  exact List.map_congr_left fun _ ho => Rule.hitOf_moved ho

/-! ## The standard rules -/

/-- The ids of the standard rules whose declarations stand on one line. -/
def oneLineRules : List String :=
  ["color_argb", "color_rgb", "font_scale", "spacing_scale", "border_scale", "duration", "curve"]

theorem avoids_newline_iff {r : Rule} (hr : r ∈ standard.rules) :
    r.pattern.avoids '\n' = true ↔ r.id ∈ oneLineRules := by
  have hall : ∀ r ∈ standard.rules, r.pattern.avoids '\n' = decide (r.id ∈ oneLineRules) := by
    rw [standard_rules]
    decide +kernel
  rw [hall r hr, decide_eq_true_iff]

/-- **Colors, numbers, durations and curves are found line by line.** The hits of a text with a
line break are those of the text above it and those of the text below it, so many lines further
down, whatever stands unfinished on either side. -/
theorem hits_line_by_line {r : Rule} (hr : r ∈ standard.rules) (hid : r.id ∈ oneLineRules)
    (s₁ s₂ : String)
    (hroom : (r.acceptable s₁.toList).length + (r.acceptable s₂.toList).length ≤ 10000) :
    (standard.scan (s₁ ++ "\n" ++ s₂)).hitsOf r.id =
      (standard.scan s₁).hitsOf r.id ++
        ((standard.scan s₂).hitsOf r.id).map (Hit.below (s₁.toList.count '\n' + 1)) := by
  have hshort (s : String) :
      ((standard.scan s).hitsOf r.id).length ≤ (r.acceptable s.toList).length := by
    rw [hitsOf_scan ofDefinitions_standard hr, List.length_map]
    exact List.length_take_le' ..
  rw [hitsOf_break ofDefinitions_standard hr ((avoids_newline_iff hr).2 hid),
    List.take_of_length_le]
  rw [List.length_append, List.length_map]
  exact (Nat.add_le_add (hshort s₁) (hshort s₂)).trans hroom

/-- The curve that is cut off in front of its name is none, and the one below it is found. -/
theorem hits_line_by_line_cut :
    ∃ r ∈ standard.rules, r.id = "curve" ∧
      (r.acceptable "Curve get in => Curves.easeIn;\nCurve get cut => Curves.".toList).length
        + (r.acceptable "easeOut;\nCurve get far => Curves.linear;".toList).length ≤ 10000 ∧
      (standard.scan ("Curve get in => Curves.easeIn;\nCurve get cut => Curves." ++ "\n"
          ++ "easeOut;\nCurve get far => Curves.linear;")).hitsOf "curve" =
        [⟨.animations, "curve", .curve, "in", ["easeIn"], 1⟩] ++
          [⟨.animations, "curve", .curve, "far", ["linear"], 4⟩] := by
  have hr : (⟨.curve, "Curve", Pattern.curveValue⟩ : GetterRule).rule ∈ standard.rules := by
    rw [standard_rules]
    decide +kernel
  have hroom : ((⟨.curve, "Curve", Pattern.curveValue⟩ : GetterRule).rule.acceptable
      "Curve get in => Curves.easeIn;\nCurve get cut => Curves.".toList).length
        + ((⟨.curve, "Curve", Pattern.curveValue⟩ : GetterRule).rule.acceptable
          "easeOut;\nCurve get far => Curves.linear;".toList).length ≤ 10000 := by
    decide +kernel
  refine ⟨_, hr, rfl, hroom, (hits_line_by_line hr (by decide) _ _ hroom).trans ?_⟩
  rw [Scan.hitsOf, Scan.hitsOf, Scan.hits_standard, Scan.hits_standard]
  decide +kernel

end Library

end DesignTokens
