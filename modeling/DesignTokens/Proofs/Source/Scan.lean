import DesignTokens.Proofs.Extract.Hits
import DesignTokens.Proofs.Extract.LineIndex
import DesignTokens.Proofs.Source.Match
import Mathlib.Data.List.Nodup

/-!
# The hits of a printed source

Each getter of a printed source has one rule of its own, and only this rule accepts its line. So
scanning gives the hits of the getters, each with its line, sorted by rules. Nothing is dropped as
long as no rule can reach its limit.
-/

namespace DesignTokens

/-! ## The rule of a getter -/

-- No name starts both as a type metric and as a border metric.
theorem startsWithAny_border {name : String} (h : startsWithAny typographyStarts name = true) :
    startsWithAny borderStarts name = false := by
  have hfirst : ∀ s ∈ typographyStarts, ∀ t ∈ borderStarts, Pattern.Apart t.toList s.toList := by
    decide
  rcases List.any_eq_true.1 h with ⟨s, hs, hpre⟩
  rw [List.isPrefixOf_iff_prefix] at hpre
  rcases hpre with ⟨u, hu⟩
  rw [startsWithAny, List.any_eq_false]
  intro t ht hpre'
  rw [List.isPrefixOf_iff_prefix, ← hu] at hpre'
  exact Pattern.not_prefix_of_apart (hfirst s hs t ht) u hpre'

namespace Getter

open Pattern RuleDefinition

/-- The rule of a getter, among the standard ones. -/
def rule (d : Getter) : GetterRule := ⟨d.definition, d.kind.keyword, d.valuePattern⟩

theorem rule_mem (d : Getter) : d.rule ∈ standardGetters := by
  cases d with
  | color n x =>
    simp only [rule, definition, valuePattern]
    split <;> simp [standardGetters, kind, GetterKind.keyword]
  | number n l =>
    simp only [rule, definition, valuePattern]
    split
    · simp [standardGetters, kind, GetterKind.keyword]
    · split <;> simp [standardGetters, kind, GetterKind.keyword]
  | gradient | textStyle | shadow | duration | curve =>
    simp [rule, definition, valuePattern, standardGetters, kind, GetterKind.keyword]

-- Of the rules that fit a line, exactly that of the getter accepts its name.
theorem accepts_iff {d : Getter} {r : RuleDefinition} (h : (d.valuePattern, r) ∈ d.kind.rules) :
    r.guard.accepts d.name.text = true ↔ d.definition = r := by
  cases d with
  | color n x =>
    have hne : colorValue 6 ≠ colorValue 8 := by decide
    have hr : definition (.color n x) = r := by
      simp only [valuePattern] at h
      simp only [definition]
      rcases List.mem_cons.1 h with h | h
      · rcases Prod.mk.inj h with ⟨hvalue, rfl⟩
        by_cases ha : x.alpha = []
        · rw [if_pos ha] at hvalue
          exact absurd hvalue hne
        · rw [if_neg ha]
      · rcases Prod.mk.inj (List.mem_singleton.1 h) with ⟨hvalue, rfl⟩
        by_cases ha : x.alpha = []
        · rw [if_pos ha]
        · rw [if_neg ha] at hvalue
          exact absurd hvalue.symm hne
    subst hr
    refine iff_of_true ?_ rfl
    simp only [definition]
    split <;> rfl
  | number n l =>
    simp only [kind, GetterKind.rules, valuePattern, List.mem_cons, Prod.mk.injEq, true_and,
      List.not_mem_nil, or_false] at h
    simp only [definition, name]
    have hclaimed : startsWithAny claimedStarts n.text =
        (startsWithAny borderStarts n.text || startsWithAny typographyStarts n.text) :=
      List.any_append
    -- a type metric first, then a border metric, and a spacing if it is neither
    cases ht : startsWithAny typographyStarts n.text with
    | true =>
      have hb := startsWithAny_border ht
      rcases h with rfl | rfl | rfl
      · simp [fontScale, NameGuard.accepts, ht]
      · simp [spacingScale, fontScale, NameGuard.accepts, hclaimed, ht]
      · simp [borderScale, fontScale, NameGuard.accepts, hb]
    | false =>
      cases hb : startsWithAny borderStarts n.text <;> rcases h with rfl | rfl | rfl <;>
        simp [fontScale, spacingScale, borderScale, NameGuard.accepts, hclaimed, ht, hb]
  | gradient | textStyle | shadow | duration | curve =>
    cases List.mem_singleton.1 h
    exact iff_of_true rfl rfl

theorem nodup_ids : (standardGetters.map fun g => g.definition.id).Nodup := by
  decide

-- The rule of a getter is the one that fits its line and accepts its name.
theorem id_eq_iff {g : GetterRule} (hg : g ∈ standardGetters) (d : Getter) :
    d.definition.id = g.definition.id ↔ (g.keyword = d.kind.keyword ∧ g.value = d.valuePattern) ∧
      g.definition.guard.accepts d.name.text = true := by
  constructor
  · intro hid
    -- both are standard rules, so one id means one rule
    have heq : d.rule = g := List.inj_on_of_nodup_map nodup_ids d.rule_mem hg hid
    have hrule : (d.valuePattern, d.definition) ∈ d.kind.rules :=
      mem_rules_of_keyword d.rule_mem rfl
    rw [← heq]
    exact ⟨⟨rfl, rfl⟩, (accepts_iff hrule).2 rfl⟩
  · rintro ⟨⟨hk, hv⟩, ha⟩
    have hrule := mem_rules_of_keyword hg hk
    rw [hv] at hrule
    rw [(accepts_iff hrule).1 ha]

/-! ## Findings of a rule -/

def findings (g : GetterRule) (line : Nat) (d : Getter) : List Finding :=
  if g.keyword = d.kind.keyword ∧ g.value = d.valuePattern then
    [if g.definition.guard.accepts d.name.text then .accepted (d.hit line) else .guarded]
  else []

/-- What a rule finds on the lines from `first` on. -/
def findingsFrom (g : GetterRule) (first : Nat) : List Getter → List Finding
  | [] => []
  | d :: ds => d.findings g first ++ findingsFrom g (first + 1) ds

-- The match on a line is accepted as the hit of the getter, or its guard turns it away.
theorem classify_taken {g : GetterRule} (hg : g ∈ standardGetters) {d : Getter}
    (h : g.keyword = d.kind.keyword ∧ g.value = d.valuePattern) (lines : LineIndex)
    (offset bytes width : Nat) :
    g.rule.classify lines ⟨offset, bytes, width, [some d.name.text.toList, some d.core]⟩ =
      some (if g.definition.guard.accepts d.name.text then .accepted (d.hit (lines.lineOf bytes))
        else .guarded) := by
  unfold Rule.classify
  simp only [String.ofList_toList]
  show (if !g.definition.guard.accepts d.name.text then _ else _) = _
  cases ha : g.definition.guard.accepts d.name.text with
  | false => rfl
  | true =>
    have hrule := mem_rules_of_keyword hg h.1
    rw [h.2] at hrule
    have hdef := (accepts_iff hrule).1 ha
    rw [if_neg (by decide), if_neg (Nat.not_lt.2 d.name.short), if_pos rfl, hit, hdef]
    rfl

theorem filterMap_classify {g : GetterRule} (hg : g ∈ standardGetters) (offset : Nat)
    (before : List Char) (ds : List Getter) :
    (occurrencesOf offset (String.utf8Len before) (ds.map (block g))).filterMap
        (g.rule.classify (.of (before ++ (ds.map (block g)).flatMap Block.text))) =
      findingsFrom g (1 + before.count '\n') ds := by
  induction ds generalizing offset before with
  | nil => rfl
  | cons d ds ih =>
    -- a block is one line, so the next one starts one line further on
    have hfeed : (before ++ (d.block g).text).count '\n' = before.count '\n' + 1 := by
      rw [text_block, List.count_append, List.count_append, List.count_eq_zero.2 d.not_mem_line]
      rfl
    have hrest := ih (offset + (d.block g).text.length) (before ++ (d.block g).text)
    have hline := LineIndex.lineOf_of_append before
      ((d.block g).text ++ (ds.map (block g)).flatMap Block.text)
    rw [String.utf8Len_append, List.append_assoc, hfeed] at hrest
    rw [String.utf8ByteSize_ofList] at hline
    rw [List.map_cons, occurrencesOf, List.filterMap_append, List.flatMap_cons, hrest,
      findingsFrom]
    congr 1
    generalize LineIndex.of _ = lines at hline
    unfold block findings
    split
    · rename_i h
      rw [← hline]
      exact (List.filterMap_cons_some (classify_taken hg h lines offset _ _)).trans rfl
    · rfl

-- The hit of a getter is found by its rule and by no other.
theorem filterMap_findings {g : GetterRule} (hg : g ∈ standardGetters) (first : Nat)
    (ds : List Getter) :
    (findingsFrom g first ds).filterMap Finding.hit? =
      (hitsFrom first ds).filter fun h => h.rule = g.definition.id := by
  induction ds generalizing first with
  | nil => rfl
  | cons d ds ih =>
    rw [findingsFrom, List.filterMap_append, ih, hitsFrom, List.filter_cons]
    have hrule : (d.hit first).rule = g.definition.id ↔ _ := id_eq_iff hg d
    unfold findings
    by_cases hfits : g.keyword = d.kind.keyword ∧ g.value = d.valuePattern
    · rw [if_pos hfits]
      cases ha : g.definition.guard.accepts d.name.text with
      | false => simp [hrule, hfits, ha, Finding.hit?]
      | true => simp [hrule, hfits, ha, Finding.hit?]
    · rw [if_neg hfits]
      simp [hrule, hfits]

theorem not_isDropped {g : GetterRule} {first : Nat} {ds : List Getter} {f : Finding}
    (h : f ∈ findingsFrom g first ds) : f.isDropped = false := by
  induction ds generalizing first with
  | nil => cases h
  | cons d ds ih =>
    rcases List.mem_append.1 h with h | h
    · unfold findings at h
      split at h
      · rw [List.mem_singleton.1 h]
        split <;> rfl
      · cases h
    · exact ih h

theorem length_hitsFrom (first : Nat) (ds : List Getter) :
    (hitsFrom first ds).length = ds.length := by
  induction ds generalizing first with
  | nil => rfl
  | cons d ds ih => rw [hitsFrom, List.length_cons, ih, List.length_cons]

/-! ## Scanning a printed source -/

theorem toList_print (g : GetterRule) (ds : List Getter) :
    (print ds).toList = (ds.map (block g)).flatMap Block.text := by
  rw [print, String.toList_ofList, List.flatMap_map]
  simp only [text_block]

/-- **A rule finds what it finds on the lines, one after the other.** -/
theorem findings_print {g : GetterRule} (hg : g ∈ standardGetters) {ds : List Getter}
    (h : ds.length ≤ hitLimit) :
    g.rule.findings (.of (print ds).toList) (print ds).toList = findingsFrom g 1 ds := by
  have hnone : g.rule.pattern.NoWay [] := noWay_getter_nil _ _
  have hfits : ∀ b ∈ ds.map (block g), b.Fits g.rule.pattern := by
    intro b hb
    rcases List.mem_map.1 hb with ⟨d, -, rfl⟩
    exact fits_block hg d
  -- no rule has more hits than there are getters
  have hroom : ((findingsFrom g 1 ds).filterMap Finding.hit?).length ≤ hitLimit := by
    rw [filterMap_findings hg]
    apply Nat.le_trans (List.length_filter_le ..)
    rw [length_hitsFrom]
    exact h
  have hclassify := filterMap_classify hg 0 [] ds
  rw [List.nil_append, ← toList_print g] at hclassify
  have hoccurrences : Matcher.occurrences g.rule.pattern (print ds).toList =
      occurrencesOf 0 0 (ds.map (block g)) := by
    rw [toList_print g]
    exact occurrences_blocks hnone hfits
  rw [Rule.findings, hoccurrences]
  exact (congrArg (Rule.limited hitLimit · []) hclassify).trans (Rule.limited_eq [] hroom)

theorem hits_print {g : GetterRule} (hg : g ∈ standardGetters) {ds : List Getter}
    (h : ds.length ≤ hitLimit) :
    g.hits (print ds) = (hitsFrom 1 ds).filter fun hit => hit.rule = g.definition.id := by
  rw [GetterRule.hits, findings_print hg h, filterMap_findings hg]

/-- **Scanning a printed source gives the hits of its getters.** -/
theorem hits_scan_print {ds : List Getter} (h : ds.length ≤ hitLimit) :
    (Library.standard.scan (print ds)).hits = hits ds := by
  have hdefs : standardGetters.map (·.definition) = standard := rfl
  rw [Scan.hits_standard, hits, ← hdefs, List.flatMap_map]
  exact List.flatMap_congr fun g hg => hits_print hg h

/-- **Nothing of a printed source is dropped.** -/
theorem dropped_scan_print {ds : List Getter} (h : ds.length ≤ hitLimit) :
    (Library.standard.scan (print ds)).metrics.dropped = 0 := by
  show List.countP _ _ = 0
  rw [Library.byRule_scan_standard, standardRules, List.map_map, List.countP_eq_zero]
  intro f hf
  rcases List.mem_flatMap.1 hf with ⟨s, hs, hf⟩
  rcases List.mem_map.1 hs with ⟨g, hg, rfl⟩
  have hfind : f ∈ g.rule.findings (.of (print ds).toList) (print ds).toList := hf
  rw [findings_print hg h] at hfind
  rw [not_isDropped hfind]
  exact Bool.false_ne_true

end Getter

end DesignTokens
