import DesignTokens.Proofs.Extract.Fold
import DesignTokens.Proofs.Extract.Order
import DesignTokens.Run.Job

/-!
# Categories do not depend on each other

All rules of a library write into one list of hits, one record of counts, one list of notices and
one model. What is there about a category is nevertheless what its own rules give: it is the same
with any other library that has these rules in the same order, whatever else is in it and wherever
it stands.
-/

namespace DesignTokens

/-! ## Warnings and notices of a category -/

namespace Hit

theorem PartMeans.category_eq {α : Type} {h : Hit} {part : Pattern} {read : List Char → Option α}
    {code : LogCode} {message : String} {value : Option α} {ws : List BuildWarning}
    (hm : h.PartMeans part read code message value ws) {w : BuildWarning} (hw : w ∈ ws) :
    w.category = h.category := by
  cases hm with
  | missing | readable => cases hw
  | malformed =>
    rw [List.mem_singleton.1 hw]
    rfl

/-- A hit only complains about its own category. -/
theorem Means.category_eq {h : Hit} {bs : List (String × TokenValue)} {ws : List BuildWarning}
    (hm : h.Means bs ws) {w : BuildWarning} (hw : w ∈ ws) : w.category = h.category := by
  cases hm with
  | color | number | duration | curve => cases hw
  | malformedColor | malformedNumber | malformedDuration =>
    rw [List.mem_singleton.1 hw]
    rfl
  | gradient =>
    obtain ⟨stop, -, rfl⟩ := List.mem_map.1 hw
    rfl
  | textStyle _ hsize => exact hsize.category_eq hw
  | shadow _ hblur hoffset halpha =>
    rcases List.mem_append.1 hw with hw | hw
    · rcases List.mem_append.1 hw with hw | hw
      · exact hblur.category_eq hw
      · exact hoffset.category_eq hw
    · exact halpha.category_eq hw

end Hit

theorem Build.filter_warnings_category (hits : List Hit) (c : Category) :
    ((ofHits hits).warnings.filter fun w => w.category = c) =
      (hits.filter fun h => h.category = c).flatMap Hit.warnings := by
  rw [warnings_ofHits]
  refine filter_flatMap_of_forall fun h _ w hw => ?_
  rw [h.means.category_eq hw]

theorem Finding.rule_of_notice? {rule : String} {f : Finding} {n : Notice}
    (h : f.notice? rule = some n) : n.details.lookup "rule" = some rule := by
  cases f <;> cases h <;> rfl

namespace Library

variable {P : Type} [Matcher P]

/-- What a scan has to say about the rules of a category, the warnings about dropped matches
included. -/
def noticesIn (lib : Library P) (c : Category) (source : String) : List Notice :=
  (lib.scan source).notices.filter fun n =>
    ∃ r ∈ lib.rulesFor c, n.details.lookup "rule" = some r.id

variable {ds : List RuleDefinition} {lib : Library P} (h : ofDefinitions ds = .ok lib)
include h

-- An id belongs to one category.
theorem exists_rulesFor_iff {r : Rule P} (hr : r ∈ lib.rules) (c : Category) :
    (∃ r' ∈ lib.rulesFor c, some r.id = some r'.id) ↔ r.category = c := by
  constructor
  · rintro ⟨r', hr', hid⟩
    obtain ⟨hmem, hcategory⟩ := List.mem_filter.1 hr'
    have heq : r = r' := List.inj_on_of_nodup_map (nodup_ids h) hr hmem (Option.some.inj hid)
    rw [heq]
    exact of_decide_eq_true hcategory
  · rintro hc
    exact ⟨r, List.mem_filter.2 ⟨hr, decide_eq_true hc⟩, rfl⟩

theorem noticesIn_eq (c : Category) (source : String) : lib.noticesIn c source =
    (lib.rulesFor c).flatMap fun r =>
      RuleScan.notices ⟨r, r.findings (.of source.toList) source.toList⟩ := by
  rw [noticesIn, Scan.notices, List.filter_append, byRule_scan, List.flatMap_map,
    filter_flatMap_of_forall (q := fun r => decide (r.category = c)), filter_applied]
  · rw [List.filter_eq_nil_iff.2, List.append_nil]
    -- the counts at the end are about no rule
    rintro n hn habout
    obtain ⟨r, -, hrule⟩ := of_decide_eq_true habout
    rw [List.mem_singleton.1 hn] at hrule
    cases hrule
  · intro r hr n hn
    obtain ⟨f, -, hf⟩ := List.mem_filterMap.1 hn
    rw [Finding.rule_of_notice? hf]
    exact decide_eq_decide.2 (exists_rulesFor_iff h (lib.applied_perm.mem_iff.1 hr) c)

end Library

/-! ## Two libraries -/

/-- Two libraries give the same in a category when they are applied to a source. -/
structure Library.SameIn {P : Type} [Matcher P] (c : Category) (source : String)
    (lib lib' : Library P) : Prop where
  hits : ((lib.extract source).scan.hits.filter fun h => h.category = c) =
    (lib'.extract source).scan.hits.filter fun h => h.category = c
  count : (lib.extract source).scan.metrics.perCategory.lookup c =
    (lib'.extract source).scan.metrics.perCategory.lookup c
  table : (lib.extract source).build.model.table c = (lib'.extract source).build.model.table c
  /-- What the scan has to say, warnings about dropped matches included. -/
  notices : lib.noticesIn c source = lib'.noticesIn c source
  warnings : ((lib.extract source).build.warnings.filter fun w => w.category = c) =
    (lib'.extract source).build.warnings.filter fun w => w.category = c

namespace Library

variable {P : Type} [Matcher P]

theorem lookup_perCategory (lib : Library P) (c : Category) (source : String) :
    (lib.scan source).metrics.perCategory.lookup c =
      some ((lib.scan source).hits.filter fun h => h.category = c).length := by
  rw [perCategory_scan, ← List.countP_eq_length_filter]
  cases c <;> rfl

variable {ds ds' : List RuleDefinition} {lib lib' : Library P} {c : Category}

theorem sameIn_of_rulesFor (h : ofDefinitions ds = .ok lib) (h' : ofDefinitions ds' = .ok lib')
    (hrules : lib.rulesFor c = lib'.rulesFor c) (source : String) : SameIn c source lib lib' := by
  have hhits : ((lib.scan source).hits.filter fun h => h.category = c) =
      (lib'.scan source).hits.filter fun h => h.category = c := by
    rw [filter_hits_category, filter_hits_category, hrules]
  exact {
    hits := hhits
    count := by
      show (lib.scan source).metrics.perCategory.lookup c = _
      rw [lookup_perCategory, hhits]
      exact (lib'.lookup_perCategory c source).symm
    table := by
      show (Build.ofHits (lib.scan source).hits).model.table c = _
      rw [Build.table_model_ofHits, bindingsIn, hhits]
      exact (Build.table_model_ofHits _ c).symm
    notices := by
      rw [noticesIn_eq h, noticesIn_eq h', hrules]
    warnings := by
      show ((Build.ofHits (lib.scan source).hits).warnings.filter fun w => w.category = c) = _
      rw [Build.filter_warnings_category, hhits]
      exact (Build.filter_warnings_category _ c).symm }

/-- **A category depends on its own rules only.** Definitions with the same ones of a category in
the same order give the same in it, and in particular those that lack another category do. -/
theorem sameIn_of_own_rules (h : ofDefinitions ds = .ok lib) (c : Category) :
    (∀ ds' (lib' : Library P), ofDefinitions ds' = .ok lib' →
      (ds'.filter fun d => d.category = c) = (ds.filter fun d => d.category = c) →
        ∀ source, SameIn c source lib lib') ∧
    ∀ other, other ≠ c → ∃ lib' : Library P,
      ofDefinitions (ds.filter fun d => d.category ≠ other) = .ok lib' ∧
        ∀ source, SameIn c source lib lib' := by
  have hsame (ds' : List RuleDefinition) (lib' : Library P) (h' : ofDefinitions ds' = .ok lib')
      (hc : (ds'.filter fun d => d.category = c) = ds.filter fun d => d.category = c)
      (source : String) : SameIn c source lib lib' := by
    refine sameIn_of_rulesFor h h' ?_ source
    rw [rulesFor_eq h, rulesFor_eq h', hc]
  refine ⟨hsame, fun other hne => ?_⟩
  obtain ⟨lib', h'⟩ := exists_ofDefinitions_filter h fun d => d.category ≠ other
  refine ⟨lib', h', hsame _ lib' h' ?_⟩
  rw [List.filter_filter]
  refine List.filter_congr fun d _ => ?_
  rw [Bool.eq_iff_iff, Bool.and_eq_true, decide_eq_true_iff, decide_eq_true_iff]
  exact and_iff_left_of_imp fun hd => hd ▸ hne.symm

/-- Colors are the same when the rules for them stand between others, or alone. -/
theorem sameIn_of_own_rules_colors :
    ofDefinitions RuleDefinition.standard = .ok standard ∧
      (∃ lib', ofDefinitions [.borderScale, .colorArgb, .curve, .colorRgb, .gradient] = .ok lib' ∧
        ∀ source, SameIn .colors source standard lib') ∧
      ∃ lib', ofDefinitions (RuleDefinition.standard.filter fun d => d.category ≠ .borders) =
          .ok lib' ∧ ∀ source, SameIn .colors source standard lib' := by
  have hmixed : ofDefinitions [.borderScale, .colorArgb, .curve, .colorRgb, .gradient] =
      .ok (⟨[RuleDefinition.borderScale, .colorArgb, .curve, .colorRgb, .gradient].filterMap
        RuleDefinition.rule?⟩ : Library) :=
    ofDefinitions_eq_ok_iff.2 ⟨by decide +kernel, by decide +kernel⟩
  exact ⟨ofDefinitions_standard,
    ⟨_, hmixed, (sameIn_of_own_rules ofDefinitions_standard .colors).1 _ _ hmixed rfl⟩,
    (sameIn_of_own_rules ofDefinitions_standard .colors).2 .borders (by decide)⟩

end Library

end DesignTokens
