import DesignTokens.Proofs.Extract.Origins
import DesignTokens.Proofs.Rule.Library
import Mathlib.Data.List.Nodup

/-!
# Order and counts of a scan

The hits of a scan stand in the order of the categories, then of the rules, then of the source. The
counts that go with them are no second account: each can be read off the hits, or off what there is
to say about matches that were dropped. A rule is complained about for its limit at most once, at
the first match for which it has no room.
-/

namespace DesignTokens

/-! ## The match that is one too many -/

/-- The line of a match that is one hit too many. -/
def Finding.overLine? : Finding → Option Nat
  | overLimit line => some line
  | _ => none

/-- The notice about a match that is one hit too many. -/
def Rule.limitNotice {P : Type} (r : Rule P) (line : Nat) : Notice :=
  .warning .hitLimitReached "Rule hit limit reached; remaining matches ignored" line
    [("rule", r.id), ("limit", "10000")]

namespace Rule

variable {P : Type}

-- The hit that would be the first one without room is the one that is too many.
theorem overLine?_limited {room : Nat} {fs : List Finding} (done : List Finding)
    (h : ∀ f ∈ fs, ∀ line, f ≠ .overLimit line) :
    (limited room fs done).filterMap Finding.overLine? =
      done.reverse.filterMap Finding.overLine?
        ++ ((fs.filterMap Finding.hit?)[room]?.map Hit.line).toList := by
  induction fs generalizing room done with
  | nil => cases room <;> simp [limited]
  | cons f fs ih =>
    have hrest : ∀ f ∈ fs, ∀ line, f ≠ .overLimit line :=
      fun f hf => h f (List.mem_cons_of_mem _ hf)
    cases f with
    | accepted hit =>
      cases room with
      | zero => simp [limited, Finding.overLine?, Finding.hit?]
      | succ room => simp [limited, ih _ hrest, Finding.overLine?, Finding.hit?]
    | guarded | tooLong =>
      cases room <;>
        simp [limited, ih _ hrest, List.filterMap_cons, Finding.overLine?, Finding.hit?]
    | overLimit line => exact absurd rfl (h _ List.mem_cons_self line)

theorem overLine?_findings [Matcher P] (r : Rule P) (lines : LineIndex) (source : List Char) :
    (r.findings lines source).filterMap Finding.overLine? =
      ((r.acceptable source)[10000]?.map fun o => lines.lineOf o.bytes).toList := by
  rw [findings, overLine?_limited [] fun f hf => r.ne_overLimit_of_mem lines hf,
    filterMap_hit?_classify, List.reverse_nil, List.filterMap_nil, List.nil_append,
    List.getElem?_map, Option.map_map]
  rfl

-- Of all notices of a rule, only this one has the code of the limit.
theorem filter_notices (r : Rule P) (fs : List Finding) :
    (fs.filterMap (Finding.notice? r.id)).filter (fun n => n.code = .hitLimitReached) =
      (fs.filterMap Finding.overLine?).map r.limitNotice := by
  rw [List.filter_filterMap, List.map_filterMap]
  refine List.filterMap_congr fun f _ => ?_
  cases f <;> rfl

end Rule

/-! ## Rules and hits -/

section Library

variable {P : Type} [Matcher P] {ds : List RuleDefinition} {lib : Library P}
  (h : Library.ofDefinitions ds = .ok lib)
include h

theorem Library.nodup_ids_applied : (lib.applied.map (·.id)).Nodup :=
  (lib.applied_perm.map _).nodup_iff.2 (nodup_ids h)

-- The id tells which rule a hit comes from.
theorem Library.filter_applied_id {r : Rule P} (hr : r ∈ lib.rules) :
    (lib.applied.filter fun r' => r'.id = r.id) = [r] := by
  classical
  have hmem : r ∈ lib.applied := lib.applied_perm.mem_iff.2 hr
  have hinj := List.inj_on_of_nodup_map (nodup_ids_applied h)
  have hself : (lib.applied.filter fun r' => r'.id = r.id) =
      lib.applied.filter (· == r) := by
    refine List.filter_congr fun r' hr' => ?_
    rw [Bool.eq_iff_iff, decide_eq_true_iff, beq_iff_eq]
    exact ⟨fun hid => hinj hr' hmem hid, fun heq => heq ▸ rfl⟩
  rw [hself, List.filter_beq, List.count_eq_one_of_mem (nodup_ids_applied h).of_map hmem]
  rfl

-- A rule of an accepted library has those hits that bear its id.
theorem Library.countP_hits_rule {r : Rule P} (hr : r ∈ lib.rules) (source : String) :
    ((lib.scan source).hits.countP fun x => x.rule = r.id) = (r.taken source.toList).length := by
  rw [List.countP_eq_length_filter,
    lib.filter_hits_scan (q := fun r' => decide (r'.id = r.id)) (fun _ _ _ => rfl),
    filter_applied_id h hr, List.flatMap_singleton, List.length_map]

end Library

/-! ## Counts -/

namespace Scan

theorem countTotal_categories (hits : List Hit) :
    countTotal (Category.all.map fun c => (c, hits.countP fun x => x.category = c)) =
      hits.length := by
  induction hits with
  | nil => rfl
  | cons hit hits ih =>
    simp only [Category.all, List.map_cons, List.map_nil, countTotal, List.countP_cons,
      List.length_cons] at ih ⊢
    cases hit.category <;> simp <;> omega

-- The rules with a hit are those that the hits name, each at its first hit.
theorem eraseDups_rules {P : Type} {rules : List (Rule P)} (hids : (rules.map (·.id)).Nodup)
    (lines : LineIndex) (taken : Rule P → List Occurrence) :
    ((rules.flatMap fun r => (taken r).map (r.hitOf lines)).map Hit.rule).eraseDups =
      (rules.filter fun r => !(taken r).isEmpty).map (·.id) := by
  induction rules with
  | nil => rfl
  | cons r rules ih =>
    rw [List.map_cons, List.nodup_cons] at hids
    have hrest := ih hids.2
    have hown : (taken r).map (Hit.rule ∘ r.hitOf lines) = List.replicate (taken r).length r.id :=
      List.map_const'
    rw [List.flatMap_cons, List.map_append, List.map_map, hown, List.filter_cons]
    cases taken r with
    | nil => exact hrest
    | cons o os =>
      rw [List.length_cons, List.replicate_succ, List.cons_append, List.eraseDups_cons,
        List.filter_append, List.filter_replicate_of_neg (by simp), List.nil_append,
        List.filter_eq_self.2, hrest]
      · rfl
      · intro id hid
        obtain ⟨hit, hhit, rfl⟩ := List.mem_map.1 hid
        obtain ⟨r', hr', hhit⟩ := List.mem_flatMap.1 hhit
        obtain ⟨o', -, rfl⟩ := List.mem_map.1 hhit
        have hne : r'.id ≠ r.id := fun heq => hids.1 (heq ▸ List.mem_map_of_mem hr')
        exact Bool.not_eq_true' _ ▸ beq_eq_false_iff_ne.2 hne

end Scan

namespace Library

variable {P : Type} [Matcher P] (lib : Library P) (source : String)

theorem perCategory_scan : (lib.scan source).metrics.perCategory =
    Category.all.map fun c => (c, (lib.scan source).hits.countP fun x => x.category = c) := by
  simp only [List.countP_eq_length_filter, ← hitsIn_scan]
  rfl

theorem matchedRules_scan (hids : (lib.applied.map (·.id)).Nodup) :
    (lib.scan source).metrics.matchedRules =
      ((lib.scan source).hits.map (·.rule)).eraseDups := by
  have hrule (r : Rule P) :
      (RuleScan.hits ⟨r, r.findings (.of source.toList) source.toList⟩).isEmpty =
        (r.taken source.toList).isEmpty := by
    rw [RuleScan.hits, r.hits_findings_eq, List.isEmpty_map]
  rw [hits_scan_eq, Scan.eraseDups_rules hids, Scan.metrics, byRule_scan, List.filter_map,
    List.map_map]
  simp only [Function.comp_def, hrule]

theorem dropped_scan : (lib.scan source).metrics.dropped =
    (lib.scan source).notices.countP fun n =>
      n.code = .hitLimitReached ∨ n.code = .nameTooLong := by
  have hrule (rs : RuleScan P) : rs.findings.countP Finding.isDropped =
      rs.notices.countP fun n => n.code = .hitLimitReached ∨ n.code = .nameTooLong := by
    rw [RuleScan.notices, List.countP_filterMap]
    refine congrArg (fun p => List.countP p rs.findings) (funext fun f => ?_)
    cases f <;> rfl
  rw [Scan.dropped_metrics, Scan.notices, List.countP_append, List.countP_flatMap,
    List.countP_flatMap]
  simp only [Function.comp_def, hrule]
  rfl

/-- The notices of a scan about the limit: one for each rule with a match too many. -/
theorem limitNotices_scan :
    ((lib.scan source).notices.filter fun n => n.code = .hitLimitReached) =
      lib.applied.filterMap fun r =>
        (r.acceptable source.toList)[10000]?.map fun o =>
          r.limitNotice ((LineIndex.of source.toList).lineOf o.bytes) := by
  have hrule (r : Rule P) :
      (RuleScan.notices ⟨r, r.findings (.of source.toList) source.toList⟩).filter
        (fun n => n.code = .hitLimitReached) =
          ((r.acceptable source.toList)[10000]?.map fun o =>
            r.limitNotice ((LineIndex.of source.toList).lineOf o.bytes)).toList := by
    rw [RuleScan.notices, Rule.filter_notices, Rule.overLine?_findings, ← Option.toList_map,
      Option.map_map]
    rfl
  rw [Scan.notices, List.filter_append, List.filter_flatMap, byRule_scan, List.flatMap_map,
    List.filterMap_eq_flatMap_toList]
  simp only [hrule]
  exact List.append_nil _

end Library

/-! ## Scans of accepted libraries -/

/-- What is known of the scan of a source with the library that some definitions make. -/
structure Scan.Orderly {P : Type} [Matcher P] (ds : List RuleDefinition) (lib : Library P)
    (source : String) (sc : Scan P) : Prop where
  /-- The library holds the rules in the order of their definition. -/
  rules : ds.map RuleDefinition.rule? = lib.rules.map some
  hits : sc.hits = Category.all.flatMap fun c =>
    (lib.rules.filter fun r => r.category = c).flatMap fun r =>
      (((Matcher.occurrences r.pattern source.toList).filter fun o => r.Acceptable o).take
        10000).map (r.hitOf (.of source.toList))
  /-- Matches stand in source order and do not overlap. -/
  sourceOrder : ∀ r ∈ lib.rules,
    (Matcher.occurrences r.pattern source.toList).Pairwise fun a b =>
      a.offset < b.offset ∧ a.offset + a.width ≤ b.offset
  /-- There is a group for the name and one for each captured text. -/
  captures : ∀ r ∈ lib.rules, ∀ o ∈ Matcher.occurrences r.pattern source.toList,
    r.Acceptable o →
      (r.hitOf (.of source.toList) o).captures.length + 1 = Matcher.groupCount r.pattern
  perCategory : sc.metrics.perCategory =
    Category.all.map fun c => (c, sc.hits.countP fun x => x.category = c)
  total : sc.metrics.total = sc.hits.length
  matchedRules : sc.metrics.matchedRules = (sc.hits.map (·.rule)).eraseDups
  dropped : sc.metrics.dropped = sc.notices.countP fun n =>
    n.code = .hitLimitReached ∨ n.code = .nameTooLong
  /-- No rule is complained about twice for the limit. -/
  limitOnce : ((sc.notices.filter fun n => n.code = .hitLimitReached).map fun n =>
    n.details.lookup "rule").Nodup
  limitFull : ∀ n ∈ sc.notices, n.code = .hitLimitReached → ∃ r ∈ lib.rules,
    n.details.lookup "rule" = some r.id ∧ (sc.hits.countP fun x => x.rule = r.id) = 10000

namespace Library

variable {P : Type} [Matcher P] {ds : List RuleDefinition} {lib : Library P}

theorem length_captures [LawfulMatcher P] {r : Rule P} {source : List Char} {o : Occurrence}
    (ho : o ∈ Matcher.occurrences r.pattern source) (h : r.Acceptable o) (lines : LineIndex) :
    (r.hitOf lines o).captures.length + 1 = Matcher.groupCount r.pattern := by
  obtain ⟨name, hname, -⟩ := h
  have hgroups : o.groups ≠ [] := by
    rintro hnil
    rw [Occurrence.name?, hnil] at hname
    cases hname
  rw [Rule.hitOf, List.length_map, List.length_tail, ← LawfulMatcher.groups ho]
  exact Nat.sub_add_cancel (List.length_pos_of_ne_nil hgroups)

theorem limitOnce_scan (hids : (lib.applied.map (·.id)).Nodup) (source : String) :
    (((lib.scan source).notices.filter fun n => n.code = .hitLimitReached).map fun n =>
      n.details.lookup "rule").Nodup := by
  rw [limitNotices_scan, List.map_filterMap, List.nodup_iff_pairwise_ne, List.pairwise_filterMap]
  refine (List.pairwise_map.1 hids).imp fun {r r'} hne x hx x' hx' => ?_
  have rule_of_mem {r : Rule P} {x : Option String}
      (hx : Option.map (fun n => n.details.lookup "rule")
        ((r.acceptable source.toList)[10000]?.map fun o =>
          r.limitNotice ((LineIndex.of source.toList).lineOf o.bytes)) = some x) :
      x = some r.id := by
    rw [Option.map_map] at hx
    obtain ⟨o, -, rfl⟩ := Option.map_eq_some_iff.1 hx
    rfl
  rw [rule_of_mem hx, rule_of_mem hx']
  exact fun heq => hne (Option.some.inj heq)

theorem limitFull_scan (h : ofDefinitions ds = .ok lib) {source : String} {n : Notice}
    (hn : n ∈ (lib.scan source).notices) (hcode : n.code = .hitLimitReached) :
    ∃ r ∈ lib.rules, n.details.lookup "rule" = some r.id ∧
      ((lib.scan source).hits.countP fun x => x.rule = r.id) = 10000 := by
  have hlimit : n ∈ (lib.scan source).notices.filter fun n => n.code = .hitLimitReached :=
    List.mem_filter.2 ⟨hn, decide_eq_true hcode⟩
  rw [limitNotices_scan] at hlimit
  obtain ⟨r, hr, hsome⟩ := List.mem_filterMap.1 hlimit
  obtain ⟨o, ho, rfl⟩ := Option.map_eq_some_iff.1 hsome
  have hrule : r ∈ lib.rules := lib.applied_perm.mem_iff.1 hr
  have hmany : 10000 < (r.acceptable source.toList).length := (List.getElem?_eq_some_iff.1 ho).1
  refine ⟨r, hrule, rfl, ?_⟩
  rw [countP_hits_rule h hrule, Rule.taken, List.length_take_of_le (Nat.le_of_lt hmany)]

/-- **The scan of an accepted library is ordered and bounded, and its counts agree with it.** -/
theorem orderly_scan [LawfulMatcher P] (h : ofDefinitions ds = .ok lib) (source : String) :
    (lib.scan source).Orderly ds lib source where
  rules := (ofDefinitions_eq_ok_iff.1 h).2
  hits := by
    rw [hits_scan_eq, applied, List.flatMap_assoc]
    rfl
  sourceOrder r _ := LawfulMatcher.ordered r.pattern _
  captures _ _ _ ho hacc := length_captures ho hacc _
  perCategory := lib.perCategory_scan source
  total := by
    rw [ScanMetrics.total, perCategory_scan, Scan.countTotal_categories]
  matchedRules := lib.matchedRules_scan source (nodup_ids_applied h)
  dropped := lib.dropped_scan source
  limitOnce := limitOnce_scan (nodup_ids_applied h) source
  limitFull _ hn hcode := limitFull_scan h hn hcode

/-- The color stands behind the number in the source, and in front of it among the hits. -/
theorem orderly_scan_reordered :
    (ofDefinitions RuleDefinition.standard = .ok standard ∧
      (standard.scan "double get gap => 8;\nColor get ink => const Color(0x00FFEE);").Orderly
        RuleDefinition.standard standard
        "double get gap => 8;\nColor get ink => const Color(0x00FFEE);") ∧
      (standard.scan "double get gap => 8;\nColor get ink => const Color(0x00FFEE);").hits.map
        (fun x => (x.rule, x.name, x.captures)) =
          [("color_rgb", "ink", ["00FFEE"]), ("spacing_scale", "gap", ["8"])] := by
  refine ⟨⟨ofDefinitions_standard, orderly_scan ofDefinitions_standard _⟩, ?_⟩
  rw [Scan.hits_standard]
  decide +kernel

end Library

end DesignTokens
