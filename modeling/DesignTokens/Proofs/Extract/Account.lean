import DesignTokens.Proofs.Extract.Hits
import DesignTokens.Proofs.Source.Detail
import Mathlib.Algebra.BigOperators.Group.List.Basic
import Mathlib.Algebra.GroupWithZero.Nat

/-!
# Every match is accounted for

A match with a name has one of three fates: the rule accepts the name, its guard turns the name
away, or the name is too long. A scan counts each match once, by its fate. It stops counting for a
rule at the first match that would be one hit too many: this one is counted as dropped, and what
stands behind it is ignored.
-/

namespace DesignTokens

/-! ## Up to the n-th member of a kind -/

section UpTo

variable {α : Type}

/-- The start of a list up to its `n`-th member of a kind. If there are fewer, this is all. -/
def upTo (p : α → Bool) : Nat → List α → List α
  | _, [] => []
  | 0, _ :: _ => []
  | n + 1, a :: as => a :: upTo p (if p a then n else n + 1) as

theorem upTo_zero (p : α → Bool) (as : List α) : upTo p 0 as = [] := by
  cases as <;> rfl

theorem upTo_isPrefix (p : α → Bool) (n : Nat) (as : List α) : upTo p n as <+: as := by
  induction as generalizing n with
  | nil => exact List.prefix_refl _
  | cons a as ih =>
    cases n with
    | zero => exact List.nil_prefix
    | succ n => exact List.cons_prefix_cons.2 ⟨rfl, ih _⟩

theorem upTo_eq_self {p : α → Bool} {n : Nat} {as : List α} (h : as.countP p < n) :
    upTo p n as = as := by
  induction as generalizing n with
  | nil => rfl
  | cons a as ih =>
    rw [List.countP_cons] at h
    cases n with
    | zero => omega
    | succ n =>
      rw [upTo, ih]
      split at h <;> simp_all

theorem upTo_replicate {p : α → Bool} {a : α} (h : p a = true) (n m : Nat) :
    upTo p n (List.replicate m a) = List.replicate (min n m) a := by
  induction m generalizing n with
  | zero => simp [upTo]
  | succ m ih =>
    cases n with
    | zero => simp [upTo_zero]
    | succ n => rw [List.replicate_succ, upTo, if_pos h, ih, Nat.succ_min_succ, List.replicate_succ]

theorem countP_upTo (p : α → Bool) (n : Nat) (as : List α) :
    (upTo p n as).countP p = min n (as.countP p) := by
  induction as generalizing n with
  | nil => simp [upTo]
  | cons a as ih =>
    cases n with
    | zero => simp [upTo]
    | succ n =>
      rw [upTo, List.countP_cons, List.countP_cons, ih]
      split <;> omega

end UpTo

/-! ## Fates -/

/-- What becomes of a match by its name alone. -/
inductive Fate where
  | accepted
  | guarded
  | tooLong
deriving DecidableEq, Repr

def Occurrence.name? (o : Occurrence) : Option String :=
  o.groups.head?.join.map String.ofList

namespace Rule

variable {P : Type}

def fate (r : Rule P) (name : String) : Fate :=
  if r.guard.accepts name then if name.utf8ByteSize ≤ nameLimit then .accepted else .tooLong
  else .guarded

variable [Matcher P]

/-- The number of matches of a rule that have a name. -/
def matchCount (r : Rule P) (source : List Char) : Nat :=
  (Matcher.occurrences r.pattern source).countP fun o => o.name?.isSome

/-- The fates of these matches, from left to right. -/
def fates (r : Rule P) (source : List Char) : List Fate :=
  (Matcher.occurrences r.pattern source).filterMap fun o => o.name?.map r.fate

/-- The fates up to that of the first match that is one hit too many. -/
def countedFates (r : Rule P) (source : List Char) : List Fate :=
  upTo (· == .accepted) (hitLimit + 1) (r.fates source)

/-- The fates of the matches behind it. -/
def ignoredFates (r : Rule P) (source : List Char) : List Fate :=
  (r.fates source).drop (r.countedFates source).length

end Rule

/-- The fate that a finding tells of. A hit too many has an accepted name. -/
def Finding.fate : Finding → Fate
  | accepted _ | overLimit _ => .accepted
  | guarded => .guarded
  | tooLong _ _ => .tooLong

namespace Rule

section Classify

variable {P : Type} (r : Rule P) (lines : LineIndex)

theorem map_fate_classify (o : Occurrence) :
    (r.classify lines o).map Finding.fate = o.name?.map r.fate := by
  unfold classify Occurrence.name? fate
  cases o.groups with
  | nil => rfl
  | cons g behind =>
    cases g with
    | none => rfl
    | some chars =>
      simp only [List.head?_cons, Option.join_some, Option.map_some]
      cases r.guard.accepts (String.ofList chars) with
      | false => rfl
      | true =>
        simp only [Bool.not_true, Bool.false_eq_true, if_false, if_true]
        by_cases hlong : nameLimit < (String.ofList chars).utf8ByteSize
        · rw [if_pos hlong, if_neg (by omega)]
          rfl
        · rw [if_neg hlong, if_pos (by omega)]
          rfl

theorem map_fate_filterMap (os : List Occurrence) :
    (os.filterMap (r.classify lines)).map Finding.fate =
      os.filterMap fun o => o.name?.map r.fate := by
  rw [List.map_filterMap]
  exact congrFun (congrArg _ (funext (r.map_fate_classify lines))) os

-- The limit is reached by a hit too many alone, and a rule by itself finds none.
theorem classify_ne_overLimit (o : Occurrence) (line : Nat) :
    r.classify lines o ≠ some (.overLimit line) := by
  unfold classify
  split
  · simp only
    split
    · simp
    · split <;> simp
  · simp

theorem ne_overLimit_of_mem {os : List Occurrence} {f : Finding}
    (hf : f ∈ os.filterMap (r.classify lines)) (line : Nat) : f ≠ .overLimit line := by
  rintro rfl
  obtain ⟨o, -, ho⟩ := List.mem_filterMap.1 hf
  exact r.classify_ne_overLimit lines o line ho

end Classify

theorem map_fate_limited {room : Nat} {fs : List Finding} (done : List Finding)
    (h : ∀ f ∈ fs, ∀ line, f ≠ .overLimit line) :
    (limited room fs done).map Finding.fate =
      done.reverse.map Finding.fate ++ upTo (· == .accepted) (room + 1) (fs.map Finding.fate) := by
  induction fs generalizing room done with
  | nil => cases room <;> simp [limited, upTo]
  | cons f fs ih =>
    have hrest : ∀ f ∈ fs, ∀ line, f ≠ .overLimit line :=
      fun f hf => h f (List.mem_cons_of_mem _ hf)
    cases f with
    | accepted hit =>
      cases room with
      | zero => simp [limited, upTo, upTo_zero, Finding.fate]
      | succ room => simp [limited, ih _ hrest, upTo, Finding.fate]
    | guarded | tooLong =>
      cases room <;> simp [limited, ih _ hrest, upTo, Finding.fate]
    | overLimit line => exact absurd rfl (h _ List.mem_cons_self line)

-- Each finding is counted by its fate, but for a hit too many, which counts as dropped.
theorem counts_findings (fs : List Finding) :
    (fs.filterMap Finding.hit?).length + fs.countP Finding.isGuarded + fs.countP Finding.isDropped =
      fs.length := by
  induction fs with
  | nil => rfl
  | cons f fs ih =>
    cases f <;> simp [List.countP_cons, List.filterMap_cons, Finding.hit?, Finding.isGuarded,
      Finding.isDropped] <;>
      omega

theorem countP_isGuarded (fs : List Finding) :
    fs.countP Finding.isGuarded = (fs.map Finding.fate).count .guarded := by
  rw [List.count, List.countP_map]
  refine congrArg (fun p => List.countP p fs) (funext fun f => ?_)
  cases f <;> rfl

theorem length_fates (fs : List Fate) :
    fs.count .accepted + fs.count .guarded + fs.count .tooLong = fs.length := by
  induction fs with
  | nil => rfl
  | cons f fs ih => cases f <;> simp <;> omega

/-! ## The counts of one rule -/

variable {P : Type} [Matcher P] (r : Rule P) (source : List Char)

theorem length_fates_eq : (r.fates source).length = r.matchCount source := by
  rw [fates, List.length_filterMap_eq_countP]
  refine congrArg (fun p => List.countP p _) (funext fun o => ?_)
  rw [Option.isSome_map]

theorem countedFates_append_ignoredFates :
    r.countedFates source ++ r.ignoredFates source = r.fates source :=
  List.prefix_iff_eq_append.1 (upTo_isPrefix _ _ _)

theorem ignoredFates_eq_nil (h : (r.fates source).count .accepted ≤ hitLimit) :
    r.ignoredFates source = [] := by
  have hall : r.countedFates source = r.fates source := upTo_eq_self (Nat.lt_succ_of_le h)
  rw [ignoredFates, hall, List.drop_length]

theorem count_countedFates : (r.countedFates source).count .accepted =
    min (hitLimit + 1) ((r.fates source).count .accepted) :=
  countP_upTo _ _ _

variable (lines : LineIndex)

/-- **What a rule finds are the fates that are counted.** -/
theorem map_fate_findings :
    (r.findings lines source).map Finding.fate = r.countedFates source := by
  rw [findings, map_fate_limited [] (fun f hf => r.ne_overLimit_of_mem lines hf),
    map_fate_filterMap]
  rfl

theorem length_findings : (r.findings lines source).length = (r.countedFates source).length := by
  rw [← map_fate_findings r source lines, List.length_map]

theorem guarded_findings :
    (r.findings lines source).countP Finding.isGuarded = (r.countedFates source).count .guarded := by
  rw [countP_isGuarded, map_fate_findings]

theorem length_hits {fs : List Finding} (h : ∀ f ∈ fs, ∀ line, f ≠ .overLimit line) :
    (fs.filterMap Finding.hit?).length = (fs.map Finding.fate).count .accepted := by
  induction fs with
  | nil => rfl
  | cons f fs ih =>
    have hrest := ih fun f hf => h f (List.mem_cons_of_mem _ hf)
    cases f with
    | accepted | guarded | tooLong => simp [List.filterMap_cons, Finding.hit?, Finding.fate, hrest]
    | overLimit line => exact absurd rfl (h _ List.mem_cons_self line)

theorem hits_findings : ((r.findings lines source).filterMap Finding.hit?).length =
    min hitLimit ((r.fates source).count .accepted) := by
  rw [findings, filterMap_limited, List.reverse_nil, List.filterMap_nil, List.nil_append,
    List.length_take, length_hits fun f hf => r.ne_overLimit_of_mem lines hf, map_fate_filterMap]
  rfl

theorem dropped_findings : (r.findings lines source).countP Finding.isDropped =
    (r.countedFates source).count .tooLong
      + if hitLimit < (r.fates source).count .accepted then 1 else 0 := by
  have hall := counts_findings (r.findings lines source)
  have hfates := length_fates (r.countedFates source)
  rw [hits_findings, guarded_findings, length_findings] at hall
  rw [count_countedFates] at hfates
  split <;> omega

end Rule

/-! ## The counts of a scan -/

theorem Scan.guardedOut_metrics {P : Type} (sc : Scan P) : sc.metrics.guardedOut =
    (sc.byRule.flatMap RuleScan.findings).countP Finding.isGuarded := rfl

theorem Scan.dropped_metrics {P : Type} (sc : Scan P) : sc.metrics.dropped =
    (sc.byRule.flatMap RuleScan.findings).countP Finding.isDropped := rfl

namespace Library

variable {P : Type} (lib : Library P)

/-- The rules in the order in which a scan applies them. -/
def applied : List (Rule P) := Category.all.flatMap lib.rulesFor

theorem applied_perm : lib.applied.Perm lib.rules := by
  classical
  rw [List.perm_iff_count]
  intro r
  have hcount (c : Category) :
      (lib.rulesFor c).count r = if r.category = c then lib.rules.count r else 0 := by
    unfold rulesFor
    split
    · rename_i h
      exact List.count_filter (decide_eq_true h)
    · rename_i h
      exact List.count_eq_zero.2 fun hm => h (of_decide_eq_true (List.mem_filter.1 hm).2)
  simp only [applied, Category.all, List.flatMap_cons, List.flatMap_nil, List.count_append, hcount,
    List.append_nil]
  cases r.category <;> simp

theorem sum_applied (f : Rule P → Nat) : (lib.applied.map f).sum = (lib.rules.map f).sum :=
  (lib.applied_perm.map f).sum_eq

variable [Matcher P]

theorem byRule_scan (source : String) : (lib.scan source).byRule =
    lib.applied.map fun r => ⟨r, r.findings (.of source.toList) source.toList⟩ := by
  rw [applied, List.map_flatMap]
  rfl

theorem length_hits_scan (source : String) : (lib.scan source).hits.length =
    (lib.rules.map fun r =>
      ((r.findings (.of source.toList) source.toList).filterMap Finding.hit?).length).sum := by
  rw [Scan.hits, byRule_scan, List.length_flatMap, List.map_map]
  exact lib.sum_applied _

theorem countP_findings_scan (p : Finding → Bool) (source : String) :
    ((lib.scan source).byRule.flatMap RuleScan.findings).countP p =
      (lib.rules.map fun r => (r.findings (.of source.toList) source.toList).countP p).sum := by
  rw [byRule_scan, List.countP_flatMap, List.map_map]
  exact lib.sum_applied _

/-- What a scan counts and what it ignores are all matches with a name. -/
theorem sum_counts_scan (source : String) :
    (lib.scan source).hits.length + (lib.scan source).metrics.guardedOut
        + (lib.scan source).metrics.dropped
        + (lib.rules.map fun r => (r.ignoredFates source.toList).length).sum =
      (lib.rules.map fun r => r.matchCount source.toList).sum := by
  rw [Scan.guardedOut_metrics, Scan.dropped_metrics, length_hits_scan, countP_findings_scan,
    countP_findings_scan, ← List.sum_map_add, ← List.sum_map_add, ← List.sum_map_add]
  refine congrArg List.sum (List.map_congr_left fun r _ => ?_)
  rw [Rule.counts_findings, Rule.length_findings, ← List.length_append,
    Rule.countedFates_append_ignoredFates, Rule.length_fates_eq]

/-- **A scan counts each match once**, and it ignores those behind a hit too many of their rule. -/
theorem metrics_account (source : String) :
    (lib.scan source).hits.length =
        (lib.rules.map fun r => min hitLimit ((r.fates source.toList).count .accepted)).sum ∧
      (lib.scan source).metrics.guardedOut =
        (lib.rules.map fun r => (r.countedFates source.toList).count .guarded).sum ∧
      (lib.scan source).metrics.dropped =
        (lib.rules.map fun r => (r.countedFates source.toList).count .tooLong
          + if hitLimit < (r.fates source.toList).count .accepted then 1 else 0).sum ∧
      (lib.scan source).hits.length + (lib.scan source).metrics.guardedOut
          + (lib.scan source).metrics.dropped
          + (lib.rules.map fun r => (r.ignoredFates source.toList).length).sum =
        (lib.rules.map fun r => r.matchCount source.toList).sum ∧
      ∀ r ∈ lib.rules, (r.fates source.toList).count .accepted ≤ hitLimit →
        r.ignoredFates source.toList = [] := by
  refine ⟨?_, ?_, ?_, lib.sum_counts_scan source, fun r _ => r.ignoredFates_eq_nil _⟩
  · rw [length_hits_scan]
    exact congrArg List.sum (List.map_congr_left fun r _ => r.hits_findings _ _)
  · rw [Scan.guardedOut_metrics, countP_findings_scan]
    exact congrArg List.sum (List.map_congr_left fun r _ => r.guarded_findings _ _)
  · rw [Scan.dropped_metrics, countP_findings_scan]
    exact congrArg List.sum (List.map_congr_left fun r _ => r.dropped_findings _ _)

end Library

/-! ## The same curve many times -/

namespace Rule

open Pattern RuleDefinition

/-- The start of a line that declares a curve. -/
def curveStart (name : String) : List Char :=
  lead "Curve".toList ++ (name.toList ++ (" => ".toList ++ "Curves.b".toList))

/-- The line of a curve as often as given. -/
def curveLines (n : Nat) (name : String) : String :=
  String.ofList (List.replicate n (curveStart name ++ [';', '\n'])).flatten

theorem fates_blocks {r : Rule} (hp : r.pattern.NoWay []) {b : Block} (hb : b.Fits r.pattern)
    (n : Nat) : r.fates (List.replicate n b.text).flatten =
      ((List.replicate n b).filterMap fun b => b.found.map (·.2)).filterMap fun gs =>
        (gs.head?.join.map String.ofList).map r.fate := by
  have hfits : ∀ c ∈ List.replicate n b, c.Fits r.pattern := by
    intro c hc
    rw [List.eq_of_mem_replicate hc]
    exact hb
  have hgroups : r.fates (List.replicate n b.text).flatten =
      ((r.pattern.occurrences (List.replicate n b.text).flatten).map (·.groups)).filterMap
        fun gs => (gs.head?.join.map String.ofList).map r.fate := by
    rw [List.filterMap_map]
    rfl
  rw [hgroups, ← List.flatMap_replicate, map_groups_occurrences hp hfits]

variable {g : GetterRule}

theorem clear_curveEnd (hg : g ∈ standardGetters) (rest : List Char) :
    Clear g.rule.pattern [';', '\n'] rest := by
  obtain ⟨k, hk, -⟩ := exists_kind hg
  have hlead : g.keyword ∈ keywords := hk ▸ k.keyword_mem
  exact clear_of_calm (not_mem_lead hlead) g.value List.not_mem_nil
    (show Calm [';'] by decide) rest

theorem value_of_curve (hg : g ∈ standardGetters) (hcurve : g.keyword = "Curve") :
    g.value = curveValue := by
  obtain ⟨k, hk, hvalue⟩ := exists_kind hg
  rw [hcurve] at hk
  cases k <;> first | exact absurd hk (by decide) | skip
  exact congrArg Prod.fst (List.mem_singleton.1 hvalue)

theorem fits_curve (hg : g ∈ standardGetters) (hcurve : g.keyword = "Curve") {name : String}
    (hname : Text.IsName name.toList) : Block.Fits g.rule.pattern
      ⟨some (curveStart name, [some name.toList, some ['b']]), [';', '\n']⟩ := by
  refine fun rest => ⟨clear_curveEnd hg rest, fun t gs hfound => ?_⟩
  cases hfound
  refine ⟨List.cons_ne_nil 'C' _, ?_⟩
  have htakes : curveValue.TakesFirst "Curves.b".toList [some ['b']] ([';', '\n'] ++ rest) :=
    takesFirst_preceded "Curves.".toList
      (takesFirst_word ⟨by decide, List.all_eq_true.1 (by decide)⟩
        (stops_cons (by decide) _))
  show (getter g.keyword g.value).TakesFirst _ _ _
  rw [hcurve, value_of_curve hg hcurve]
  exact takesFirst_getter "Curve" hname htakes

theorem fits_curve_of_ne (hg : g ∈ standardGetters) (hother : g.keyword ≠ "Curve") {name : String}
    (hname : Text.IsName name.toList) :
    Block.Fits g.rule.pattern ⟨none, curveStart name ++ [';', '\n']⟩ := by
  obtain ⟨k, hk, -⟩ := exists_kind hg
  have hlead : g.keyword ∈ keywords := hk ▸ k.keyword_mem
  refine fun rest => ⟨?_, fun _ _ hfound => nomatch hfound⟩
  have htext : curveStart name ++ [';', '\n'] = lead "Curve".toList
      ++ (name.toList ++ (" => ".toList ++ "Curves.b".toList ++ [';']) ++ ['\n']) := by
    simp [curveStart]
  rw [htext]
  apply clear_append
  · intro i hi
    exact noWay_preceded (not_prefix_of_apart (apart_lead hlead (by decide) hi (.inr hother)) _) _
  · exact clear_of_calm (not_mem_lead hlead) g.value (hname.not_mem (by decide)) (by decide) rest

/-- **Many curves of a name are as many matches**, all of the rule for curves. -/
theorem fates_curveLines (hg : g ∈ standardGetters) {name : String}
    (hname : Text.IsName name.toList) (n : Nat) :
    g.rule.fates (curveLines n name).toList =
      if g.keyword = "Curve" then List.replicate n (g.rule.fate name) else [] := by
  have hnone : g.rule.pattern.NoWay [] := noWay_getter_nil _ _
  rw [curveLines, String.toList_ofList]
  split
  · rename_i hcurve
    have hfates := fates_blocks hnone (fits_curve hg hcurve hname) n
    have hfound : (List.replicate n (Block.mk (some (curveStart name,
        [some name.toList, some ['b']])) [';', '\n'])).filterMap (fun b => b.found.map (·.2)) =
          List.replicate n [some name.toList, some ['b']] :=
      List.filterMap_replicate_of_some rfl
    have hnamed : (List.replicate n [some name.toList, some ['b']]).filterMap
        (fun gs => (gs.head?.join.map String.ofList).map g.rule.fate) =
          List.replicate n (g.rule.fate (String.ofList name.toList)) :=
      List.filterMap_replicate_of_some rfl
    rw [hfound, hnamed, String.ofList_toList] at hfates
    exact hfates
  · rename_i hother
    have hfates := fates_blocks hnone (fits_curve_of_ne hg hother hname) n
    rw [List.filterMap_replicate_of_none rfl] at hfates
    exact hfates

theorem sum_curveLines {f : List Fate → Nat} (hf : f [] = 0) {name : String}
    (hname : Text.IsName name.toList) (n : Nat) :
    (Library.standard.rules.map fun r => f (r.fates (curveLines n name).toList)).sum =
      f (List.replicate n (if name.utf8ByteSize ≤ nameLimit then .accepted else .tooLong)) := by
  have heach : ∀ g ∈ standardGetters, f (g.rule.fates (curveLines n name).toList) =
      if g.keyword = "Curve" then f (List.replicate n (g.rule.fate name)) else 0 := by
    intro g hg
    rw [fates_curveLines hg hname]
    split
    · rfl
    · exact hf
  rw [Library.standard_rules, standardRules, List.map_map]
  show (standardGetters.map fun g => f (g.rule.fates (curveLines n name).toList)).sum = _
  rw [List.map_congr_left heach]
  simp [standardGetters, fate, GetterRule.rule, curve, NameGuard.accepts]

end Rule

/-- Two hits too many count once: the second one is ignored. -/
theorem Library.metrics_ignore_behind_limit :
    (standard.scan (Rule.curveLines 10002 "a")).hits.length
        + (standard.scan (Rule.curveLines 10002 "a")).metrics.guardedOut
        + (standard.scan (Rule.curveLines 10002 "a")).metrics.dropped = 10001 ∧
      (standard.rules.map fun r =>
        r.matchCount (Rule.curveLines 10002 "a").toList).sum = 10002 := by
  have hname : Text.IsName "a".toList := ⟨by decide, List.all_eq_true.1 (by decide)⟩
  have hmatches : (standard.rules.map fun r =>
      r.matchCount (Rule.curveLines 10002 "a").toList).sum = 10002 := by
    simp only [← Rule.length_fates_eq]
    rw [Rule.sum_curveLines List.length_nil hname, List.length_replicate]
  have hignored : (standard.rules.map fun r =>
      (r.ignoredFates (Rule.curveLines 10002 "a").toList).length).sum = 1 := by
    unfold Rule.ignoredFates Rule.countedFates
    rw [Rule.sum_curveLines
      (f := fun fs => (fs.drop (upTo (· == .accepted) (hitLimit + 1) fs).length).length) rfl hname,
      if_pos (by decide), upTo_replicate rfl, List.length_drop, List.length_replicate,
      List.length_replicate]
    rfl
  have hall := sum_counts_scan standard (Rule.curveLines 10002 "a")
  rw [hmatches, hignored] at hall
  exact ⟨by omega, hmatches⟩

end DesignTokens
