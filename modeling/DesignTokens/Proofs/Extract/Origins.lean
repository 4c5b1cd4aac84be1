import DesignTokens.Proofs.Extract.Account

/-!
# The matches behind the hits

A hit comes from one match of one rule, its origin. The hits of a rule are those of its acceptable
matches, from the first to the one that fills the limit, and those of a scan are the hits of its
rules one after the other. So whatever a rule decides about its hits can be decided first.
-/

namespace DesignTokens

namespace Rule

variable {P : Type}

/-! ## Acceptable matches -/

/-- A match has a name that passes the guard of the rule and is not too long. -/
def Acceptable (r : Rule P) (o : Occurrence) : Prop :=
  ∃ name ∈ o.name?, r.guard.accepts name = true ∧ name.utf8ByteSize ≤ 255

instance (r : Rule P) (o : Occurrence) : Decidable (r.Acceptable o) :=
  inferInstanceAs (Decidable (∃ name ∈ o.name?, _))

/-- The hit of a match in a source with these lines. A group behind the name that took no part has
an empty text. -/
def hitOf (r : Rule P) (lines : LineIndex) (o : Occurrence) : Hit where
  category := r.category
  rule := r.id
  shape := r.shape
  name := o.name?.getD ""
  captures := o.groups.tail.map fun g => String.ofList (g.getD [])
  line := lines.lineOf o.bytes

def acceptable [Matcher P] (r : Rule P) (source : List Char) : List Occurrence :=
  (Matcher.occurrences r.pattern source).filter fun o => r.Acceptable o

/-- The matches that become hits. -/
def taken [Matcher P] (r : Rule P) (source : List Char) : List Occurrence :=
  (r.acceptable source).take 10000

theorem fate_eq_accepted_iff {r : Rule P} {name : String} :
    r.fate name = .accepted ↔ r.guard.accepts name = true ∧ name.utf8ByteSize ≤ 255 := by
  rw [fate]
  split
  · rename_i hguard
    rw [and_iff_right hguard]
    split
    · rename_i hshort
      exact iff_of_true rfl hshort
    · rename_i hlong
      exact iff_of_false (fun h => by cases h) hlong
  · rename_i hguard
    exact iff_of_false (fun h => by cases h) fun h => hguard h.1

-- A match is acceptable exactly if its name has the fate to be accepted.
theorem acceptable_iff {r : Rule P} {o : Occurrence} :
    r.Acceptable o ↔ o.name?.map r.fate = some .accepted := by
  rw [Option.map_eq_some_iff]
  exact exists_congr fun name => and_congr_right fun _ => fate_eq_accepted_iff.symm

theorem classify_of_acceptable {r : Rule P} {o : Occurrence} (h : r.Acceptable o)
    (lines : LineIndex) : r.classify lines o = some (.accepted (r.hitOf lines o)) := by
  obtain ⟨name, hname, hguard, hshort⟩ := h
  have hdropped : ¬ nameLimit < name.utf8ByteSize := Nat.not_lt.2 hshort
  unfold Occurrence.name? at hname
  unfold classify hitOf Occurrence.name?
  cases hgroups : o.groups with
  | nil => rw [hgroups] at hname; cases hname
  | cons g behind =>
    cases g with
    | none => rw [hgroups] at hname; cases hname
    | some chars =>
      rw [hgroups] at hname
      cases hname
      simp only [hguard, Bool.not_true, Bool.false_eq_true, if_false, hdropped]
      rfl

theorem bind_classify (r : Rule P) (lines : LineIndex) (o : Occurrence) :
    (r.classify lines o).bind Finding.hit? =
      if r.Acceptable o then some (r.hitOf lines o) else none := by
  split
  · rename_i h
    rw [classify_of_acceptable h]
    rfl
  · rename_i h
    rw [acceptable_iff, ← r.map_fate_classify lines] at h
    cases hc : r.classify lines o with
    | none => rfl
    | some f =>
      cases f with
      | accepted hit => exact absurd (by rw [hc]; rfl) h
      | guarded | tooLong | overLimit => rfl

theorem filterMap_hit?_classify (r : Rule P) (lines : LineIndex) (os : List Occurrence) :
    (os.filterMap (r.classify lines)).filterMap Finding.hit? =
      (os.filter fun o => r.Acceptable o).map (r.hitOf lines) := by
  rw [List.filterMap_filterMap, ← List.filterMap_eq_map, List.filterMap_filter]
  refine List.filterMap_congr fun o _ => ?_
  rw [bind_classify]
  simp only [decide_eq_true_eq, Function.comp_apply]

section Findings

variable [Matcher P] (r : Rule P) (source : List Char)

/-- **The hits of a rule are those of its first acceptable matches.** -/
theorem hits_findings_eq (lines : LineIndex) :
    (r.findings lines source).filterMap Finding.hit? = (r.taken source).map (r.hitOf lines) := by
  rw [findings, filterMap_limited, filterMap_hit?_classify, List.reverse_nil, List.filterMap_nil,
    List.nil_append, ← List.map_take]
  rfl

theorem length_acceptable : (r.acceptable source).length = (r.fates source).count .accepted := by
  rw [acceptable, ← List.countP_eq_length_filter, List.count, fates, List.countP_filterMap]
  refine congrArg (fun p => List.countP p _) (funext fun o => ?_)
  rw [Bool.eq_iff_iff, decide_eq_true_iff, acceptable_iff]
  cases o.name?.map r.fate with
  | none => simp
  | some fate => simp

theorem taken_eq_acceptable (h : (r.acceptable source).length ≤ 10000) :
    r.taken source = r.acceptable source :=
  List.take_of_length_le h

theorem pairwise_taken [LawfulMatcher P] : (r.taken source).Pairwise fun a b =>
    a.offset < b.offset ∧ a.offset + a.width ≤ b.offset :=
  ((LawfulMatcher.ordered r.pattern source).filter _).sublist (List.take_sublist _ _)

theorem mem_occurrences_of_mem_taken {o : Occurrence} (h : o ∈ r.taken source) :
    o ∈ Matcher.occurrences r.pattern source ∧ r.Acceptable o := by
  have hmem := List.mem_filter.1 (List.mem_of_mem_take h)
  exact ⟨hmem.1, of_decide_eq_true hmem.2⟩

end Findings

end Rule

/-! ## Origins -/

/-- A match of a rule that has become a hit. -/
structure Origin (P : Type := Pattern) where
  rule : Rule P
  place : Occurrence

def Origin.hit {P : Type} (lines : LineIndex) (x : Origin P) : Hit := x.rule.hitOf lines x.place

namespace Library

variable {P : Type} (lib : Library P)

-- The rules of a category are applied one after the other.
theorem filter_applied (c : Category) :
    (lib.applied.filter fun r => r.category = c) = lib.rulesFor c := by
  have hall : (Category.all.filter fun d => d = c) = [c] := by cases c <;> rfl
  rw [applied, filter_flatMap_of_forall (q := fun d => decide (d = c)), hall,
    List.flatMap_singleton]
  intro d _ r hr
  rw [of_decide_eq_true (List.mem_filter.1 hr).2]

variable [Matcher P]

theorem hits_scan_eq (source : String) : (lib.scan source).hits =
    lib.applied.flatMap fun r => (r.taken source.toList).map (r.hitOf (.of source.toList)) := by
  rw [Scan.hits, byRule_scan, List.flatMap_map]
  refine congrArg (fun f => List.flatMap f lib.applied) (funext fun r => ?_)
  exact r.hits_findings_eq source.toList _

-- Where the rule decides about a choice of hits, the hits of some rules are left.
theorem filter_hits_scan {p : Hit → Bool} {q : Rule P → Bool}
    (h : ∀ (r : Rule P) (lines : LineIndex) (o : Occurrence), p (r.hitOf lines o) = q r)
    (source : String) : (lib.scan source).hits.filter p =
      (lib.applied.filter q).flatMap fun r =>
        (r.taken source.toList).map (r.hitOf (.of source.toList)) := by
  rw [hits_scan_eq]
  refine filter_flatMap_of_forall fun r _ hit hm => ?_
  obtain ⟨o, -, rfl⟩ := List.mem_map.1 hm
  exact h r _ o

/-- The hits of a category are those of its own rules. -/
theorem filter_hits_category (c : Category) (source : String) :
    ((lib.scan source).hits.filter fun h => h.category = c) =
      (lib.rulesFor c).flatMap fun r =>
        (r.taken source.toList).map (r.hitOf (.of source.toList)) := by
  rw [lib.filter_hits_scan (q := fun r => decide (r.category = c)) (fun _ _ _ => rfl),
    filter_applied]

theorem hitsIn_scan (c : Category) (source : String) :
    (lib.scan source).hitsIn c = (lib.scan source).hits.filter fun h => h.category = c := by
  rw [filter_hits_category, Scan.hitsIn, byRule_scan, List.filter_map, List.flatMap_map]
  show (lib.applied.filter fun r => r.category = c).flatMap _ = _
  rw [filter_applied]
  refine congrArg (fun f => List.flatMap f (lib.rulesFor c)) (funext fun r => ?_)
  exact r.hits_findings_eq source.toList _

/-- The matches that become hits, in scan order. -/
def origins (source : List Char) : List (Origin P) :=
  lib.applied.flatMap fun r => (r.taken source).map (Origin.mk r)

/-- **The hits of a scan are those of their origins, one by one.** -/
theorem hits_eq_origins (source : String) :
    (lib.scan source).hits =
      (lib.origins source.toList).map (Origin.hit (.of source.toList)) := by
  rw [hits_scan_eq, origins, List.map_flatMap]
  refine congrArg (fun f => List.flatMap f lib.applied) (funext fun r => ?_)
  rw [List.map_map]
  rfl

theorem mem_origins {source : List Char} {x : Origin P} (h : x ∈ lib.origins source) :
    x.rule ∈ lib.rules ∧ x.place ∈ x.rule.taken source := by
  obtain ⟨r, hr, hx⟩ := List.mem_flatMap.1 h
  obtain ⟨o, ho, rfl⟩ := List.mem_map.1 hx
  exact ⟨lib.applied_perm.mem_iff.1 hr, ho⟩

end Library

end DesignTokens
