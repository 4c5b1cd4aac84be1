import DesignTokens.Proofs.Extract.Origins
import DesignTokens.Proofs.Extract.Sites
import DesignTokens.Proofs.Extract.Fold

/-!
# No getter is extracted twice

Several standard rules look for the same keyword. Those for numbers share their pattern, and divide
the names among them: each name is accepted by exactly one. Those for colors ask for different
numbers of digits, so that no color is one for both. The others differ in the keyword. Therefore no
place of a source gives two hits.
-/

namespace DesignTokens

open RuleDefinition

/-! ## The rules for numbers -/

/-- The pattern that the rules for numbers share. -/
def numericPattern : Pattern := (Pattern.read numericGetter).get (by decide +kernel)

def numericDefinitions : List RuleDefinition := [fontScale, spacingScale, borderScale]

/-- The rules for numbers, in scan order. -/
def numericRules : List Rule :=
  numericDefinitions.map fun d => ⟨d.id, d.category, numericPattern, d.shape, d.guard⟩

theorem numericPattern_eq : numericPattern = .getter "double" .amount := by
  decide +kernel

theorem Library.applied_standard : standard.applied = standardRules := by
  show (Category.all.flatMap fun c => standard.rules.filter fun r => r.category = c) = _
  rw [standard_rules, Category.flatMap_standardRules]

theorem filter_applied_numeric :
    (Library.standard.applied.filter fun r => r ∈ numericRules) = numericRules := by
  rw [Library.applied_standard, numericRules, numericPattern_eq]
  decide +kernel

theorem guard_eq_any {r : Rule} (hr : r ∈ Library.standard.rules) (hn : r ∉ numericRules) :
    r.guard = .any := by
  have hall : ∀ r ∈ standardRules, r ∉ numericRules → r.guard = .any := by
    rw [numericRules, numericPattern_eq]
    decide +kernel
  exact hall r (Library.standard_rules ▸ hr) hn

/-! ## Names of numbers -/

theorem exists_start_of_startsWithAny {starts : List String} {name : String}
    (h : startsWithAny starts name = true) : ∃ s ∈ starts, s.toList <+: name.toList := by
  obtain ⟨s, hs, hprefix⟩ := List.any_eq_true.1 h
  exact ⟨s, hs, List.isPrefixOf_iff_prefix.1 hprefix⟩

-- No name starts like a border metric and like a type metric, as none of these starts starts
-- another one.
theorem not_typography_of_border {name : String} (h : startsWithAny borderStarts name = true) :
    startsWithAny typographyStarts name = false := by
  have hapart : ∀ s ∈ borderStarts, ∀ t ∈ typographyStarts,
      Pattern.Apart s.toList t.toList := by
    decide +kernel
  rw [Bool.eq_false_iff]
  intro h'
  obtain ⟨s, hs, hsname⟩ := exists_start_of_startsWithAny h
  obtain ⟨t, ht, htname⟩ := exists_start_of_startsWithAny h'
  rcases List.prefix_or_prefix_of_prefix hsname htname with hst | hts
  · exact (hapart s hs t ht).1 hst
  · exact (hapart s hs t ht).2 hts

theorem startsWithAny_claimed (name : String) : startsWithAny claimedStarts name =
    (startsWithAny borderStarts name || startsWithAny typographyStarts name) :=
  List.any_append

/-- **Each name is accepted by exactly one of the rules for numbers.** -/
theorem countP_accepts (name : String) :
    (numericDefinitions.countP fun d => d.guard.accepts name) = 1 := by
  have haccepts : numericDefinitions.map (fun d => d.guard.accepts name) =
      [startsWithAny typographyStarts name, !startsWithAny claimedStarts name,
        startsWithAny borderStarts name] := rfl
  have hcount : (numericDefinitions.countP fun d => d.guard.accepts name) =
      (numericDefinitions.map fun d => d.guard.accepts name).count true := by
    rw [List.count, List.countP_map]
    exact List.countP_congr fun d _ => by simp
  rw [hcount, haccepts, startsWithAny_claimed]
  cases hb : startsWithAny borderStarts name with
  | true => rw [not_typography_of_border hb]; rfl
  | false => cases startsWithAny typographyStarts name <;> rfl

theorem eq_of_accepts {d d' : RuleDefinition} {name : String} (hd : d ∈ numericDefinitions)
    (hd' : d' ∈ numericDefinitions) (h : d.guard.accepts name = true)
    (h' : d'.guard.accepts name = true) : d = d' := by
  have hone := countP_accepts name
  rw [List.countP_eq_length_filter] at hone
  obtain ⟨e, he⟩ := List.length_eq_one_iff.1 hone
  have only {d : RuleDefinition} (hd : d ∈ numericDefinitions)
      (h : d.guard.accepts name = true) : d = e :=
    List.mem_singleton.1 (he ▸ List.mem_filter.2 ⟨hd, h⟩)
  rw [only hd h, only hd' h']

/-! ## Places of getters -/

namespace GetterRule

open Pattern

theorem startsWith_lead {g : GetterRule} {source : List Char} {o : Occurrence}
    (ho : o ∈ g.rule.pattern.occurrences source) :
    lead g.keyword.toList <+: source.drop o.offset := by
  obtain ⟨t, ht, -, htakes⟩ := takes_of_mem_occurrences ho
  obtain ⟨name, u, vs, -, -, -, rfl⟩ := takes_getter htakes
  exact (List.prefix_append _ _).trans ht

theorem offset_lt {g : GetterRule} {source : List Char} {o : Occurrence}
    (ho : o ∈ g.rule.pattern.occurrences source) : o.offset < source.length := by
  have hlen := (startsWith_lead ho).length_le
  rw [List.length_drop, lead, List.length_append] at hlen
  have hget : 0 < " get ".toList.length := by decide
  omega

theorem name_isSome {g : GetterRule} {source : List Char} {o : Occurrence}
    (ho : o ∈ g.rule.pattern.occurrences source) : o.name?.isSome = true := by
  obtain ⟨t, -, -, htakes⟩ := takes_of_mem_occurrences ho
  obtain ⟨name, u, vs, hgroups, -⟩ := takes_getter htakes
  rw [Occurrence.name?, hgroups]
  rfl

-- Different keywords do not stand at one place.
theorem offset_ne_of_keyword {g g' : GetterRule} {source : List Char} {o o' : Occurrence}
    (hg : g.keyword ∈ keywords) (hg' : g'.keyword ∈ keywords) (hne : g.keyword ≠ g'.keyword)
    (ho : o ∈ g.rule.pattern.occurrences source)
    (ho' : o' ∈ g'.rule.pattern.occurrences source) : o.offset ≠ o'.offset := by
  intro heq
  have hapart := apart_lead hg hg' (k := 0) (by simp [lead]) (.inr hne)
  rcases List.prefix_or_prefix_of_prefix (startsWith_lead ho) (heq ▸ startsWith_lead ho') with h | h
  · exact hapart.1 h
  · exact hapart.2 h

end GetterRule

namespace Pattern

-- A stretch that goes as far as its class is determined by the text.
theorem eq_of_append_stop {has : Char → Bool} {t t' rest rest' : List Char}
    (ht : ∀ c ∈ t, has c = true) (hrest : Stops has rest) (ht' : ∀ c ∈ t', has c = true)
    (hrest' : Stops has rest') (h : t ++ rest = t' ++ rest') : t = t' ∧ rest = rest' := by
  have heq : t = t' := by
    rw [← takeWhile_append_stop ht hrest, h, takeWhile_append_stop ht' hrest']
  rw [heq] at h
  exact ⟨heq, List.append_cancel_left h⟩

-- The text of a color behind its keyword.
theorem exists_color {count : Nat} {source : List Char} {o : Occurrence}
    (ho : o ∈ (getter "Color" (colorValue count)).occurrences source) :
    ∃ name digits rest, source.drop o.offset = lead "Color".toList ++ (name ++
        (" => ".toList ++ ("const Color(0x".toList ++ (digits ++ ')' :: rest)))) ∧
      Text.IsName name ∧ digits.length = count ∧ ∀ c ∈ digits, Text.isHexDigit c = true := by
  obtain ⟨t, ⟨rest, hsource⟩, -, htakes⟩ := takes_of_mem_occurrences ho
  obtain ⟨name, u, vs, -, hname, hu, ht⟩ := takes_getter htakes
  obtain ⟨digits, -, hdigits, hhex⟩ := PlainValue.takes_inv (v := .color count) hu
  refine ⟨name, digits, rest, ?_, hname, hhex⟩
  have hvalue : u ++ rest = "const Color(0x".toList ++ (digits ++ ')' :: rest) := by
    rw [hdigits, List.append_assoc, List.append_assoc]
    rfl
  rw [← hsource, ht, List.append_assoc, List.append_assoc, List.append_assoc, hvalue]

-- The bracket behind the digits tells how many there are.
theorem count_eq_of_offset_eq {m n : Nat} {source : List Char} {o o' : Occurrence}
    (ho : o ∈ (getter "Color" (colorValue m)).occurrences source)
    (ho' : o' ∈ (getter "Color" (colorValue n)).occurrences source)
    (h : o.offset = o'.offset) : m = n := by
  obtain ⟨name, digits, rest, hsource, hname, rfl, hhex⟩ := exists_color ho
  obtain ⟨name', digits', rest', hsource', hname', rfl, hhex'⟩ := exists_color ho'
  have harrow (t : List Char) : Stops Text.isWord (" => ".toList ++ t) := stops_cons (by decide) _
  have hclose (t : List Char) : Stops Text.isHexDigit (')' :: t) := stops_cons (by decide) _
  rw [h, hsource'] at hsource
  obtain ⟨-, hbody⟩ := eq_of_append_stop hname'.word (harrow _) hname.word (harrow _)
    (List.append_cancel_left hsource)
  have hvalue := List.append_cancel_left (List.append_cancel_left hbody)
  rw [(eq_of_append_stop hhex' (hclose _) hhex (hclose _) hvalue).1]

end Pattern

/-! ## Places of hits -/

-- Two standard rules look for different keywords, or for colors, or for numbers.
theorem RuleDefinition.pairwise_standardGetters : standardGetters.Pairwise fun g g' =>
    g.keyword ≠ g'.keyword ∨
      (g.rule.pattern = .getter "Color" (.colorValue 8) ∧
        g'.rule.pattern = .getter "Color" (.colorValue 6)) ∨
      (g.rule.pattern = numericPattern ∧ g'.rule.pattern = numericPattern ∧
        g.definition ∈ numericDefinitions ∧ g'.definition ∈ numericDefinitions ∧
          g.definition ≠ g'.definition) := by
  rw [numericPattern_eq]
  decide +kernel

theorem RuleDefinition.keyword_mem {g : GetterRule} (hg : g ∈ standardGetters) :
    g.keyword ∈ Pattern.keywords := by
  have hall : ∀ g ∈ standardGetters, g.keyword ∈ Pattern.keywords := by
    decide +kernel
  exact hall g hg

theorem Occurrence.byteOffset_ne {source : List Char} {o o' : Occurrence}
    (ho : o.offset < source.length) (ho' : o'.offset < source.length)
    (h : o.offset ≠ o'.offset) : o.byteOffset source ≠ o'.byteOffset source := by
  rcases Nat.lt_or_gt_of_ne h with h | h
  · exact Nat.ne_of_lt (PlainRule.utf8ByteSize_take_lt h (Nat.le_of_lt ho'))
  · exact Nat.ne_of_gt (PlainRule.utf8ByteSize_take_lt h (Nat.le_of_lt ho))

namespace Library

theorem origins_standard (source : List Char) : standard.origins source =
    standardGetters.flatMap fun g => (g.rule.taken source).map (Origin.mk g.rule) := by
  rw [origins, applied_standard, standardRules, List.flatMap_map]

/-- **No two hits of a standard scan start at one place.** -/
theorem pairwise_origins_standard (source : List Char) : (standard.origins source).Pairwise
    fun x y => x.place.byteOffset source ≠ y.place.byteOffset source := by
  rw [origins_standard, List.pairwise_flatMap]
  constructor
  · intro g _
    rw [List.pairwise_map]
    refine (g.rule.pairwise_taken source).imp_of_mem fun {o o'} ho ho' hlt => ?_
    exact Occurrence.byteOffset_ne
      (GetterRule.offset_lt (g.rule.mem_occurrences_of_mem_taken source ho).1)
      (GetterRule.offset_lt (g.rule.mem_occurrences_of_mem_taken source ho').1) (Nat.ne_of_lt hlt.1)
  · refine pairwise_standardGetters.imp_of_mem fun {g g'} hg hg' hkind x hx y hy => ?_
    obtain ⟨o, hmem, rfl⟩ := List.mem_map.1 hx
    obtain ⟨o', hmem', rfl⟩ := List.mem_map.1 hy
    obtain ⟨ho, name, hname, hguard, -⟩ := g.rule.mem_occurrences_of_mem_taken source hmem
    obtain ⟨ho', name', hname', hguard', -⟩ := g'.rule.mem_occurrences_of_mem_taken source hmem'
    refine Occurrence.byteOffset_ne (GetterRule.offset_lt ho) (GetterRule.offset_lt ho') ?_
    rcases hkind with hne | ⟨hcolor, hcolor'⟩ | ⟨hnumber, hnumber', hd, hd', hne⟩
    · exact GetterRule.offset_ne_of_keyword (keyword_mem hg) (keyword_mem hg') hne ho ho'
    · intro heq
      rw [hcolor] at ho
      rw [hcolor'] at ho'
      exact absurd (Pattern.count_eq_of_offset_eq ho ho' heq) (by decide)
    · -- a number at one place is one match of one pattern, and its name is accepted once
      intro heq
      rw [hnumber] at ho
      rw [hnumber'] at ho'
      rw [Pattern.eq_of_offset_eq ho ho' heq, hname'] at hname
      cases hname
      exact hne (eq_of_accepts hd hd' hguard hguard')

end Library

/-! ## Counting matches by rules -/

section Counting

variable {α β : Type} {as : List α} {bs : List β} {p : α → β → Bool}

theorem sum_map_indicator (q : α → Bool) (as : List α) :
    (as.map fun a => if q a then 1 else 0).sum = as.countP q := by
  induction as with
  | nil => rfl
  | cons a as ih => rw [List.map_cons, List.sum_cons, ih, List.countP_cons, Nat.add_comm]

-- Members with nothing to add can be left out of a sum.
theorem sum_map_filter {q : α → Bool} {f : α → Nat} (h : ∀ a ∈ as, q a = false → f a = 0) :
    ((as.filter q).map f).sum = (as.map f).sum := by
  induction as with
  | nil => rfl
  | cons a as ih =>
    have hrest := ih fun b hb => h b (List.mem_cons_of_mem a hb)
    rw [List.map_cons, List.sum_cons, ← hrest, List.filter_cons]
    cases hq : q a with
    | true => rfl
    | false =>
      rw [h a List.mem_cons_self hq, Nat.zero_add]
      rfl

-- What each member of one list counts of another one, counted by the members of the other one.
theorem sum_countP_of_forall {k : Nat} (h : ∀ b ∈ bs, (as.countP fun a => p a b) = k) :
    (as.map fun a => bs.countP (p a)).sum = k * bs.length := by
  induction bs with
  | nil => simp
  | cons b bs ih =>
    have hrest := ih fun c hc => h c (List.mem_cons_of_mem b hc)
    have hb : (as.map fun a => if p a b then 1 else 0).sum = k :=
      (sum_map_indicator (fun a => p a b) as).trans (h b List.mem_cons_self)
    simp only [List.countP_cons, List.sum_map_add, hrest, hb, List.length_cons, Nat.mul_succ]

theorem count_filter_eq [DecidableEq β] (q : β → Bool) (b : β) :
    (bs.filter q).count b = if q b then bs.count b else 0 := by
  split
  · rename_i hq
    exact List.count_filter hq
  · rename_i hq
    exact List.count_eq_zero.2 fun hm => hq (List.mem_filter.1 hm).2

-- Choices of which each member is in exactly one are all members together.
theorem perm_flatMap_filter [DecidableEq β] {q : β → Bool}
    (h : ∀ b ∈ bs, (as.countP fun a => p a b) + (if q b then 1 else 0) = 1) :
    ((as.flatMap fun a => bs.filter (p a)) ++ bs.filter q).Perm bs := by
  rw [List.perm_iff_count]
  intro b
  have hflat : (as.flatMap fun a => bs.filter (p a)).count b =
      (as.countP fun a => p a b) * bs.count b := by
    clear h
    induction as with
    | nil => simp
    | cons a as ih =>
      rw [List.flatMap_cons, List.count_append, ih, count_filter_eq, List.countP_cons]
      split <;> simp [Nat.add_mul, Nat.add_comm]
  rw [List.count_append, hflat, count_filter_eq]
  by_cases hb : b ∈ bs
  · have hone := h b hb
    calc
      _ = ((as.countP fun a => p a b) + if q b then 1 else 0) * bs.count b := by
        split <;> simp [Nat.add_mul]
      _ = bs.count b := by rw [hone, Nat.one_mul]
  · simp [List.count_eq_zero.2 hb]

end Counting

/-! ## Fates of numbers -/

/-- A match whose name is too long for any rule. -/
def Occurrence.TooLong (o : Occurrence) : Prop :=
  ∃ name ∈ o.name?, 255 < name.utf8ByteSize

instance (o : Occurrence) : Decidable o.TooLong :=
  inferInstanceAs (Decidable (∃ name ∈ o.name?, _))

def numericMatches (source : List Char) : List Occurrence := numericPattern.occurrences source

theorem exists_name_of_mem_numericMatches {source : List Char} {o : Occurrence}
    (ho : o ∈ numericMatches source) : ∃ name, o.name? = some name := by
  rw [numericMatches, numericPattern_eq] at ho
  exact Option.isSome_iff_exists.1
    (GetterRule.name_isSome (g := ⟨fontScale, "double", .amount⟩) ho)

namespace Rule

/-- The guard of a rule turns the name of a match away. -/
def turnsAway (r : Rule) (o : Occurrence) : Bool :=
  o.name?.any fun name => !r.guard.accepts name

theorem count_guarded_fates (r : Rule) (source : List Char) :
    (r.fates source).count .guarded = (r.pattern.occurrences source).countP r.turnsAway := by
  rw [fates, List.count, List.countP_filterMap]
  refine congrArg (fun p => List.countP p _) (funext fun o => ?_)
  rw [turnsAway]
  cases o.name? with
  | none => rfl
  | some name =>
    simp only [Option.map_some, Option.getD_some, Option.any_some, fate]
    cases r.guard.accepts name with
    | false => rfl
    | true =>
      simp only [if_true]
      split <;> rfl

theorem countedFates_eq {r : Rule} {source : List Char}
    (h : (r.acceptable source).length ≤ 10000) : r.countedFates source = r.fates source := by
  rw [length_acceptable] at h
  exact upTo_eq_self (Nat.lt_succ_of_le h)

end Rule

theorem countP_turnsAway {o : Occurrence} {name : String} (hname : o.name? = some name) :
    (numericRules.countP fun r => r.turnsAway o) = 2 := by
  have hone := countP_accepts name
  have hall := List.length_eq_countP_add_countP (fun d : RuleDefinition => d.guard.accepts name)
    (l := numericDefinitions)
  have hthree : numericDefinitions.length = 3 := rfl
  have haway : (numericRules.countP fun r => r.turnsAway o) =
      numericDefinitions.countP fun d => !d.guard.accepts name := by
    rw [numericRules, List.countP_map]
    refine congrArg (fun p => List.countP p _) (funext fun d => ?_)
    simp [Rule.turnsAway, hname]
  simp only [Bool.not_eq_true, Bool.decide_eq_false] at hall
  omega

theorem countP_acceptable {o : Occurrence} {name : String} (hname : o.name? = some name) :
    (numericRules.countP fun r => r.Acceptable o) + (if o.TooLong then 1 else 0) = 1 := by
  have hone := countP_accepts name
  have hrule (d : RuleDefinition) :
      (⟨d.id, d.category, numericPattern, d.shape, d.guard⟩ : Rule).Acceptable o ↔
        d.guard.accepts name = true ∧ name.utf8ByteSize ≤ 255 := by
    simp [Rule.Acceptable, hname]
  have hlong : o.TooLong ↔ 255 < name.utf8ByteSize := by
    simp [Occurrence.TooLong, hname]
  rw [numericRules, List.countP_map]
  simp only [Function.comp_def, hrule, hlong]
  by_cases h : 255 < name.utf8ByteSize
  · have hnone : ¬ name.utf8ByteSize ≤ 255 := by omega
    simp [h, hnone]
  · have hshort : name.utf8ByteSize ≤ 255 := by omega
    simp [h, hshort, hone]

namespace Library

/-- **Each match of a number is turned away by two rules.** -/
theorem guardedOut_standard {source : String}
    (h : ∀ r ∈ standard.rules, (r.acceptable source.toList).length ≤ 10000) :
    (standard.scan source).metrics.guardedOut = 2 * (numericMatches source.toList).length := by
  have hrule : ∀ r ∈ standard.applied,
      (r.findings (.of source.toList) source.toList).countP Finding.isGuarded =
        (r.pattern.occurrences source.toList).countP r.turnsAway := by
    intro r hr
    rw [Rule.guarded_findings, Rule.countedFates_eq (h r (standard.applied_perm.mem_iff.1 hr)),
      Rule.count_guarded_fates]
  have hnumeric : ∀ r ∈ numericRules, (r.pattern.occurrences source.toList).countP r.turnsAway =
      (numericMatches source.toList).countP r.turnsAway := by
    intro r hr
    obtain ⟨d, -, rfl⟩ := List.mem_map.1 hr
    rfl
  rw [Scan.guardedOut_metrics, countP_findings_scan, ← sum_applied, List.map_congr_left hrule,
    ← sum_map_filter (q := fun r => decide (r ∈ numericRules)), filter_applied_numeric,
    List.map_congr_left hnumeric]
  · refine sum_countP_of_forall fun o ho => ?_
    obtain ⟨name, hname⟩ := exists_name_of_mem_numericMatches ho
    exact countP_turnsAway hname
  · intro r hr hn
    have hany := guard_eq_any (standard.applied_perm.mem_iff.1 hr) (of_decide_eq_false hn)
    refine List.countP_eq_zero.2 fun o _ => ?_
    simp [Rule.turnsAway, hany, NameGuard.accepts]

theorem filter_origins_numeric (source : List Char) :
    ((standard.origins source).filter fun x => x.rule ∈ numericRules).map Origin.place =
      numericRules.flatMap fun r => r.taken source := by
  rw [origins, filter_flatMap_of_forall (q := fun r => decide (r ∈ numericRules)),
    filter_applied_numeric, List.map_flatMap]
  · simp only [List.map_map, Function.comp_def, List.map_id']
  · intro r _ x hx
    obtain ⟨o, -, rfl⟩ := List.mem_map.1 hx
    rfl

/-- **The hits of the rules for numbers and the names that are too long are all numbers.** -/
theorem perm_numericMatches {source : List Char}
    (h : ∀ r ∈ standard.rules, (r.acceptable source).length ≤ 10000) :
    ((((standard.origins source).filter fun x => x.rule ∈ numericRules).map Origin.place) ++
      (numericMatches source).filter fun o => o.TooLong).Perm (numericMatches source) := by
  have htaken : ∀ r ∈ numericRules, r.taken source =
      (numericMatches source).filter fun o => r.Acceptable o := by
    intro r hr
    have hmem : r ∈ standard.rules := by
      rw [← filter_applied_numeric] at hr
      exact standard.applied_perm.mem_iff.1 (List.mem_filter.1 hr).1
    rw [Rule.taken_eq_acceptable r source (h r hmem)]
    obtain ⟨d, -, rfl⟩ := List.mem_map.1 hr
    rfl
  rw [filter_origins_numeric, List.flatMap_congr htaken]
  refine perm_flatMap_filter fun o ho => ?_
  obtain ⟨name, hname⟩ := exists_name_of_mem_numericMatches ho
  simpa using countP_acceptable hname

end Library

/-! ## Bound names -/

-- A number binds its own name, or none if it cannot be read.
theorem Hit.Means.name_of_numeric {h : Hit} {bs : List (String × TokenValue)}
    {ws : List BuildWarning} (hm : h.Means bs ws) (hs : h.shape = .numeric)
    {b : String × TokenValue} (hb : b ∈ bs) : b.1 = h.name := by
  cases hm with
  | number => rw [List.mem_singleton.1 hb]
  | malformedNumber => cases hb
  | color hs' | malformedColor hs' | gradient hs' | textStyle hs' | shadow hs' | duration hs'
  | malformedDuration hs' | curve hs' =>
    rw [hs'] at hs
    cases hs

theorem Scan.rule_eq_of_bindings {source : String} {h h' : Hit}
    (hm : h ∈ (Library.standard.scan source).hits) (hm' : h' ∈ (Library.standard.scan source).hits)
    (hn : h.rule ∈ numericDefinitions.map (·.id)) (hn' : h'.rule ∈ numericDefinitions.map (·.id))
    {b b' : String × TokenValue} (hb : b ∈ h.bindings) (hb' : b' ∈ h'.bindings)
    (hname : b.1 = b'.1) : h.rule = h'.rule := by
  have hall : ∀ g ∈ standardGetters, g.definition.id ∈ numericDefinitions.map (·.id) →
      g.definition ∈ numericDefinitions ∧ g.definition.shape = .numeric := by
    decide +kernel
  obtain ⟨g, hg, hof⟩ := of_mem_hits hm
  obtain ⟨g', hg', hof'⟩ := of_mem_hits hm'
  rw [hof.rule] at hn ⊢
  rw [hof'.rule] at hn' ⊢
  obtain ⟨hd, hs⟩ := hall g hg hn
  obtain ⟨hd', hs'⟩ := hall g' hg' hn'
  have hsame : h.name = h'.name := by
    rw [← h.means.name_of_numeric (hof.shape.trans hs) hb, hname,
      h'.means.name_of_numeric (hof'.shape.trans hs') hb']
  have hguard := hof.guard
  rw [hsame] at hguard
  rw [eq_of_accepts hd hd' hguard hof'.guard]

/-! ## Standard scans -/

/-- What is known of the getters that the standard rules extract from a source. -/
structure ExtractedOnce (source : String) : Prop where
  /-- Each hit comes from a match of its rule. -/
  hits : (Library.standard.scan source).hits =
    (Library.standard.origins source.toList).map fun x =>
      x.rule.hitOf (.of source.toList) x.place
  origins : ∀ x ∈ Library.standard.origins source.toList, x.rule ∈ Library.standard.rules ∧
    x.place ∈ x.rule.pattern.occurrences source.toList
  /-- No two hits start at one byte. -/
  places : (Library.standard.origins source.toList).Pairwise fun x y =>
    x.place.byteOffset source.toList ≠ y.place.byteOffset source.toList
  /-- Each number is for one rule. -/
  guards : ∀ o ∈ numericPattern.occurrences source.toList, ∃ name ∈ o.name?,
    (numericDefinitions.countP fun d => d.guard.accepts name) = 1
  /-- No name is bound by two rules for numbers. -/
  names : ∀ h ∈ (Library.standard.scan source).hits, ∀ h' ∈ (Library.standard.scan source).hits,
    h.rule ∈ numericDefinitions.map (·.id) → h'.rule ∈ numericDefinitions.map (·.id) →
      ∀ b ∈ h.bindings, ∀ b' ∈ h'.bindings, b.1 = b'.1 → h.rule = h'.rule
  guardedOut : (∀ r ∈ Library.standard.rules, (r.acceptable source.toList).length ≤ 10000) →
    (Library.standard.scan source).metrics.guardedOut =
      2 * (numericPattern.occurrences source.toList).length
  /-- The hits of the rules for numbers and the names that are too long make up all numbers. -/
  numbers : (∀ r ∈ Library.standard.rules, (r.acceptable source.toList).length ≤ 10000) →
    ((((Library.standard.origins source.toList).filter fun x => x.rule ∈ numericRules).map
        Origin.place) ++
      (numericPattern.occurrences source.toList).filter fun o => o.TooLong).Perm
        (numericPattern.occurrences source.toList)

/-- **No getter is extracted twice.** The rules for numbers are those of the library whose pattern
is that of numbers, and they divide all names among them. -/
theorem Library.extractedOnce :
    (standard.rules.filter fun r => r.pattern = numericPattern) = numericRules ∧
      (∀ name, (numericDefinitions.countP fun d => d.guard.accepts name) = 1) ∧
      ∀ source, ExtractedOnce source := by
  have hshared : (standard.rules.filter fun r => r.pattern = numericPattern) = numericRules := by
    rw [standard_rules, numericRules, numericPattern_eq]
    decide +kernel
  refine ⟨hshared, countP_accepts, fun source => ?_⟩
  exact {
    hits := standard.hits_eq_origins source
    origins := fun x hx =>
      ⟨(standard.mem_origins hx).1,
        (x.rule.mem_occurrences_of_mem_taken _ (standard.mem_origins hx).2).1⟩
    places := pairwise_origins_standard _
    guards := fun o ho => by
      obtain ⟨name, hname⟩ := exists_name_of_mem_numericMatches ho
      exact ⟨name, hname, countP_accepts name⟩
    names := fun h hm h' hm' hn hn' b hb b' hb' =>
      Scan.rule_eq_of_bindings hm hm' hn hn' hb hb'
    guardedOut := guardedOut_standard
    numbers := perm_numericMatches }

/-- Two numbers below any limit are turned away twice each, and each is a hit once. -/
theorem Library.extractedOnce_two_numbers :
    (∀ r ∈ standard.rules,
      (r.acceptable "double get gap => 8;\ndouble get radiusM => 4;".toList).length ≤ 10000) ∧
    (standard.scan "double get gap => 8;\ndouble get radiusM => 4;").metrics.guardedOut = 4 ∧
    (standard.scan "double get gap => 8;\ndouble get radiusM => 4;").hits.map
      (fun h => (h.rule, h.name)) = [("spacing_scale", "gap"), ("border_scale", "radiusM")] := by
  have hlimit : ∀ r ∈ standard.rules,
      (r.acceptable "double get gap => 8;\ndouble get radiusM => 4;".toList).length ≤ 10000 := by
    rw [standard_rules]
    decide +kernel
  have hmatches : (numericPattern.occurrences
      "double get gap => 8;\ndouble get radiusM => 4;".toList).length = 2 := by
    rw [numericPattern_eq]
    decide +kernel
  refine ⟨hlimit, ?_, ?_⟩
  · rw [(extractedOnce.2.2 "double get gap => 8;\ndouble get radiusM => 4;").guardedOut hlimit,
      hmatches]
  · rw [Scan.hits_standard]
    decide +kernel

end DesignTokens
