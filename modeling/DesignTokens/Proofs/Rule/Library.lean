import DesignTokens.Rule.Standard
import Mathlib.Data.List.Basic

/-!
# Accepted definitions

Definitions make a library exactly if their ids differ and their patterns can be read. The library
then holds one rule for each definition, in the same order, and some of the definitions make a
library of their own.
-/

namespace DesignTokens

variable {P : Type} [Matcher P]

theorem RuleDefinition.eq_of_rule? {d : RuleDefinition} {r : Rule P} (h : d.rule? = some r) :
    ∃ p, Matcher.read d.pattern = some p ∧ r = ⟨d.id, d.category, p, d.shape, d.guard⟩ := by
  obtain ⟨p, hp, rfl⟩ := Option.map_eq_some_iff.1 h
  exact ⟨p, hp, rfl⟩

namespace Library

theorem rulesOf_eq_ok_iff {seen : List String} {ds : List RuleDefinition} {rules : List (Rule P)} :
    rulesOf seen ds = .ok rules ↔
      (ds.map (·.id)).Nodup ∧ (∀ d ∈ ds, d.id ∉ seen) ∧
        ds.map RuleDefinition.rule? = rules.map some := by
  induction ds generalizing seen rules with
  | nil =>
    rw [rulesOf]
    constructor
    · rintro h
      cases h
      exact ⟨List.nodup_nil, nofun, rfl⟩
    · rintro ⟨-, -, h⟩
      rw [List.map_eq_nil_iff.1 h.symm]
  | cons d ds ih =>
    rw [rulesOf]
    by_cases hseen : d.id ∈ seen
    · rw [if_pos hseen]
      exact ⟨nofun, fun h => absurd hseen (h.2.1 d List.mem_cons_self)⟩
    rw [if_neg hseen]
    cases hr : (d.rule? : Option (Rule P)) with
    | none =>
      refine ⟨nofun, fun h => ?_⟩
      have hfirst := h.2.2
      rw [List.map_cons, hr] at hfirst
      cases rules <;> cases hfirst
    | some r =>
      -- what the id adds to the ids seen, its definition adds to those that must differ
      have hrest (rest : List (Rule P)) : rulesOf (d.id :: seen) ds = .ok rest ↔
          ((d :: ds).map (·.id)).Nodup ∧ (∀ e ∈ d :: ds, e.id ∉ seen) ∧
            ds.map RuleDefinition.rule? = rest.map some := by
        rw [ih]
        simp only [List.map_cons, List.nodup_cons, List.mem_map, not_exists, not_and,
          List.mem_cons, not_or, forall_eq_or_imp]
        constructor
        · rintro ⟨hnodup, hnew, hrules⟩
          exact ⟨⟨fun e he => (hnew e he).1, hnodup⟩, ⟨hseen, fun e he => (hnew e he).2⟩, hrules⟩
        · rintro ⟨⟨hne, hnodup⟩, ⟨-, hnew⟩, hrules⟩
          exact ⟨hnodup, fun e he => ⟨hne e he, hnew e he⟩, hrules⟩
      rw [List.map_cons (f := RuleDefinition.rule?), hr]
      constructor
      · intro h
        cases hrules : (rulesOf (d.id :: seen) ds : Except RuleError (List (Rule P))) with
        | error e => simp only [hrules] at h; cases h
        | ok rest =>
          simp only [hrules] at h
          cases h
          obtain ⟨hnodup, hnew, htail⟩ := (hrest rest).1 hrules
          exact ⟨hnodup, hnew, by rw [htail, List.map_cons]⟩
      · rintro ⟨hnodup, hnew, hall⟩
        cases rules with
        | nil => cases hall
        | cons r' rest =>
          injection hall with hhead htail
          cases hhead
          simp only [(hrest rest).2 ⟨hnodup, hnew, htail⟩]

/-- **Definitions make a library exactly if their ids differ and their patterns can be read**, and
then the one that holds their rules in order. -/
theorem ofDefinitions_eq_ok_iff {ds : List RuleDefinition} {lib : Library P} :
    ofDefinitions ds = .ok lib ↔
      (ds.map (·.id)).Nodup ∧ ds.map RuleDefinition.rule? = lib.rules.map some := by
  have hok : ofDefinitions ds = .ok lib ↔ rulesOf [] ds = .ok lib.rules := by
    rw [ofDefinitions]
    cases (rulesOf [] ds : Except RuleError (List (Rule P))) with
    | error e => exact ⟨nofun, nofun⟩
    | ok rules =>
      constructor
      · intro h
        cases h
        rfl
      · intro h
        cases h
        rfl
  rw [hok, rulesOf_eq_ok_iff]
  simp

section Accepted

variable {ds : List RuleDefinition} {lib : Library P} (h : ofDefinitions ds = .ok lib)
include h

theorem rules_eq : lib.rules = ds.filterMap RuleDefinition.rule? := by
  have hall := congrArg (List.filterMap id) (ofDefinitions_eq_ok_iff.1 h).2
  rw [List.filterMap_map, List.filterMap_map, Function.id_comp, Function.id_comp,
    List.filterMap_some] at hall
  exact hall.symm

theorem exists_rule {d : RuleDefinition} (hd : d ∈ ds) : ∃ r ∈ lib.rules, d.rule? = some r := by
  have hmem : d.rule? ∈ lib.rules.map some :=
    (ofDefinitions_eq_ok_iff.1 h).2 ▸ List.mem_map_of_mem hd
  obtain ⟨r, hr, hrule⟩ := List.mem_map.1 hmem
  exact ⟨r, hr, hrule.symm⟩

theorem map_id_rules : lib.rules.map (·.id) = ds.map (·.id) := by
  rw [rules_eq h, List.map_filterMap, ← List.filterMap_eq_map]
  refine List.filterMap_congr fun d hd => ?_
  obtain ⟨r, -, hr⟩ := exists_rule h hd
  obtain ⟨p, -, rfl⟩ := RuleDefinition.eq_of_rule? hr
  rw [hr]
  rfl

/-- No two rules of a library share an id. -/
theorem nodup_ids : (lib.rules.map (·.id)).Nodup := by
  rw [map_id_rules h]
  exact (ofDefinitions_eq_ok_iff.1 h).1

-- The rules of a category are those of its definitions.
theorem rulesFor_eq (c : Category) :
    lib.rulesFor c = (ds.filter fun d => d.category = c).filterMap RuleDefinition.rule? := by
  rw [rulesFor, rules_eq h, List.filter_filterMap, List.filterMap_filter]
  refine List.filterMap_congr fun d hd => ?_
  obtain ⟨r, -, hr⟩ := exists_rule h hd
  obtain ⟨p, -, rfl⟩ := RuleDefinition.eq_of_rule? hr
  rw [hr, Option.filter_some]

/-- Some of the definitions of a library make a library. -/
theorem exists_ofDefinitions_filter (p : RuleDefinition → Bool) :
    ∃ lib' : Library P, ofDefinitions (ds.filter p) = .ok lib' := by
  refine ⟨⟨(ds.filter p).filterMap RuleDefinition.rule?⟩, ofDefinitions_eq_ok_iff.2 ⟨?_, ?_⟩⟩
  · exact (List.filter_sublist.map _).nodup (ofDefinitions_eq_ok_iff.1 h).1
  · rw [List.map_filterMap, ← List.filterMap_eq_map]
    refine List.filterMap_congr fun d hd => ?_
    obtain ⟨r, -, hr⟩ := exists_rule h (List.mem_filter.1 hd).1
    rw [Function.comp_apply, hr]
    rfl

end Accepted

/-- The standard definitions make the standard library. -/
theorem ofDefinitions_standard : ofDefinitions RuleDefinition.standard = .ok standard := by
  have hsome : (ofDefinitions RuleDefinition.standard).toOption = some standard :=
    (Option.some_get _).symm
  cases hok : (ofDefinitions RuleDefinition.standard : Except RuleError Library) with
  | ok lib =>
    rw [hok] at hsome
    exact congrArg Except.ok (Option.some.inj hsome)
  | error e =>
    rw [hok] at hsome
    cases hsome

end Library

end DesignTokens
