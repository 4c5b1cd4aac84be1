import DesignTokens.Extract.Build
import DesignTokens.Proofs.Rule.Getter

/-!
# Where hits come from

Every hit of a scan is an accepted occurrence of one rule. For the standard rules this says what
its name and its captures can look like, whatever the source is. Conversely no accepted occurrence
is lost as long as a rule stays below its limit.
-/

namespace DesignTokens

-- Where each member gives all or none of what is chosen, the members can be chosen first.
theorem filter_flatMap_of_forall {α β : Type} {f : α → List β} {p : β → Bool} {q : α → Bool}
    {as : List α} (h : ∀ a ∈ as, ∀ b ∈ f a, p b = q a) :
    (as.flatMap f).filter p = (as.filter q).flatMap f := by
  induction as with
  | nil => rfl
  | cons a as ih =>
    have hrest := ih fun b hb => h b (List.mem_cons_of_mem a hb)
    have ha := h a List.mem_cons_self
    rw [List.flatMap_cons, List.filter_append, hrest, List.filter_cons]
    split
    · rename_i hq
      rw [List.flatMap_cons, List.filter_eq_self.2]
      exact fun b hb => (ha b hb).trans hq
    · rename_i hq
      rw [List.filter_eq_nil_iff.2, List.nil_append]
      exact fun b hb hp => hq ((ha b hb).symm.trans hp)

namespace Rule

/-! ## Accepted occurrences -/

theorem mem_limited {room : Nat} {fs done : List Finding} {h : Hit}
    (hm : .accepted h ∈ limited room fs done) : .accepted h ∈ done ∨ .accepted h ∈ fs := by
  induction fs generalizing room done with
  | nil =>
    cases room <;> exact .inl (List.mem_reverse.1 hm)
  | cons f fs ih =>
    -- the finding in front moves over to those that are through
    have moved {room : Nat} (hm : .accepted h ∈ limited room fs (f :: done)) :
        .accepted h ∈ done ∨ .accepted h ∈ f :: fs := by
      rcases ih hm with hm | hm
      · rcases List.mem_cons.1 hm with rfl | hm
        · exact .inr List.mem_cons_self
        · exact .inl hm
      · exact .inr (List.mem_cons_of_mem f hm)
    cases f with
    | accepted hit =>
      cases room with
      | zero =>
        rcases List.mem_cons.1 (List.mem_reverse.1 hm) with hm | hm
        · cases hm
        · exact .inl hm
      | succ room => exact moved hm
    | guarded | tooLong | overLimit =>
      cases room <;> exact moved hm

-- Below the limit every finding is let through.
theorem limited_eq {room : Nat} {fs : List Finding} (done : List Finding)
    (h : (fs.filterMap Finding.hit?).length ≤ room) :
    limited room fs done = done.reverse ++ fs := by
  induction fs generalizing room done with
  | nil => cases room <;> simp [limited]
  | cons f fs ih =>
    have hsplit : (f :: done).reverse ++ fs = done.reverse ++ f :: fs := by simp
    rw [← hsplit]
    cases f with
    | accepted hit =>
      have hlen : (fs.filterMap Finding.hit?).length + 1 ≤ room := h
      cases room with
      | zero => omega
      | succ room => exact ih _ (by omega)
    | guarded | tooLong | overLimit =>
      cases room <;> exact ih _ h

-- At the limit the first hits are through, and no others.
theorem filterMap_limited (room : Nat) (fs done : List Finding) :
    (limited room fs done).filterMap Finding.hit? =
      done.reverse.filterMap Finding.hit? ++ (fs.filterMap Finding.hit?).take room := by
  induction fs generalizing room done with
  | nil => cases room <;> simp [limited]
  | cons f fs ih =>
    cases f with
    | accepted hit =>
      cases room with
      | zero => simp [limited, Finding.hit?]
      | succ room => simp [limited, ih, Finding.hit?]
    | guarded | tooLong | overLimit =>
      cases room <;> simp [limited, ih, List.filterMap_cons, Finding.hit?]

section Accepted

variable {P : Type} {r : Rule P} {lines : LineIndex}

theorem classify_eq_accepted {o : Occurrence} {h : Hit}
    (hc : r.classify lines o = some (.accepted h)) :
    ∃ chars behind, o.groups = some chars :: behind ∧
      r.guard.accepts (String.ofList chars) = true ∧
      h = r.hitAt (lines.lineOf o.bytes) (String.ofList chars) behind := by
  unfold classify at hc
  split at hc
  · rename_i chars behind hgroups
    simp only at hc
    split at hc
    · cases hc
    · rename_i hguard
      split at hc
      · cases hc
      · cases hc
        exact ⟨chars, behind, hgroups, by simpa using hguard, rfl⟩
  · cases hc

theorem mem_findings [Matcher P] {source : List Char} {h : Hit}
    (hm : .accepted h ∈ r.findings lines source) :
    ∃ o ∈ Matcher.occurrences r.pattern source, r.classify lines o = some (.accepted h) := by
  rcases mem_limited hm with hm | hm
  · cases hm
  · exact List.mem_filterMap.1 hm

end Accepted

end Rule

/-! ## Hits of getters -/

/-- What is known of a hit of a getter: where it belongs, that its name is a word, and that its
captures are the groups of a text that the value can take. -/
structure Hit.Of (g : GetterRule) (h : Hit) : Prop where
  category : h.category = g.definition.category
  rule : h.rule = g.definition.id
  shape : h.shape = g.definition.shape
  guard : g.definition.guard.accepts h.name = true
  name : Text.IsName h.name.toList
  captures : ∃ t gs, g.value.Takes t gs ∧ h.captures = gs.map fun g => String.ofList (g.getD [])

namespace GetterRule

theorem of_mem_findings {g : GetterRule} {lines : LineIndex} {source : List Char} {h : Hit}
    (hm : .accepted h ∈ g.rule.findings lines source) : h.Of g := by
  rcases Rule.mem_findings hm with ⟨o, ho, hc⟩
  rcases Rule.classify_eq_accepted hc with ⟨chars, behind, hgroups, hguard, rfl⟩
  rcases Pattern.takes_of_mem_occurrences ho with ⟨t, -, -, ht⟩
  rw [hgroups] at ht
  rcases Pattern.takes_getter ht with ⟨name, u, vs, hgs, hname, hu, -⟩
  cases hgs
  exact {
    category := rfl
    rule := rfl
    shape := rfl
    guard := hguard
    name := by
      rw [Rule.hitAt, String.toList_ofList]
      exact hname
    captures := ⟨u, behind, hu, rfl⟩ }

def hits (g : GetterRule) (source : String) : List Hit :=
  (g.rule.findings (.of source.toList) source.toList).filterMap Finding.hit?

-- The hits are the first of the accepted occurrences.
theorem hits_eq_take (g : GetterRule) (source : String) :
    g.hits source = (((g.rule.pattern.occurrences source.toList).filterMap
      (g.rule.classify (.of source.toList))).filterMap Finding.hit?).take hitLimit :=
  Rule.filterMap_limited hitLimit _ []

theorem of_mem_hits {g : GetterRule} {source : String} {h : Hit} (hm : h ∈ g.hits source) :
    h.Of g := by
  rcases List.mem_filterMap.1 hm with ⟨f, hf, hfh⟩
  cases f with
  | accepted hit =>
    cases hfh
    exact of_mem_findings hf
  | guarded | tooLong | overLimit => cases hfh

end GetterRule

namespace Scan

open RuleDefinition

/-- **The hits of the standard scan are those of the getters, one after the other.** -/
theorem hits_standard (source : String) :
    (Library.standard.scan source).hits = standardGetters.flatMap (·.hits source) := by
  rw [hits, Library.byRule_scan_standard, standardRules, List.map_map, List.flatMap_map]
  rfl

theorem of_mem_hits {source : String} {h : Hit} (hm : h ∈ (Library.standard.scan source).hits) :
    ∃ g ∈ standardGetters, h.Of g := by
  rw [hits_standard] at hm
  rcases List.mem_flatMap.1 hm with ⟨g, hg, hm⟩
  exact ⟨g, hg, GetterRule.of_mem_hits hm⟩

-- Where the getter decides about a choice of hits, the hits of some getters are left.
theorem filter_hits_standard {p : Hit → Bool} {q : GetterRule → Bool}
    (h : ∀ (g : GetterRule) (hit : Hit), hit.Of g → p hit = q g) (source : String) :
    (Library.standard.scan source).hits.filter p =
      (standardGetters.filter q).flatMap (·.hits source) := by
  rw [hits_standard]
  exact filter_flatMap_of_forall fun g _ hit hm => h g hit (GetterRule.of_mem_hits hm)

end Scan

end DesignTokens
