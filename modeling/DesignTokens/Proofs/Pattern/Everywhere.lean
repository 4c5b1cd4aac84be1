import DesignTokens.Proofs.Pattern.Occurrences

/-!
# Searches that miss nothing

A search goes on behind the end of each match, so a match that starts inside of another one is
passed over. For a pattern whose matches never hold the start of another match nothing is lost:
its occurrences are its matches at all places of the text, from left to right.
-/

namespace DesignTokens

namespace Pattern

/-- What the pattern takes is not empty, and no other match starts inside of it. -/
def Lone (p : Pattern) : Prop :=
  ∀ t gs rest, p.Takes t gs → t ≠ [] ∧ Clear p t.tail rest

/-- The occurrence that a match at a place of a text amounts to, if there is one. -/
def occurrenceAt? (p : Pattern) (place : SearchPlace) (s : List Char) (k : Nat) :
    Option Occurrence :=
  (p.matchAtStart (s.drop k)).map (place.past (s.take k) false).occurrence

def everywhere (p : Pattern) (place : SearchPlace) (s : List Char) : List Occurrence :=
  (List.range s.length).filterMap (p.occurrenceAt? place s)

-- A place matters for its occurrences by its offset and its bytes alone.
theorem everywhere_cons (p : Pattern) (place : SearchPlace) (c : Char) (s : List Char)
    (flag : Bool) :
    p.everywhere place (c :: s) =
      ((p.matchAtStart (c :: s)).map place.occurrence).toList
        ++ p.everywhere (place.advance c flag) s := by
  have hlater (k : Nat) :
      p.occurrenceAt? place (c :: s) (k + 1) = p.occurrenceAt? (place.advance c flag) s k := by
    rw [occurrenceAt?, List.take_succ_cons, place.past_cons c (s.take k) flag]
    rfl
  have hhere : p.occurrenceAt? place (c :: s) 0 =
      (p.matchAtStart (c :: s)).map place.occurrence := rfl
  rw [everywhere, List.length_cons, List.range_succ_eq_map, List.filterMap_cons, hhere,
    List.filterMap_map, Function.comp_def]
  simp only [hlater]
  cases p.matchAtStart (c :: s) <;> rfl

-- Text without matches adds nothing.
theorem everywhere_clear {p : Pattern} {t rest : List Char} (h : Clear p t rest)
    (place : SearchPlace) (flag : Bool) :
    p.everywhere place (t ++ rest) = p.everywhere (place.past t flag) rest := by
  induction t generalizing place with
  | nil => rfl
  | cons c t ih =>
    have hclear : Clear p t rest := fun k hk => h (k + 1) (Nat.succ_lt_succ hk)
    have hnone : p.matchAtStart (c :: (t ++ rest)) = none :=
      matchAtStart_of_noWay (h 0 (Nat.zero_lt_succ _))
    rw [List.cons_append, p.everywhere_cons place c (t ++ rest) false, hnone, ih hclear,
      place.past_cons c t false]
    rfl

/-- **The occurrences of a pattern whose matches hold no other match are its matches everywhere.** -/
theorem occurrencesFrom_of_lone {p : Pattern} (hp : p.Lone) (s : List Char)
    (place : SearchPlace) :
    p.occurrencesFrom (s.length + 1) s 0 place [] = p.everywhere place s := by
  induction hn : s.length using Nat.strongRecOn generalizing s place with
  | _ n ih =>
    subst hn
    cases hm : p.matchAtStart s with
    | none =>
      cases s with
      | nil =>
        simp only [occurrencesFrom, hm]
        rfl
      | cons c s =>
        have hrest := ih s.length (Nat.lt_succ_self _) s (place.advance c false) rfl
        rw [occurrencesFrom, hm, p.everywhere_cons place c s false, hm]
        exact hrest
    | some m =>
      have hattempt := hm
      rw [matchAtStart_eq] at hattempt
      rcases takes_of_attempt p hattempt with ⟨t, n, hs, hw, ht, hnext⟩
      cases hnext
      rcases hp t _ m.rest ht with ⟨hne, hclear⟩
      cases t with
      | nil => exact absurd rfl hne
      | cons c t =>
        -- the search skips the rest of the match, in which no other match starts
        rw [List.cons_append] at hs
        subst hs
        have hwidth : m.width = t.length + 1 := hw
        rcases occurrencesFrom_skip p t m.rest (m.rest.length + 1) (place.advance c true)
          with ⟨flag, hflag⟩
        have hshort : m.rest.length < (c :: (t ++ m.rest)).length := by
          rw [List.length_cons, List.length_append]
          omega
        have hrest := ih m.rest.length hshort m.rest ((place.advance c true).past t flag) rfl
        have hskipped : p.everywhere (place.advance c true) (t ++ m.rest) =
            p.everywhere ((place.advance c true).past t flag) m.rest :=
          everywhere_clear hclear _ flag
        rw [p.everywhere_cons place c _ true, hm, hskipped, ← hrest, ← hflag, List.length_cons,
          List.length_append, Nat.add_right_comm, Nat.add_assoc, occurrencesFrom, hm]
        simp only [hwidth]
        rw [occurrencesFrom_append_found]
        rfl

theorem mem_occurrences_of_lone {p : Pattern} (hp : p.Lone) {s : List Char} {o : Occurrence} :
    o ∈ p.occurrences s ↔ ∃ k < s.length, p.occurrenceAt? .start s k = some o := by
  rw [occurrences_eq, occurrencesFrom_of_lone hp, everywhere, List.mem_filterMap]
  simp only [List.mem_range]

theorem offset_of_occurrenceAt? {p : Pattern} {s : List Char} {k : Nat} {o : Occurrence}
    (hk : k < s.length) (h : p.occurrenceAt? .start s k = some o) : o.offset = k := by
  obtain ⟨m, -, rfl⟩ := Option.map_eq_some_iff.1 h
  show 0 + (s.take k).length = k
  rw [List.length_take]
  omega

theorem pairwise_offset_of_lone {p : Pattern} (hp : p.Lone) (s : List Char) :
    (p.occurrences s).Pairwise fun a b => a.offset < b.offset ∧ b.offset < s.length := by
  rw [occurrences_eq, occurrencesFrom_of_lone hp, everywhere, List.pairwise_filterMap]
  apply List.pairwise_lt_range.imp_of_mem
  intro j k hj hk hjk a ha b hb
  have hoffset := offset_of_occurrenceAt? (List.mem_range.1 hj) ha
  have hoffset' := offset_of_occurrenceAt? (List.mem_range.1 hk) hb
  have hlen := List.mem_range.1 hk
  omega

end Pattern

end DesignTokens
