import DesignTokens.Proofs.Pattern.Occurrences

/-!
# Breaks between matches

A character that belongs to no class of a pattern is a break for it: no match holds one, and what
is matched in front of one does not depend on anything behind it. A text can therefore be searched
piece by piece between its breaks, and nothing that is cut off in one piece changes what is found
in another one.
-/

namespace DesignTokens

/-! ## Patterns without a character -/

namespace Pattern

/-- Whether no class of a pattern has a character. -/
def avoids (c : Char) : Pattern → Bool
  | empty => true
  | one k | run k _ | whole k _ | exactly k _ => !k.has c
  | seq p q | either p q => p.avoids c && q.avoids c
  | group p => p.avoids c

variable {has : Char → Bool} {c : Char} (hc : has c = false)
include hc

theorem takeWhile_break (s rest : List Char) :
    (s ++ c :: rest).takeWhile has = s.takeWhile has := by
  induction s with
  | nil => simp [hc]
  | cons d s ih => rw [List.cons_append, List.takeWhile_cons, List.takeWhile_cons, ih]

theorem stretch_break (s rest : List Char) (width : Nat) :
    stretch has (s ++ c :: rest) width =
      ((stretch has s width).1, (stretch has s width).2 ++ c :: rest) := by
  induction s generalizing width with
  | nil => simp [stretch, hc]
  | cons d s ih =>
    rw [List.cons_append, stretch, stretch]
    split
    · exact ih (width + 1)
    · rfl

theorem dropExactly_break (s rest : List Char) (n : Nat) :
    dropExactly has n (s ++ c :: rest) = (dropExactly has n s).map (· ++ c :: rest) := by
  induction s generalizing n with
  | nil => cases n <;> simp [dropExactly, hc]
  | cons d s ih =>
    cases n with
    | zero => rfl
    | succ n =>
      rw [List.cons_append, dropExactly, dropExactly]
      split
      · exact ih n
      · rfl

end Pattern

/-! ## Matching in front of a break -/

/-- The same was consumed, with the same groups, of a text with something behind it and of the text
`s` alone. -/
structure Reached.Alike (s behind : List Char) (m n : Reached) : Prop where
  width : m.width = n.width
  groups : m.groups.map (·.map Span.text) = n.groups.map (·.map Span.text)
  rest : m.rest = n.rest ++ behind
  inside : n.width + n.rest.length = s.length

theorem Reached.Alike.text_span {s behind : List Char} {m n : Reached}
    (h : Reached.Alike s behind m n) :
    Span.text ⟨s ++ behind, m.width⟩ = Span.text ⟨s, n.width⟩ := by
  have hinside : n.width ≤ s.length := h.inside ▸ Nat.le_add_right _ _
  rw [Span.text, Span.text, h.width, List.take_append_of_le_length hinside]

theorem Reached.Alike.occurrence {s behind : List Char} {m n : Reached}
    (h : Reached.Alike s behind m n) (place : SearchPlace) :
    place.occurrence m = place.occurrence n := by
  rw [SearchPlace.occurrence, SearchPlace.occurrence, h.width, h.groups]

namespace Pattern

variable {α β : Type} {r : α → β → Prop} {next : Reached → Option α} {next' : Reached → Option β}
  {s behind : List Char}

theorem alike_of_append {t rest : List Char} (hs : s = t ++ rest) :
    Reached.Alike s behind ⟨t.length, [], rest ++ behind⟩ ⟨t.length, [], rest⟩ :=
  ⟨rfl, rfl, rfl, by rw [hs, List.length_append]⟩

-- Where one way fails so does the other one, and what comes next decides.
theorem rel_first {x x' : Option α} {y y' : Option β} :
    Option.Rel r x y → Option.Rel r x' y' →
      Option.Rel r (match x with | some a => some a | none => x')
        (match y with | some b => some b | none => y')
  | .some hr, _ => .some hr
  | .none, h => h

theorem giveBack_rel {least : Nat} {taken rest : List Char}
    (h : ∀ m n, Reached.Alike (taken.reverse ++ rest) behind m n →
      Option.Rel r (next m) (next' n)) :
    Option.Rel r (giveBack least next taken taken.length (rest ++ behind))
      (giveBack least next' taken taken.length rest) := by
  have hfirst := h _ _ (alike_of_append rfl)
  rw [List.length_reverse] at hfirst
  induction taken generalizing rest with
  | nil =>
    rw [giveBack, giveBack]
    split
    · exact .none
    · exact hfirst
  | cons d taken ih =>
    rw [List.reverse_cons, List.append_assoc, List.singleton_append] at h
    have hsecond := h _ _ (alike_of_append rfl)
    rw [List.length_reverse] at hsecond
    rw [giveBack, giveBack]
    split
    · exact .none
    · -- where one of them has to give back a character, so has the other one
      exact rel_first hfirst (ih h hsecond)

/-- **What stands behind a break makes no difference to a match in front of it.** -/
theorem attempt_rel {p : Pattern} {c : Char} (hp : p.avoids c = true) {s rest : List Char}
    (h : ∀ m n, Reached.Alike s (c :: rest) m n → Option.Rel r (next m) (next' n)) :
    Option.Rel r (p.attempt (s ++ c :: rest) next) (p.attempt s next') := by
  induction p generalizing s next next' with
  | empty => exact h _ _ (alike_of_append (t := []) rfl)
  | one k =>
    rw [avoids, Bool.not_eq_true'] at hp
    cases s with
    | nil =>
      rw [List.nil_append, attempt, attempt, if_neg (by rw [hp]; decide)]
      exact .none
    | cons d s =>
      rw [List.cons_append, attempt, attempt]
      split
      · exact h _ _ (alike_of_append (t := [d]) rfl)
      · exact .none
  | run k least =>
    rw [avoids, Bool.not_eq_true'] at hp
    simp only [attempt, longest_eq, takeWhile_break hp, stretch_break hp, List.append_nil]
    rw [stretch_fst, Nat.zero_add, ← List.length_reverse]
    refine giveBack_rel ?_
    rwa [List.reverse_reverse, takeWhile_append_stretch]
  | whole k least =>
    rw [avoids, Bool.not_eq_true'] at hp
    simp only [attempt, stretch_break hp]
    split
    · exact .none
    · have hfirst : Reached.Alike s (c :: rest) _ _ :=
        alike_of_append (takeWhile_append_stretch k.has s 0).symm
      rw [← Nat.zero_add (s.takeWhile k.has).length, ← stretch_fst k.has s 0] at hfirst
      exact h _ _ hfirst
  | exactly k count =>
    rw [avoids, Bool.not_eq_true'] at hp
    simp only [attempt, dropExactly_break hp]
    cases hdrop : dropExactly k.has count s with
    | none => exact .none
    | some left =>
      obtain ⟨t, hs, rfl, -⟩ := dropExactly_eq_some hdrop
      exact h _ _ (alike_of_append hs)
  | seq p q ihp ihq =>
    rw [avoids, Bool.and_eq_true] at hp
    refine ihp hp.1 fun m n hmn => ?_
    rw [hmn.rest]
    refine ihq hp.2 fun m' n' hmn' => h _ _ ⟨?_, ?_, hmn'.rest, ?_⟩
    · rw [hmn.width, hmn'.width]
    · rw [List.map_append, List.map_append, hmn.groups, hmn'.groups]
    · have hinside := hmn.inside
      have hinside' := hmn'.inside
      show n.width + n'.width + n'.rest.length = s.length
      omega
  | either p q ihp ihq =>
    rw [avoids, Bool.and_eq_true] at hp
    refine rel_first (ihp hp.1 fun m n hmn => h _ _ ⟨hmn.width, ?_, hmn.rest, hmn.inside⟩)
      (ihq hp.2 fun m n hmn => h _ _ ⟨hmn.width, ?_, hmn.rest, hmn.inside⟩)
    · rw [List.map_append, List.map_append, hmn.groups]
    · rw [List.map_append, List.map_append, hmn.groups]
  | group p ih =>
    refine ih hp fun m n hmn => h _ _ ⟨hmn.width, ?_, hmn.rest, hmn.inside⟩
    rw [List.map_cons, List.map_cons, Option.map_some, Option.map_some, hmn.text_span, hmn.groups]

theorem matchAtStart_rel {p : Pattern} {c : Char} (hp : p.avoids c = true) (s rest : List Char) :
    Option.Rel (Reached.Alike s (c :: rest)) (p.matchAtStart (s ++ c :: rest))
      (p.matchAtStart s) := by
  rw [matchAtStart_eq, matchAtStart_eq]
  exact attempt_rel hp fun m n hmn => .some hmn

end Pattern

/-! ## Searching with more text in front -/

/-- An occurrence with so many more characters and bytes in front of it. -/
def Occurrence.moved (chars bytes : Nat) (o : Occurrence) : Occurrence :=
  { o with offset := o.offset + chars, bytes := o.bytes + bytes }

/-- A place with so many more characters and bytes in front of it. -/
def SearchPlace.moved (chars bytes : Nat) (place : SearchPlace) : SearchPlace :=
  { place with offset := place.offset + chars, bytes := place.bytes + bytes }

namespace SearchPlace

variable (chars bytes : Nat) (place : SearchPlace)

theorem advance_moved (c : Char) (flag : Bool) :
    (place.moved chars bytes).advance c flag = (place.advance c flag).moved chars bytes := by
  simp only [advance, moved, mk.injEq, and_true]
  omega

theorem occurrence_moved (m : Reached) :
    (place.moved chars bytes).occurrence m = (place.occurrence m).moved chars bytes := rfl

end SearchPlace

namespace Pattern

theorem occurrencesFrom_moved (p : Pattern) (chars bytes places : Nat) (s : List Char) (skip : Nat)
    (place : SearchPlace) (found : List Occurrence) :
    p.occurrencesFrom places s skip (place.moved chars bytes)
        (found.map (Occurrence.moved chars bytes)) =
      (p.occurrencesFrom places s skip place found).map (Occurrence.moved chars bytes) := by
  -- an empty match at the end of the last one is not reported
  have hempty (place : SearchPlace) (found : List Occurrence) (m : Reached) :
      (if (place.moved chars bytes).afterMatch then found.map (Occurrence.moved chars bytes)
        else (place.moved chars bytes).occurrence m :: found.map (Occurrence.moved chars bytes)) =
      (if place.afterMatch then found else place.occurrence m :: found).map
        (Occurrence.moved chars bytes) := by
    rw [apply_ite (List.map (Occurrence.moved chars bytes))]
    rfl
  induction s generalizing places skip place found with
  | nil =>
    cases places with
    | zero => exact List.map_reverse.symm
    | succ places =>
      simp only [occurrencesFrom, hempty]
      split <;> exact List.map_reverse.symm
  | cons c s ih =>
    cases places with
    | zero => exact List.map_reverse.symm
    | succ places =>
      cases skip with
      | succ skip =>
        simp only [occurrencesFrom, SearchPlace.advance_moved]
        exact ih ..
      | zero =>
        simp only [occurrencesFrom, SearchPlace.advance_moved, hempty]
        split
        · exact ih ..
        · split
          · exact ih ..
          · rw [SearchPlace.occurrence_moved, ← List.map_cons]
            exact ih ..

/-! ## Searching in front of a break and behind it -/

-- In front of a break at the very start there is at most an empty match.
theorem occurrencesFrom_break_start {p : Pattern} {c : Char} (hp : p.avoids c = true)
    (rest : List Char) (place : SearchPlace) :
    p.occurrencesFrom (rest.length + 1 + 1) (c :: rest) 0 place [] =
      p.occurrencesFrom 1 [] 0 place []
        ++ p.occurrencesFrom (rest.length + 1) rest 0 (place.advance c false) [] := by
  have hrel := matchAtStart_rel hp [] rest
  rw [List.nil_append] at hrel
  rw [occurrencesFrom, occurrencesFrom]
  generalize p.matchAtStart (c :: rest) = x, p.matchAtStart [] = y at hrel
  cases hrel with
  | none => rfl
  | some hmn =>
    rename_i m n
    have hwidth : m.width = 0 := hmn.width.trans (Nat.eq_zero_of_add_eq_zero_right hmn.inside)
    simp only [hwidth, hmn.occurrence]
    exact p.occurrencesFrom_append_found ..

/-- **The occurrences in front of a break are those of the text in front**, and the search starts
afresh behind it. -/
theorem occurrencesFrom_break {p : Pattern} {c : Char} (hp : p.avoids c = true)
    (s rest : List Char) {skip : Nat} (hskip : skip ≤ s.length) (place : SearchPlace) :
    p.occurrencesFrom ((s ++ c :: rest).length + 1) (s ++ c :: rest) skip place [] =
      p.occurrencesFrom (s.length + 1) s skip place []
        ++ p.occurrencesFrom (rest.length + 1) rest 0
          ((place.past s false).advance c false) [] := by
  induction s generalizing skip place with
  | nil =>
    obtain rfl : skip = 0 := Nat.le_zero.1 hskip
    exact occurrencesFrom_break_start hp rest place
  | cons d s ih =>
    have hpast (flag : Bool) : place.past (d :: s) false = (place.advance d flag).past s false :=
      place.past_cons d s flag
    rw [List.cons_append, List.length_cons, List.length_cons]
    cases skip with
    | succ skip =>
      rw [occurrencesFrom, occurrencesFrom, ih (Nat.le_of_succ_le_succ hskip), hpast true]
    | zero =>
      have hrel := matchAtStart_rel hp (d :: s) rest
      rw [List.cons_append] at hrel
      rw [occurrencesFrom, occurrencesFrom]
      generalize p.matchAtStart (d :: (s ++ c :: rest)) = x, p.matchAtStart (d :: s) = y at hrel
      cases hrel with
      | none =>
        rw [hpast false]
        exact ih (Nat.zero_le _) _
      | some hmn =>
        rename_i m n
        have hinside := hmn.inside
        simp only [hmn.width, hmn.occurrence]
        split
        · rw [occurrencesFrom_append_found, ih (Nat.zero_le _), ← List.append_assoc,
            ← occurrencesFrom_append_found, hpast false]
        · rename_i width hwidth
          have hskip : width ≤ s.length := by
            rw [hwidth, List.length_cons] at hinside
            omega
          rw [occurrencesFrom_append_found, ih hskip, ← List.append_assoc,
            ← occurrencesFrom_append_found, hpast true]

/-- **A text is searched piece by piece between its breaks.** -/
theorem occurrences_break {p : Pattern} {c : Char} (hp : p.avoids c = true) (s rest : List Char) :
    p.occurrences (s ++ c :: rest) =
      p.occurrences s ++
        (p.occurrences rest).map (.moved (s.length + 1) (String.utf8Len (s ++ [c]))) := by
  have hplace : (SearchPlace.start.past s false).advance c false =
      SearchPlace.start.moved (s.length + 1) (String.utf8Len (s ++ [c])) := by
    simp only [SearchPlace.advance, SearchPlace.past, SearchPlace.moved, SearchPlace.start,
      SearchPlace.mk.injEq, and_true, String.utf8Len_append, String.utf8Len_cons,
      String.utf8Len_nil]
    omega
  have hmoved := p.occurrencesFrom_moved (s.length + 1) (String.utf8Len (s ++ [c]))
    (rest.length + 1) rest 0 .start []
  rw [occurrences_eq, occurrences_eq, occurrences_eq,
    occurrencesFrom_break hp s rest (Nat.zero_le _), hplace, ← hmoved, List.map_nil]

end Pattern

end DesignTokens
