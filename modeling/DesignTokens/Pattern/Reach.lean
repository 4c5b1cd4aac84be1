import DesignTokens.Pattern.Settled

/-!
# How far matches can start

A pattern that ends with a certain character has no match behind the last place of that character
in a text. Without that limit, a long run that never finds its closing bracket would be walked
through again from every place where it can begin.

The main statement is that a pattern has no match in a text without its closing character. It
rests on a law of the matcher: what follows a pattern is only ever tried on an end of the text.
-/

namespace DesignTokens

namespace Pattern

/-- The character that all matches of a pattern end with, if it is written as such. -/
def finish? : Pattern → Option Char
  | one k => k.single?
  | seq _ q => q.finish?
  | group p => p.finish?
  | _ => none

/-- The number of characters of a text up to the last one of a kind, behind `passed` others. So far
that number is `reach`. -/
def lastPlace (c : Char) : List Char → Nat → Nat → Nat
  | [], _, reach => reach
  | d :: rest, passed, reach =>
    lastPlace c rest (passed + 1) (if d = c then passed + 1 else reach)

/-- The number of places of a text, from its start on, where a match can start. The end of the text
is a place too. -/
def reach (p : Pattern) (s : List Char) : Nat :=
  match p.finish? with
  | some c => lastPlace c s 0 0
  | none => s.length + 1

/-! ## What follows is tried on an end of the text -/

theorem stretch_suffix (has : Char → Bool) (s : List Char) (width : Nat) :
    (stretch has s width).2 <:+ s := by
  induction s generalizing width with
  | nil => exact List.suffix_refl _
  | cons c rest ih =>
    simp only [stretch]
    split
    · exact (ih _).trans (List.suffix_cons c rest)
    · exact List.suffix_refl _

theorem takeWhile_append_stretch (has : Char → Bool) (s : List Char) (width : Nat) :
    s.takeWhile has ++ (stretch has s width).2 = s := by
  induction s generalizing width with
  | nil => rfl
  | cons c rest ih => by_cases h : has c = true <;> simp [stretch, h, ih]

theorem dropExactly_suffix {has : Char → Bool} {n : Nat} {s rest : List Char}
    (h : dropExactly has n s = some rest) : rest <:+ s := by
  induction n generalizing s with
  | zero =>
    cases h
    exact List.suffix_refl _
  | succ n ih =>
    cases s with
    | nil => cases h
    | cons c s =>
      simp only [dropExactly] at h
      split at h
      · exact (ih h).trans (List.suffix_cons c s)
      · cases h

theorem giveBack_eq_none {α : Type} (least : Nat) {next : Reached → Option α} {taken : List Char}
    {width : Nat} {rest : List Char}
    (h : ∀ r : Reached, r.rest <:+ taken.reverse ++ rest → next r = none) :
    giveBack least next taken width rest = none := by
  induction taken generalizing width rest with
  | nil =>
    simp only [giveBack]
    split
    · rfl
    · exact h _ (List.suffix_refl _)
  | cons c taken ih =>
    simp only [List.reverse_cons, List.append_assoc, List.singleton_append] at h
    have hrest : rest <:+ taken.reverse ++ c :: rest :=
      (List.suffix_cons c rest).trans (List.suffix_append _ _)
    simp only [giveBack, h ⟨width, [], rest⟩ hrest, ih h, ite_self]

/-- A pattern fails if what is to follow fails on every end of the text. -/
theorem attempt_eq_none_of_next {α : Type} (p : Pattern) {s : List Char}
    {next : Reached → Option α} (h : ∀ r : Reached, r.rest <:+ s → next r = none) :
    p.attempt s next = none := by
  induction p generalizing s next with
  | empty => exact h _ (List.suffix_refl _)
  | one k =>
    cases s with
    | nil => rfl
    | cons c rest =>
      simp only [attempt]
      split
      · exact h _ (List.suffix_cons c rest)
      · rfl
  | run k least =>
    simp only [attempt, longest_eq, List.append_nil]
    apply giveBack_eq_none
    rwa [List.reverse_reverse, takeWhile_append_stretch]
  | whole k least =>
    simp only [attempt]
    split
    · rfl
    · exact h _ (stretch_suffix _ _ _)
  | exactly k count =>
    simp only [attempt]
    split
    · rfl
    · rename_i rest hrest
      exact h _ (dropExactly_suffix hrest)
  | seq p q ihp ihq => exact ihp fun a ha => ihq fun b hb => h _ (hb.trans ha)
  | either p q ihp ihq =>
    have hp := @ihp s
      (fun a => next { a with groups := a.groups ++ List.replicate q.groupCount none })
      fun a ha => h _ ha
    simp only [attempt, hp]
    exact ihq fun b hb => h _ hb
  | group p ih => exact ih fun a ha => h _ ha

/-- **A text without the character that a pattern ends with has no match of it.** -/
theorem attempt_eq_none_of_finish {α : Type} (p : Pattern) {c : Char} (hp : p.finish? = some c)
    {s : List Char} (hs : c ∉ s) (next : Reached → Option α) : p.attempt s next = none := by
  induction p generalizing s next with
  | empty | run | whole | exactly | either => simp [finish?] at hp
  | one k =>
    cases s with
    | nil => rfl
    | cons d rest =>
      have hd : k.has d = false := Bool.eq_false_iff.2 fun h =>
        hs (CharClass.eq_of_has hp h ▸ List.mem_cons_self ..)
      simp [attempt, hd]
  | seq p q _ ihq =>
    exact attempt_eq_none_of_next p fun a ha => ihq hp (fun h => hs (ha.subset h)) _
  | group p ih => exact ih hp hs _

/-! ## Behind the last place -/

theorem lastPlace_eq (c : Char) (s : List Char) (passed reach : Nat) :
    lastPlace c s passed reach = if c ∈ s then passed + lastPlace c s 0 0 else reach := by
  induction s generalizing passed reach with
  | nil => rfl
  | cons d rest ih =>
    rw [lastPlace, ih, lastPlace, ih 1]
    by_cases hr : c ∈ rest
    · simp [hr, Nat.add_assoc]
    · by_cases hd : d = c
      · subst hd
        simp [hr]
      · simp [hr, hd, Ne.symm hd]

theorem not_mem_drop_lastPlace (c : Char) (s : List Char) {k : Nat}
    (hk : lastPlace c s 0 0 ≤ k) : c ∉ s.drop k := by
  induction s generalizing k with
  | nil => simp
  | cons d rest ih =>
    rw [lastPlace, lastPlace_eq] at hk
    by_cases hr : c ∈ rest
    · simp only [hr, if_true] at hk
      obtain ⟨k, rfl⟩ : ∃ j, k = j + 1 := ⟨k - 1, by omega⟩
      exact ih (by omega)
    · intro hmem
      have hnone (j : Nat) : c ∉ rest.drop j := fun h => hr (List.mem_of_mem_drop h)
      cases k with
      | zero =>
        rcases List.mem_cons.1 hmem with rfl | h
        · simp [hr] at hk
        · exact hr h
      | succ k => exact hnone k hmem

/-- Behind its reach, a pattern has no match. -/
theorem attempt_drop_eq_none {α : Type} (p : Pattern) (s : List Char) {k : Nat}
    (hk : p.reach s ≤ k) (hs : k ≤ s.length) (next : Reached → Option α) :
    p.attempt (s.drop k) next = none := by
  unfold reach at hk
  split at hk
  · rename_i c hc
    exact attempt_eq_none_of_finish p hc (not_mem_drop_lastPlace c s hk) next
  · omega

end Pattern

end DesignTokens
