import DesignTokens.Pattern.Basic

/-!
# Settled patterns

Where a run is followed by a character that it does not take, giving back never helps: what follows
would have to start with a character of the run. A settled pattern takes such runs as a whole. It
matches the same texts in the same way, without trying what cannot succeed.
-/

namespace DesignTokens

/-- The character of a class, if the class is written with one character alone. -/
def CharClass.single? : CharClass → Option Char
  | ⟨false, [.between lo hi]⟩ => if lo = hi then some lo else none
  | _ => none

theorem CharClass.eq_of_has {k : CharClass} {c d : Char} (hk : k.single? = some c)
    (hd : k.has d = true) : d = c := by
  unfold single? at hk
  split at hk
  · split at hk
    · rename_i h
      subst h
      cases hk
      have hn := CharClass.has_only c d
      rw [CharClass.only, hd] at hn
      exact (Char.toNat_inj.1 (beq_iff_eq.1 hn.symm)).symm
    · cases hk
  · cases hk

namespace Pattern

/-- The character that all matches of a pattern start with, if it is written as such. -/
def start? : Pattern → Option Char
  | one k => k.single?
  | seq p _ | group p => p.start?
  | _ => none

/-- The pattern with runs taken as a whole where giving back could not help. What follows the
pattern starts with `next`, if that is known. -/
def settle : Pattern → Option Char → Pattern
  | run k least, some c => if k.has c then run k least else whole k least
  | seq p q, next => seq (p.settle q.start?) (q.settle next)
  | either p q, next => either (p.settle next) (q.settle next)
  | group p, next => group (p.settle next)
  | p, _ => p

/-! ## Settling changes no match -/

/-- A continuation that has no result unless the text starts with a certain character. -/
def NeedsStart {α : Type} (next : Reached → Option α) (c : Char) : Prop :=
  ∀ r : Reached, r.rest.head? ≠ some c → next r = none

theorem attempt_eq_none_of_start {α : Type} (p : Pattern) {c : Char} (hp : p.start? = some c)
    {s : List Char} (hs : s.head? ≠ some c) (next : Reached → Option α) :
    p.attempt s next = none := by
  induction p generalizing next with
  | empty | run | whole | exactly | either => simp [start?] at hp
  | one k =>
    cases s with
    | nil => rfl
    | cons d rest =>
      have hd : k.has d = false :=
        Bool.eq_false_iff.2 fun h => hs (by rw [CharClass.eq_of_has hp h]; rfl)
      simp [attempt, hd]
  | seq p q ihp _ => exact ihp hp _
  | group p ih => exact ih hp _

theorem mem_takeWhile {has : Char → Bool} {s : List Char} {c : Char}
    (h : c ∈ s.takeWhile has) : has c = true := by
  induction s with
  | nil => cases h
  | cons d rest ih =>
    rw [List.takeWhile_cons] at h
    split at h
    · rcases List.mem_cons.1 h with rfl | h
      · assumption
      · exact ih h
    · cases h

theorem groupCount_settle (p : Pattern) (first : Option Char) :
    (p.settle first).groupCount = p.groupCount := by
  induction p generalizing first with
  | empty | one | whole | exactly => rfl
  | run k least =>
    cases first with
    | none => rfl
    | some c => simp only [settle]; split <;> rfl
  | seq p q ihp ihq | either p q ihp ihq => simp only [settle, groupCount, ihp, ihq]
  | group p ih => simp only [settle, groupCount, ih]

theorem longest_eq (has : Char → Bool) (s taken : List Char) (width : Nat) :
    longest has s taken width =
      ((s.takeWhile has).reverse ++ taken, (stretch has s width).1, (stretch has s width).2) := by
  induction s generalizing taken width with
  | nil => rfl
  | cons c rest ih =>
    by_cases hc : has c = true
    · simp [longest, stretch, hc, ih]
    · simp [longest, stretch, hc]

theorem giveBack_eq {α : Type} (least : Nat) (next : Reached → Option α) (c : Char)
    (hn : NeedsStart next c) (taken : List Char) (ht : c ∉ taken) (width : Nat)
    (rest : List Char) :
    giveBack least next taken width rest =
      if width < least then none else next ⟨width, [], rest⟩ := by
  induction taken generalizing width rest with
  | nil => rfl
  | cons d taken ih =>
    simp only [List.mem_cons, not_or] at ht
    have hd : next ⟨width - 1, [], d :: rest⟩ = none :=
      hn _ (by simpa using fun h => ht.1 h.symm)
    simp only [giveBack, ih ht.2, hd, ite_self]
    split
    · rfl
    · split <;> simp_all

/-- **A settled pattern and what follows match where the pattern and what follows match, with the
same result.** -/
theorem attempt_settle {α : Type} (p : Pattern) (first : Option Char) (s : List Char)
    (next : Reached → Option α) (hn : ∀ c, first = some c → NeedsStart next c) :
    (p.settle first).attempt s next = p.attempt s next := by
  induction p generalizing first s next with
  | empty | one | whole | exactly => rfl
  | run k least =>
    cases first with
    | none => rfl
    | some c =>
      simp only [settle]
      split
      · rfl
      · rename_i hc
        have ht : c ∉ (s.takeWhile k.has).reverse ++ [] := by
          intro hmem
          simp only [List.append_nil, List.mem_reverse] at hmem
          exact hc (mem_takeWhile hmem)
        simp only [attempt, longest_eq, giveBack_eq least next c (hn c rfl) _ ht]
  | seq p q ihp ihq =>
    have hq (a : Reached) := ihq first a.rest
      (fun b => next ⟨a.width + b.width, a.groups ++ b.groups, b.rest⟩)
      fun c hc r hr => hn c hc _ hr
    simp only [settle, attempt]
    rw [ihp]
    · simp only [hq]
    · intro c hc r hr
      exact (hq r).trans (attempt_eq_none_of_start q hc hr _)
  | either p q ihp ihq =>
    have hp := ihp first s
      (fun a => next { a with groups := a.groups ++ List.replicate q.groupCount none })
      fun c hc r hr => hn c hc _ hr
    have hq := ihq first s
      (fun b => next { b with groups := List.replicate p.groupCount none ++ b.groups })
      fun c hc r hr => hn c hc _ hr
    simp only [settle, attempt, groupCount_settle, hp, hq]
  | group p ih =>
    simp only [settle, attempt]
    exact ih first s _ fun c hc r hr => hn c hc _ hr

end Pattern

end DesignTokens
