import DesignTokens.Pattern.Search

/-!
# What a match takes

A pattern describes which texts it can take and what its groups are then. The matcher only ever
goes on behind a text that its pattern can take, so whatever is known of those texts and groups is
known of every occurrence. Which of several texts is taken first is no matter here.
-/

namespace DesignTokens

namespace Pattern

/-! ## Texts of a pattern -/

/-- A pattern can take a text, and its groups then have the given texts. -/
inductive Takes : Pattern → List Char → List (Option (List Char)) → Prop
  | empty : Takes empty [] []
  | one {k : CharClass} {c : Char} (hc : k.has c = true) : Takes (one k) [c] []
  | run {k : CharClass} {least : Nat} {t : List Char} (hk : ∀ c ∈ t, k.has c = true)
      (hl : least ≤ t.length) : Takes (run k least) t []
  | whole {k : CharClass} {least : Nat} {t : List Char} (hk : ∀ c ∈ t, k.has c = true)
      (hl : least ≤ t.length) : Takes (whole k least) t []
  | exactly {k : CharClass} {count : Nat} {t : List Char} (hk : ∀ c ∈ t, k.has c = true)
      (hl : t.length = count) : Takes (exactly k count) t []
  | seq {p q : Pattern} {t u : List Char} {gs hs : List (Option (List Char))}
      (hp : Takes p t gs) (hq : Takes q u hs) : Takes (seq p q) (t ++ u) (gs ++ hs)
  | former {p q : Pattern} {t : List Char} {gs : List (Option (List Char))}
      (hp : Takes p t gs) : Takes (either p q) t (gs ++ List.replicate q.groupCount none)
  | latter {p q : Pattern} {t : List Char} {gs : List (Option (List Char))}
      (hq : Takes q t gs) : Takes (either p q) t (List.replicate p.groupCount none ++ gs)
  | group {p : Pattern} {t : List Char} {gs : List (Option (List Char))}
      (hp : Takes p t gs) : Takes (group p) t (some t :: gs)

/-- A text has as many groups as its pattern, those that took no part included. -/
theorem Takes.length_groups {p : Pattern} {t : List Char} {gs : List (Option (List Char))}
    (h : p.Takes t gs) : gs.length = p.groupCount := by
  induction h with
  | empty | one | run | whole | exactly => rfl
  | seq _ _ ihp ihq => rw [List.length_append, ihp, ihq, groupCount]
  | former _ ih => rw [List.length_append, ih, List.length_replicate, groupCount]
  | latter _ ih => rw [List.length_append, ih, List.length_replicate, groupCount]
  | group _ ih => rw [List.length_cons, ih, groupCount]

/-! ## Stretches of a class -/

theorem stretch_fst (has : Char → Bool) (s : List Char) (width : Nat) :
    (stretch has s width).1 = width + (s.takeWhile has).length := by
  induction s generalizing width with
  | nil => rfl
  | cons c rest ih =>
    by_cases hc : has c = true
    · simp only [stretch, hc, if_true, ih, List.takeWhile_cons, List.length_cons]
      omega
    · simp [stretch, hc]

theorem dropExactly_eq_some {has : Char → Bool} {n : Nat} {s rest : List Char}
    (h : dropExactly has n s = some rest) :
    ∃ t, s = t ++ rest ∧ t.length = n ∧ ∀ c ∈ t, has c = true := by
  induction n generalizing s with
  | zero =>
    cases h
    exact ⟨[], rfl, rfl, by simp⟩
  | succ n ih =>
    cases s with
    | nil => cases h
    | cons c s =>
      simp only [dropExactly] at h
      split at h
      · rename_i hc
        rcases ih h with ⟨t, rfl, hlen, ht⟩
        refine ⟨c :: t, rfl, by rw [List.length_cons, hlen], ?_⟩
        intro d hd
        rcases List.mem_cons.1 hd with rfl | hd
        · exact hc
        · exact ht d hd
      · cases h

-- What is given back stands between the part of the stretch that is kept and the rest.
theorem giveBack_eq_some {α : Type} {least : Nat} {next : Reached → Option α}
    {taken : List Char} {width : Nat} {rest : List Char} {a : α}
    (hw : width = taken.length) (h : giveBack least next taken width rest = some a) :
    ∃ t u, taken.reverse = t ++ u ∧ least ≤ t.length ∧ next ⟨t.length, [], u ++ rest⟩ = some a := by
  induction taken generalizing width rest with
  | nil =>
    subst hw
    simp only [giveBack] at h
    split at h
    · cases h
    · exact ⟨[], [], rfl, by omega, h⟩
  | cons c taken ih =>
    subst hw
    simp only [giveBack] at h
    split at h
    · cases h
    · split at h
      · rename_i b hb
        cases h
        refine ⟨taken.reverse ++ [c], [], by simp, ?_, ?_⟩
        · simp only [List.length_append, List.length_reverse, List.length_cons] at *
          omega
        · simpa using hb
      · rcases ih (by simp) h with ⟨t, u, htu, hlen, hnext⟩
        refine ⟨t, u ++ [c], ?_, hlen, ?_⟩
        · rw [List.reverse_cons, htu, List.append_assoc]
        · rw [List.append_assoc]
          exact hnext

/-! ## Matches -/

/-- **The matcher goes on behind a text that its pattern can take.** -/
theorem takes_of_attempt {α : Type} (p : Pattern) {s : List Char} {next : Reached → Option α}
    {a : α} (h : p.attempt s next = some a) :
    ∃ t m, s = t ++ m.rest ∧ m.width = t.length ∧
      p.Takes t (m.groups.map (·.map Span.text)) ∧ next m = some a := by
  induction p generalizing s next with
  | empty => exact ⟨[], ⟨0, [], s⟩, rfl, rfl, .empty, h⟩
  | one k =>
    cases s with
    | nil => cases h
    | cons c rest =>
      simp only [attempt] at h
      split at h
      · rename_i hc
        exact ⟨[c], ⟨1, [], rest⟩, rfl, rfl, .one hc, h⟩
      · cases h
  | run k least =>
    simp only [attempt, longest_eq, List.append_nil] at h
    rcases giveBack_eq_some (by rw [stretch_fst, List.length_reverse, Nat.zero_add]) h
      with ⟨t, u, htu, hlen, hnext⟩
    rw [List.reverse_reverse] at htu
    refine ⟨t, _, ?_, rfl, .run ?_ hlen, hnext⟩
    · rw [← List.append_assoc, ← htu, takeWhile_append_stretch]
    · intro c hc
      exact mem_takeWhile (htu ▸ List.mem_append_left u hc)
  | whole k least =>
    simp only [attempt] at h
    split at h
    · cases h
    · rename_i hl
      rw [stretch_fst, Nat.zero_add] at hl h
      exact ⟨s.takeWhile k.has, _, (takeWhile_append_stretch k.has s 0).symm, rfl,
        .whole (fun c hc => mem_takeWhile hc) (by omega), h⟩
  | exactly k count =>
    simp only [attempt] at h
    split at h
    · cases h
    · rename_i rest hrest
      rcases dropExactly_eq_some hrest with ⟨t, hs, hlen, ht⟩
      exact ⟨t, ⟨count, [], rest⟩, hs, hlen.symm, .exactly ht hlen, h⟩
  | seq p q ihp ihq =>
    rcases ihp h with ⟨t, m, hs, hw, hp, h⟩
    rcases ihq h with ⟨u, n, hr, hv, hq, h⟩
    refine ⟨t ++ u, ⟨m.width + n.width, m.groups ++ n.groups, n.rest⟩, ?_, ?_, ?_, h⟩
    · rw [hs, hr, List.append_assoc]
    · rw [List.length_append, ← hw, ← hv]
    · rw [List.map_append]
      exact .seq hp hq
  | either p q ihp ihq =>
    simp only [attempt] at h
    split at h
    · rename_i b hb
      cases h
      rcases ihp hb with ⟨t, m, hs, hw, hp, h⟩
      refine ⟨t, { m with groups := m.groups ++ List.replicate q.groupCount none }, hs, hw, ?_, h⟩
      rw [List.map_append, List.map_replicate]
      exact .former hp
    · rcases ihq h with ⟨t, m, hs, hw, hq, h⟩
      refine ⟨t, { m with groups := List.replicate p.groupCount none ++ m.groups }, hs, hw, ?_, h⟩
      rw [List.map_append, List.map_replicate]
      exact .latter hq
  | group p ih =>
    rcases ih h with ⟨t, m, hs, hw, hp, h⟩
    refine ⟨t, { m with groups := some ⟨s, m.width⟩ :: m.groups }, hs, hw, ?_, h⟩
    have ht : Span.text ⟨s, m.width⟩ = t := by rw [Span.text, hw, hs, List.take_left]
    rw [List.map_cons, Option.map_some, ht]
    exact .group hp

end Pattern

end DesignTokens
