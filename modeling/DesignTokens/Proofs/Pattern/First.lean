import DesignTokens.Proofs.Pattern.Takes

/-!
# The match that comes first

Of the ways in which a pattern matches at the start of a text, what follows is tried on one first.
If it succeeds there, no other way is looked at. The first way is found by walking through the
pattern; where no way exists, nothing that follows is ever tried.
-/

namespace DesignTokens

/-! ## Where a stretch ends -/

/-- A stretch of a class ends in front of a text, which is empty or starts with another character. -/
def Stops (has : Char → Bool) (t : List Char) : Prop := ∀ c ∈ t.head?, has c = false

theorem stops_nil (has : Char → Bool) : Stops has [] := by
  intro c hc
  cases hc

theorem stops_cons {has : Char → Bool} {c : Char} (h : has c = false) (t : List Char) :
    Stops has (c :: t) := by
  intro d hd
  cases hd
  exact h

theorem stops_append {has : Char → Bool} {t : List Char} (hne : t ≠ [])
    (h : ∀ c ∈ t, has c = false) (u : List Char) : Stops has (t ++ u) := by
  cases t with
  | nil => exact absurd rfl hne
  | cons c t => exact stops_cons (h c List.mem_cons_self) (t ++ u)

/-! ## First ways -/

namespace Pattern

/-- What follows a pattern is tried on `m` before anything else. -/
def FirstWay (p : Pattern) (s : List Char) (m : Reached) : Prop :=
  ∀ (α : Type) (next : Reached → Option α), (next m).isSome = true → p.attempt s next = next m

/-- Nothing that follows a pattern is ever tried. -/
def NoWay (p : Pattern) (s : List Char) : Prop :=
  ∀ (α : Type) (next : Reached → Option α), p.attempt s next = none

theorem matchAtStart_of_firstWay {p : Pattern} {s : List Char} {m : Reached}
    (h : p.FirstWay s m) : p.matchAtStart s = some m := by
  rw [matchAtStart_eq]
  exact h _ some rfl

theorem matchAtStart_of_noWay {p : Pattern} {s : List Char} (h : p.NoWay s) :
    p.matchAtStart s = none := by
  rw [matchAtStart_eq]
  exact h _ some

/-! ## Single classes -/

theorem firstWay_one {k : CharClass} {c : Char} (hc : k.has c = true) (rest : List Char) :
    (one k).FirstWay (c :: rest) ⟨1, [], rest⟩ := by
  intro α next _
  simp [attempt, hc]

theorem noWay_one {k : CharClass} {s : List Char} (h : Stops k.has s) :
    (one k).NoWay s := by
  intro α next
  cases s with
  | nil => rfl
  | cons c rest => simp [attempt, h c rfl]

theorem takeWhile_append_stop {has : Char → Bool} {t rest : List Char}
    (ht : ∀ c ∈ t, has c = true) (hr : Stops has rest) :
    (t ++ rest).takeWhile has = t := by
  rw [List.takeWhile_append_of_pos ht]
  cases rest with
  | nil => simp
  | cons c rest => rw [List.takeWhile_cons, if_neg (by simp [hr c rfl]), List.append_nil]

theorem stretch_append_stop {has : Char → Bool} {t rest : List Char}
    (ht : ∀ c ∈ t, has c = true) (hr : Stops has rest) :
    stretch has (t ++ rest) 0 = (t.length, rest) := by
  have htake := takeWhile_append_stop ht hr
  have hsplit := takeWhile_append_stretch has (t ++ rest) 0
  rw [htake] at hsplit
  have hfst := stretch_fst has (t ++ rest) 0
  rw [htake, Nat.zero_add] at hfst
  exact Prod.ext hfst (List.append_cancel_left hsplit)

theorem firstWay_whole {k : CharClass} {least : Nat} {t rest : List Char}
    (ht : ∀ c ∈ t, k.has c = true) (hr : Stops k.has rest)
    (hl : least ≤ t.length) : (whole k least).FirstWay (t ++ rest) ⟨t.length, [], rest⟩ := by
  intro α next _
  simp only [attempt, stretch_append_stop ht hr]
  exact if_neg (Nat.not_lt.2 hl)

-- A run takes as much as it can, unless what follows makes it give something back.
theorem firstWay_run {k : CharClass} {least : Nat} {t rest : List Char}
    (ht : ∀ c ∈ t, k.has c = true) (hr : Stops k.has rest)
    (hl : least ≤ t.length) : (run k least).FirstWay (t ++ rest) ⟨t.length, [], rest⟩ := by
  intro α next hnext
  rcases Option.isSome_iff_exists.1 hnext with ⟨a, ha⟩
  simp only [attempt, longest_eq, stretch_append_stop ht hr, takeWhile_append_stop ht hr]
  cases hrev : t.reverse ++ [] with
  | nil => rw [giveBack, if_neg (Nat.not_lt.2 hl)]
  | cons c taken => rw [giveBack, if_neg (Nat.not_lt.2 hl), ha]

theorem dropExactly_append {has : Char → Bool} {t : List Char} (ht : ∀ c ∈ t, has c = true)
    (rest : List Char) : dropExactly has t.length (t ++ rest) = some rest := by
  induction t with
  | nil => rfl
  | cons c t ih =>
    rw [List.length_cons, List.cons_append, dropExactly, if_pos (ht c List.mem_cons_self)]
    exact ih fun d hd => ht d (List.mem_cons_of_mem c hd)

theorem firstWay_exactly {k : CharClass} {count : Nat} {t : List Char}
    (ht : ∀ c ∈ t, k.has c = true) (hl : t.length = count) (rest : List Char) :
    (exactly k count).FirstWay (t ++ rest) ⟨count, [], rest⟩ := by
  intro α next _
  subst hl
  simp only [attempt, dropExactly_append ht]

theorem dropExactly_eq_none {has : Char → Bool} {n : Nat} {t rest : List Char}
    (hl : t.length < n) (hr : Stops has rest) :
    dropExactly has n (t ++ rest) = none := by
  induction t generalizing n with
  | nil =>
    cases n with
    | zero => exact absurd hl (Nat.not_lt_zero _)
    | succ n =>
      cases rest with
      | nil => rfl
      | cons c rest => simp [dropExactly, hr c rfl]
  | cons c t ih =>
    cases n with
    | zero => exact absurd hl (Nat.not_lt_zero _)
    | succ n => rw [List.cons_append, dropExactly, ih (Nat.lt_of_succ_lt_succ hl), ite_self]

-- Too few characters of a class before one that does not belong to it.
theorem noWay_exactly {k : CharClass} {count : Nat} {t rest : List Char} (hl : t.length < count)
    (hr : Stops k.has rest) : (exactly k count).NoWay (t ++ rest) := by
  intro α next
  simp only [attempt, dropExactly_eq_none hl hr]

/-! ## Composed patterns -/

theorem firstWay_empty (s : List Char) : empty.FirstWay s ⟨0, [], s⟩ :=
  fun _ _ _ => rfl

theorem firstWay_seq {p q : Pattern} {s : List Char} {m n : Reached} (hp : p.FirstWay s m)
    (hq : q.FirstWay m.rest n) :
    (seq p q).FirstWay s ⟨m.width + n.width, m.groups ++ n.groups, n.rest⟩ := by
  intro α next hnext
  have hstep := hq α (fun b => next ⟨m.width + b.width, m.groups ++ b.groups, b.rest⟩) hnext
  rw [attempt, hp α _ (by rw [hstep]; exact hnext)]
  exact hstep

theorem noWay_seq {p : Pattern} {s : List Char} (hp : p.NoWay s) (q : Pattern) :
    (seq p q).NoWay s :=
  fun _ _ => hp _ _

theorem firstWay_former {p : Pattern} {s : List Char} {m : Reached} (hp : p.FirstWay s m)
    (q : Pattern) : (either p q).FirstWay s
      { m with groups := m.groups ++ List.replicate q.groupCount none } := by
  intro α next hnext
  rcases Option.isSome_iff_exists.1 hnext with ⟨a, ha⟩
  rw [attempt, hp α _ hnext, ha]

theorem firstWay_latter {p q : Pattern} {s : List Char} {m : Reached} (hp : p.NoWay s)
    (hq : q.FirstWay s m) : (either p q).FirstWay s
      { m with groups := List.replicate p.groupCount none ++ m.groups } := by
  intro α next hnext
  rw [attempt, hp]
  exact hq α _ hnext

theorem firstWay_group {p : Pattern} {s : List Char} {m : Reached} (hp : p.FirstWay s m) :
    (group p).FirstWay s { m with groups := some ⟨s, m.width⟩ :: m.groups } :=
  fun _ _ hnext => hp _ _ hnext

theorem noWay_group {p : Pattern} {s : List Char} (hp : p.NoWay s) : (group p).NoWay s :=
  fun _ _ => hp _ _

/-! ## A text before a pattern -/

/-- A text, character by character, and then a pattern. -/
def preceded (l : List Char) (p : Pattern) : Pattern :=
  l.foldr (fun c q => seq (one (.only c)) q) p

theorem has_only_self (c : Char) : (CharClass.only c).has c = true := by
  rw [CharClass.has_only]
  exact beq_self_eq_true _

theorem eq_of_has_only {c d : Char} (h : (CharClass.only c).has d = true) : d = c := by
  rw [CharClass.has_only] at h
  exact (Char.toNat_inj.1 (beq_iff_eq.1 h)).symm

theorem firstWay_preceded {p : Pattern} {s : List Char} {m : Reached} (l : List Char)
    (hp : p.FirstWay s m) :
    (preceded l p).FirstWay (l ++ s) { m with width := l.length + m.width } := by
  induction l with
  | nil =>
    rw [List.length_nil, Nat.zero_add]
    exact hp
  | cons c l ih =>
    have h := firstWay_seq (firstWay_one (has_only_self c) (l ++ s)) ih
    rw [List.length_cons, Nat.add_right_comm, Nat.add_comm _ 1]
    exact h

theorem noWay_preceded {l s : List Char} (h : ¬ l <+: s) (p : Pattern) :
    (preceded l p).NoWay s := by
  induction l generalizing s with
  | nil => exact absurd (List.nil_prefix ..) h
  | cons c l ih =>
    intro α next
    cases s with
    | nil => rfl
    | cons d s =>
      by_cases hd : (CharClass.only c).has d = true
      · have hls : ¬ l <+: s := fun hls => h (by rw [eq_of_has_only hd]; simpa using hls)
        change (if (CharClass.only c).has d = true then _ else _) = none
        rw [if_pos hd]
        exact ih hls α _
      · change (if (CharClass.only c).has d = true then _ else _) = none
        rw [if_neg hd]

theorem noWay_preceded_append {p : Pattern} {s : List Char} (l : List Char) (hp : p.NoWay s) :
    (preceded l p).NoWay (l ++ s) := by
  induction l with
  | nil => exact hp
  | cons c l ih =>
    intro α next
    change (if (CharClass.only c).has c = true then _ else _) = none
    rw [if_pos (has_only_self c)]
    exact ih α _

theorem takes_preceded {l t : List Char} {p : Pattern} {gs : List (Option (List Char))}
    (h : (preceded l p).Takes t gs) : ∃ u, t = l ++ u ∧ p.Takes u gs := by
  induction l generalizing t with
  | nil => exact ⟨t, rfl, h⟩
  | cons c l ih =>
    cases h with
    | seq hc hp =>
      cases hc with
      | one hc =>
        rcases ih hp with ⟨u, rfl, hu⟩
        exact ⟨u, by rw [eq_of_has_only hc]; rfl, hu⟩

/-! ## The text that is taken first -/

/-- A pattern takes a text first, with some groups, while `rest` stands behind it. -/
def TakesFirst (p : Pattern) (t : List Char) (gs : List (Option (List Char)))
    (rest : List Char) : Prop :=
  ∃ m, p.FirstWay (t ++ rest) m ∧ m.width = t.length ∧ m.groups.map (·.map Span.text) = gs ∧
    m.rest = rest

theorem takesFirst_empty (rest : List Char) : empty.TakesFirst [] [] rest :=
  ⟨_, firstWay_empty rest, rfl, rfl, rfl⟩

theorem takesFirst_one {k : CharClass} {c : Char} (hc : k.has c = true) (rest : List Char) :
    (one k).TakesFirst [c] [] rest :=
  ⟨_, firstWay_one hc rest, rfl, rfl, rfl⟩

theorem takesFirst_whole {k : CharClass} {least : Nat} {t rest : List Char}
    (ht : ∀ c ∈ t, k.has c = true) (hr : Stops k.has rest)
    (hl : least ≤ t.length) : (whole k least).TakesFirst t [] rest :=
  ⟨_, firstWay_whole ht hr hl, rfl, rfl, rfl⟩

theorem takesFirst_run {k : CharClass} {least : Nat} {t rest : List Char}
    (ht : ∀ c ∈ t, k.has c = true) (hr : Stops k.has rest)
    (hl : least ≤ t.length) : (run k least).TakesFirst t [] rest :=
  ⟨_, firstWay_run ht hr hl, rfl, rfl, rfl⟩

theorem takesFirst_exactly {k : CharClass} {count : Nat} {t : List Char}
    (ht : ∀ c ∈ t, k.has c = true) (hl : t.length = count) (rest : List Char) :
    (exactly k count).TakesFirst t [] rest :=
  ⟨_, firstWay_exactly ht hl rest, hl.symm, rfl, rfl⟩

theorem takesFirst_seq {p q : Pattern} {t u rest : List Char} {gs hs : List (Option (List Char))}
    (hp : p.TakesFirst t gs (u ++ rest)) (hq : q.TakesFirst u hs rest) :
    (seq p q).TakesFirst (t ++ u) (gs ++ hs) rest := by
  rcases hp with ⟨m, hp, hmw, hmg, hmr⟩
  rcases hq with ⟨n, hq, hnw, hng, hnr⟩
  rw [← hmr] at hq
  have h := firstWay_seq hp hq
  rw [← List.append_assoc] at h
  refine ⟨_, h, ?_, ?_, hnr⟩
  · rw [List.length_append, hmw, hnw]
  · rw [List.map_append, hmg, hng]

theorem takesFirst_former {p : Pattern} {t rest : List Char} {gs : List (Option (List Char))}
    (hp : p.TakesFirst t gs rest) (q : Pattern) :
    (either p q).TakesFirst t (gs ++ List.replicate q.groupCount none) rest := by
  rcases hp with ⟨m, hp, hw, hg, hr⟩
  refine ⟨_, firstWay_former hp q, hw, ?_, hr⟩
  rw [List.map_append, List.map_replicate, hg]
  rfl

theorem takesFirst_latter {p q : Pattern} {t rest : List Char} {gs : List (Option (List Char))}
    (hp : p.NoWay (t ++ rest)) (hq : q.TakesFirst t gs rest) :
    (either p q).TakesFirst t (List.replicate p.groupCount none ++ gs) rest := by
  rcases hq with ⟨m, hq, hw, hg, hr⟩
  refine ⟨_, firstWay_latter hp hq, hw, ?_, hr⟩
  rw [List.map_append, List.map_replicate, hg]
  rfl

theorem takesFirst_group {p : Pattern} {t rest : List Char} {gs : List (Option (List Char))}
    (hp : p.TakesFirst t gs rest) : (group p).TakesFirst t (some t :: gs) rest := by
  rcases hp with ⟨m, hp, hw, hg, hr⟩
  refine ⟨_, firstWay_group hp, hw, ?_, hr⟩
  rw [List.map_cons, hg, Option.map_some, Span.text, hw, List.take_left]

theorem takesFirst_preceded {p : Pattern} {t rest : List Char} {gs : List (Option (List Char))}
    (l : List Char) (hp : p.TakesFirst t gs rest) :
    (preceded l p).TakesFirst (l ++ t) gs rest := by
  rcases hp with ⟨m, hp, hw, hg, hr⟩
  have h := firstWay_preceded l hp
  rw [← List.append_assoc] at h
  exact ⟨_, h, by rw [List.length_append, ← hw], hg, hr⟩

-- Behind a fixed number of characters, only what follows them counts.
theorem noWay_exactly_seq {k : CharClass} {count : Nat} {t rest : List Char} {q : Pattern}
    (ht : ∀ c ∈ t, k.has c = true) (hl : t.length = count) (hq : q.NoWay rest) :
    (seq (group (exactly k count)) q).NoWay (t ++ rest) := by
  intro α next
  subst hl
  simp only [attempt, dropExactly_append ht]
  exact hq α _

-- Behind the whole stretch of a class, only what follows it counts.
theorem noWay_whole_seq {k : CharClass} {least : Nat} {t rest : List Char} {q : Pattern}
    (ht : ∀ c ∈ t, k.has c = true) (hr : Stops k.has rest) (hq : q.NoWay rest) :
    (seq (group (whole k least)) q).NoWay (t ++ rest) := by
  intro α next
  simp only [attempt, stretch_append_stop ht hr]
  split
  · rfl
  · exact hq α _

end Pattern

end DesignTokens
