import DesignTokens.Pattern.Reader
import DesignTokens.Proofs.Pattern.First
import Mathlib.Data.String.Basic

/-!
# Occurrences in a text

An occurrence is a text of the pattern at its offset. Where a text is put together from blocks that
each start with a match or hold none at all, whatever stands behind them, the occurrences can be
read off the blocks one after the other.
-/

namespace DesignTokens

namespace SearchPlace

/-- The place behind a stretch of text. -/
def past (place : SearchPlace) (t : List Char) (afterMatch : Bool) : SearchPlace :=
  ⟨place.offset + t.length, place.bytes + String.utf8Len t, afterMatch⟩

theorem past_cons (place : SearchPlace) (c : Char) (t : List Char) (flag : Bool) {flag' : Bool} :
    place.past (c :: t) flag' = (place.advance c flag).past t flag' := by
  simp only [past, advance, List.length_cons, String.utf8Len_cons, mk.injEq, and_true]
  omega

end SearchPlace

namespace Pattern

/-! ## Every occurrence is a text of the pattern -/

theorem width_le_of_matchAtStart {p : Pattern} {s : List Char} {m : Reached}
    (h : p.matchAtStart s = some m) : m.width ≤ s.length := by
  rw [matchAtStart_eq] at h
  rcases takes_of_attempt p h with ⟨t, n, rfl, hwidth, -, hnext⟩
  cases hnext
  rw [hwidth, List.length_append]
  exact Nat.le_add_right ..

/-- An occurrence is a match in a text, with at least so many characters in front of it. -/
def FoundBehind (p : Pattern) (skip : Nat) (s : List Char) (place : SearchPlace)
    (o : Occurrence) : Prop :=
  ∃ t rest m flag, s = t ++ rest ∧ skip ≤ t.length ∧ p.matchAtStart rest = some m ∧
    o = (place.past t flag).occurrence m

namespace FoundBehind

variable {p : Pattern} {skip : Nat} {s : List Char} {place : SearchPlace} {o : Occurrence}

theorem here {m : Reached} (hm : p.matchAtStart s = some m) (place : SearchPlace) :
    p.FoundBehind 0 s place (place.occurrence m) :=
  ⟨[], s, m, place.afterMatch, rfl, Nat.le_refl 0, hm, rfl⟩

/-- A match behind the first character has one more character in front of it. -/
theorem later {c : Char} {flag : Bool} (h : p.FoundBehind skip s (place.advance c flag) o) :
    p.FoundBehind (skip + 1) (c :: s) place o := by
  obtain ⟨t, rest, m, flag', rfl, hlength, hm, rfl⟩ := h
  exact ⟨c :: t, rest, m, flag', rfl, Nat.succ_le_succ hlength, hm,
    by rw [place.past_cons c t flag]⟩

theorem anywhere (h : p.FoundBehind skip s place o) : p.FoundBehind 0 s place o := by
  obtain ⟨t, rest, m, flag, hs, -, hm⟩ := h
  exact ⟨t, rest, m, flag, hs, Nat.zero_le _, hm⟩

end FoundBehind

/-- What is found behind the characters to skip is a match somewhere behind them. -/
theorem mem_occurrencesFrom {p : Pattern} {places : Nat} {s : List Char} {skip : Nat}
    {place : SearchPlace} {found : List Occurrence} {o : Occurrence} (hskip : skip ≤ s.length)
    (h : o ∈ p.occurrencesFrom places s skip place found) :
    o ∈ found ∨ p.FoundBehind skip s place o := by
  induction s generalizing places skip place found with
  | nil =>
    cases places with
    | zero => exact .inl (List.mem_reverse.1 h)
    | succ places =>
      obtain rfl : skip = 0 := Nat.le_zero.1 hskip
      simp only [occurrencesFrom] at h
      split at h
      · rename_i m hm
        split at h
        · exact .inl (List.mem_reverse.1 h)
        · rcases List.mem_cons.1 (List.mem_reverse.1 h) with rfl | h
          · exact .inr (.here hm place)
          · exact .inl h
      · exact .inl (List.mem_reverse.1 h)
  | cons c rest ih =>
    have here {m : Reached} (hm : p.matchAtStart (c :: rest) = some m)
        (h : o ∈ place.occurrence m :: found) :
        o ∈ found ∨ p.FoundBehind 0 (c :: rest) place o := by
      rcases List.mem_cons.1 h with rfl | h
      · exact .inr (.here hm place)
      · exact .inl h
    cases places with
    | zero => exact .inl (List.mem_reverse.1 h)
    | succ places =>
      cases skip with
      | succ skip => exact (ih (Nat.le_of_succ_le_succ hskip) h).imp_right .later
      | zero =>
        simp only [occurrencesFrom] at h
        split at h
        · exact (ih (Nat.zero_le _) h).imp_right fun h => h.later.anywhere
        · rename_i m hm
          split at h
          · rcases ih (Nat.zero_le _) h with h | h
            · split at h
              · exact .inl h
              · exact here hm h
            · exact .inr h.later.anywhere
          · rename_i width hwidth
            have hlength := hwidth ▸ width_le_of_matchAtStart hm
            rcases ih (Nat.le_of_succ_le_succ hlength) h with h | h
            · exact here hm h
            · exact .inr h.later.anywhere

theorem exists_of_mem_occurrences {p : Pattern} {s : List Char} {o : Occurrence}
    (h : o ∈ p.occurrences s) : ∃ t rest m flag, s = t ++ rest ∧
      p.matchAtStart rest = some m ∧ o = (SearchPlace.start.past t flag).occurrence m := by
  rw [occurrences_eq] at h
  obtain ⟨t, rest, m, flag, hs, -, hm⟩ :=
    (mem_occurrencesFrom (Nat.zero_le _) h).resolve_left List.not_mem_nil
  exact ⟨t, rest, m, flag, hs, hm⟩

theorem offset_past_start (t : List Char) (flag : Bool) (m : Reached) :
    ((SearchPlace.start.past t flag).occurrence m).offset = t.length :=
  Nat.zero_add _

/-- **An occurrence is a text of the pattern, found at its offset.** -/
theorem takes_of_mem_occurrences {p : Pattern} {s : List Char} {o : Occurrence}
    (h : o ∈ p.occurrences s) :
    ∃ t, t <+: s.drop o.offset ∧ t.length = o.width ∧ p.Takes t o.groups := by
  obtain ⟨before, rest, m, flag, rfl, hm, rfl⟩ := exists_of_mem_occurrences h
  rw [matchAtStart_eq] at hm
  rcases takes_of_attempt p hm with ⟨t, n, hs, hn, ht, hnext⟩
  cases hnext
  refine ⟨t, ⟨m.rest, ?_⟩, hn.symm, ht⟩
  rw [offset_past_start, List.drop_left, hs]

theorem end_le_of_mem_occurrences {p : Pattern} {s : List Char} {o : Occurrence}
    (h : o ∈ p.occurrences s) : o.offset + o.width ≤ s.length := by
  obtain ⟨before, rest, m, flag, rfl, hm, rfl⟩ := exists_of_mem_occurrences h
  rw [offset_past_start, List.length_append]
  exact Nat.add_le_add_left (width_le_of_matchAtStart hm) _

/-- **Its bytes are those in front of its first character.** -/
theorem bytes_of_mem_occurrences {p : Pattern} {s : List Char} {o : Occurrence}
    (h : o ∈ p.occurrences s) : o.bytes = o.byteOffset s := by
  obtain ⟨before, rest, m, flag, rfl, -, rfl⟩ := exists_of_mem_occurrences h
  rw [Occurrence.byteOffset, offset_past_start, List.take_left, String.utf8ByteSize_ofList]
  exact Nat.zero_add _

/-! ## Passing over text -/

theorem occurrencesFrom_append_found (p : Pattern) (places : Nat) (s : List Char) (skip : Nat)
    (place : SearchPlace) (found : List Occurrence) :
    p.occurrencesFrom places s skip place found =
      found.reverse ++ p.occurrencesFrom places s skip place [] := by
  induction s generalizing places skip place found with
  | nil =>
    cases places with
    | zero => simp [occurrencesFrom]
    | succ places =>
      simp only [occurrencesFrom]
      split
      · split <;> simp
      · simp
  | cons c rest ih =>
    cases places with
    | zero => simp [occurrencesFrom]
    | succ places =>
      cases skip with
      | succ skip => exact ih places skip _ found
      | zero =>
        simp only [occurrencesFrom]
        split
        · exact ih places 0 _ found
        · rename_i m _
          split
          · split
            · exact ih places 0 _ found
            · rw [ih places 0 _ (place.occurrence m :: found), ih places 0 _ [place.occurrence m]]
              simp
          · rename_i width _
            rw [ih places width _ (place.occurrence m :: found),
              ih places width _ [place.occurrence m]]
            simp

/-! ## Occurrences stand from left to right -/

theorem pairwise_occurrencesFrom (p : Pattern) (places : Nat) (s : List Char) {skip : Nat}
    (hskip : skip ≤ s.length) (place : SearchPlace) :
    (p.occurrencesFrom places s skip place []).Pairwise fun a b =>
      a.offset < b.offset ∧ a.offset + a.width ≤ b.offset := by
  induction s generalizing places skip place with
  | nil =>
    cases places with
    | zero => exact .nil
    | succ places =>
      simp only [occurrencesFrom]
      split
      · split
        · exact .nil
        · exact List.pairwise_singleton ..
      · exact .nil
  | cons c rest ih =>
    -- what is found behind the characters of a match does not overlap with it
    have behind {places skip : Nat} {flag : Bool} (m : Reached) (hwidth : m.width ≤ skip + 1)
        (hskip : skip ≤ rest.length) :
        (p.occurrencesFrom places rest skip (place.advance c flag)
          [place.occurrence m]).Pairwise fun a b =>
            a.offset < b.offset ∧ a.offset + a.width ≤ b.offset := by
      rw [occurrencesFrom_append_found, List.reverse_singleton, List.singleton_append,
        List.pairwise_cons]
      refine ⟨fun o ho => ?_, ih places hskip _⟩
      rcases mem_occurrencesFrom hskip ho with ho | ⟨t, -, m', -, -, hlength, -, rfl⟩
      · cases ho
      · show place.offset < place.offset + 1 + t.length ∧
          place.offset + m.width ≤ place.offset + 1 + t.length
        omega
    cases places with
    | zero => exact .nil
    | succ places =>
      cases skip with
      | succ skip => exact ih places (Nat.le_of_succ_le_succ hskip) _
      | zero =>
        simp only [occurrencesFrom]
        split
        · exact ih places (Nat.zero_le _) _
        · rename_i m hm
          have hinside := width_le_of_matchAtStart hm
          rw [List.length_cons] at hinside
          split
          · rename_i hwidth
            split
            · exact ih places (Nat.zero_le _) _
            · exact behind m (by omega) (Nat.zero_le _)
          · rename_i width hwidth
            exact behind m (by omega) (by omega)

/-- **The occurrences of a pattern stand in source order and do not overlap**, and no two start at
one place. -/
theorem pairwise_occurrences (p : Pattern) (s : List Char) :
    (p.occurrences s).Pairwise fun a b =>
      a.offset < b.offset ∧ a.offset + a.width ≤ b.offset := by
  rw [occurrences_eq]
  exact p.pairwise_occurrencesFrom _ s (Nat.zero_le _) .start

/-- The search for a pattern keeps the laws of a search. -/
instance : LawfulMatcher Pattern where
  ordered := pairwise_occurrences
  inside := end_le_of_mem_occurrences
  bytes := bytes_of_mem_occurrences
  groups h := by
    obtain ⟨t, -, -, ht⟩ := takes_of_mem_occurrences h
    exact ht.length_groups

theorem eq_of_offset_eq {p : Pattern} {s : List Char} {o o' : Occurrence}
    (ho : o ∈ p.occurrences s) (ho' : o' ∈ p.occurrences s) (h : o.offset = o'.offset) :
    o = o' := by
  have hlt := List.pairwise_iff_getElem.1 (p.pairwise_occurrences s)
  obtain ⟨i, hi, rfl⟩ := List.getElem_of_mem ho
  obtain ⟨j, hj, rfl⟩ := List.getElem_of_mem ho'
  rcases Nat.lt_trichotomy i j with hij | rfl | hji
  · exact absurd h (Nat.ne_of_lt (hlt i j hi hj hij).1)
  · rfl
  · exact absurd h.symm (Nat.ne_of_lt (hlt j i hj hi hji).1)

/-! ## Clear text -/

/-- No match starts in a text while `rest` stands behind it. -/
def Clear (p : Pattern) (t rest : List Char) : Prop :=
  ∀ k < t.length, p.NoWay (t.drop k ++ rest)

-- A text without matches is passed over.
theorem occurrencesFrom_clear {p : Pattern} {t rest : List Char} (h : Clear p t rest)
    (places : Nat) (place : SearchPlace) :
    ∃ flag, p.occurrencesFrom (t.length + places) (t ++ rest) 0 place [] =
      p.occurrencesFrom places rest 0 (place.past t flag) [] := by
  induction t generalizing place with
  | nil => exact ⟨place.afterMatch, by rw [List.length_nil, Nat.zero_add]; rfl⟩
  | cons c t ih =>
    have hclear : Clear p t rest := fun k hk => h (k + 1) (Nat.succ_lt_succ hk)
    have hnone : p.matchAtStart (c :: (t ++ rest)) = none :=
      matchAtStart_of_noWay (h 0 (Nat.zero_lt_succ _))
    rcases ih hclear (place.advance c false) with ⟨flag, hflag⟩
    refine ⟨flag, ?_⟩
    rw [place.past_cons c t false, List.length_cons, Nat.add_right_comm, List.cons_append,
      occurrencesFrom, hnone]
    exact hflag

-- The characters of a match are passed over.
theorem occurrencesFrom_skip (p : Pattern) (t rest : List Char) (places : Nat)
    (place : SearchPlace) :
    ∃ flag, p.occurrencesFrom (t.length + places) (t ++ rest) t.length place [] =
      p.occurrencesFrom places rest 0 (place.past t flag) [] := by
  induction t generalizing place with
  | nil => exact ⟨place.afterMatch, by rw [List.length_nil, Nat.zero_add]; rfl⟩
  | cons c t ih =>
    rcases ih (place.advance c true) with ⟨flag, hflag⟩
    refine ⟨flag, ?_⟩
    rw [place.past_cons c t true, List.length_cons, Nat.add_right_comm, List.cons_append,
      occurrencesFrom]
    exact hflag

-- A match is reported, and the search goes on behind it.
theorem occurrencesFrom_match {p : Pattern} {t rest : List Char} {gs : List (Option (List Char))}
    (hm : p.TakesFirst t gs rest) (hne : t ≠ []) (places : Nat) (place : SearchPlace) :
    ∃ flag, p.occurrencesFrom (t.length + places) (t ++ rest) 0 place [] =
      ⟨place.offset, place.bytes, t.length, gs⟩ ::
        p.occurrencesFrom places rest 0 (place.past t flag) [] := by
  rcases hm with ⟨m, hm, hw, hg, -⟩
  cases t with
  | nil => exact absurd rfl hne
  | cons c t =>
    have hwidth : m.width = t.length + 1 := hw
    have hsome : p.matchAtStart (c :: (t ++ rest)) = some m := matchAtStart_of_firstWay hm
    rcases occurrencesFrom_skip p t rest places (place.advance c true) with ⟨flag, hflag⟩
    refine ⟨flag, ?_⟩
    rw [place.past_cons c t true, List.length_cons, Nat.add_right_comm, List.cons_append,
      occurrencesFrom, hsome]
    simp only [hwidth]
    rw [occurrencesFrom_append_found, hflag, SearchPlace.occurrence, hg, hwidth]
    rfl

/-! ## Blocks -/

/-- A piece of text: a match with its groups, if it starts with one, and what is passed over. -/
structure Block where
  found : Option (List Char × List (Option (List Char)))
  passed : List Char

namespace Block

/-- The characters of the match at the start of a block. -/
def taken (b : Block) : List Char :=
  (b.found.map (·.1)).getD []

def text (b : Block) : List Char := b.taken ++ b.passed

/-- What a block says about matches holds whatever stands behind it. -/
def Fits (p : Pattern) (b : Block) : Prop :=
  ∀ rest, Clear p b.passed rest ∧
    ∀ t gs, b.found = some (t, gs) → t ≠ [] ∧ p.TakesFirst t gs (b.passed ++ rest)

end Block

/-- The occurrences of blocks that stand one after the other. -/
def occurrencesOf (offset bytes : Nat) : List Block → List Occurrence
  | [] => []
  | b :: bs =>
    (b.found.toList.map fun (t, gs) => ⟨offset, bytes, t.length, gs⟩)
      ++ occurrencesOf (offset + b.text.length) (bytes + String.utf8Len b.text) bs

theorem occurrencesFrom_blocks {p : Pattern} (hp : p.NoWay []) {bs : List Block}
    (h : ∀ b ∈ bs, b.Fits p) (place : SearchPlace) :
    p.occurrencesFrom ((bs.flatMap Block.text).length + 1) (bs.flatMap Block.text) 0 place [] =
      occurrencesOf place.offset place.bytes bs := by
  induction bs generalizing place with
  | nil =>
    simp only [List.flatMap_nil, List.length_nil, occurrencesFrom, matchAtStart_of_noWay hp]
    rfl
  | cons b bs ih =>
    have hbs := ih fun b' hb' => h b' (List.mem_cons_of_mem b hb')
    have hb := h b List.mem_cons_self (bs.flatMap Block.text)
    -- the match at the start of the block, if there is one
    have htaken : ∃ flag, p.occurrencesFrom
        (b.taken.length + (b.passed.length + ((bs.flatMap Block.text).length + 1)))
        (b.taken ++ (b.passed ++ bs.flatMap Block.text)) 0 place [] =
          (b.found.toList.map fun (t, gs) => ⟨place.offset, place.bytes, t.length, gs⟩) ++
            p.occurrencesFrom (b.passed.length + ((bs.flatMap Block.text).length + 1))
              (b.passed ++ bs.flatMap Block.text) 0 (place.past b.taken flag) [] := by
      rw [Block.taken]
      cases hfound : b.found with
      | none =>
        refine ⟨place.afterMatch, ?_⟩
        rw [Option.map_none, Option.getD_none, List.length_nil, Nat.zero_add]
        rfl
      | some found =>
        rcases found with ⟨t, gs⟩
        rcases hb.2 t gs hfound with ⟨hne, htakes⟩
        exact occurrencesFrom_match htakes hne _ place
    rcases htaken with ⟨flag, hflag⟩
    rcases occurrencesFrom_clear hb.1 ((bs.flatMap Block.text).length + 1)
      (place.past b.taken flag) with ⟨flag', hflag'⟩
    rw [List.flatMap_cons, List.length_append, Nat.add_assoc, occurrencesOf, Block.text,
      List.length_append, List.append_assoc, Nat.add_assoc, hflag, hflag', hbs]
    simp only [SearchPlace.past, String.utf8Len_append, Nat.add_assoc]

/-- **The occurrences in a text of blocks are the matches of the blocks.** -/
theorem occurrences_blocks {p : Pattern} (hp : p.NoWay []) {bs : List Block}
    (h : ∀ b ∈ bs, b.Fits p) : p.occurrences (bs.flatMap Block.text) = occurrencesOf 0 0 bs := by
  rw [occurrences_eq]
  exact occurrencesFrom_blocks hp h .start

/-! ## The first occurrence -/

theorem firstGroups?_of_clear {p : Pattern} {t u rest : List Char}
    {gs : List (Option (List Char))} (hclear : Clear p t (u ++ rest))
    (hu : p.TakesFirst u gs rest) (hne : u ≠ []) :
    p.firstGroups? (t ++ (u ++ rest)) = some gs := by
  rcases occurrencesFrom_clear hclear (u.length + (rest.length + 1)) .start with ⟨flag, hflag⟩
  rcases occurrencesFrom_match hu hne (rest.length + 1) (SearchPlace.start.past t flag)
    with ⟨flag', hflag'⟩
  rw [firstGroups?, occurrences_eq, List.length_append, List.length_append, Nat.add_assoc,
    Nat.add_assoc, hflag, hflag']
  rfl

theorem occurrences_of_clear {p : Pattern} {t : List Char} (hp : p.NoWay [])
    (hclear : Clear p t []) : p.occurrences t = [] := by
  rcases occurrencesFrom_clear hclear 1 .start with ⟨flag, hflag⟩
  rw [List.append_nil] at hflag
  rw [occurrences_eq, hflag]
  simp only [occurrencesFrom, matchAtStart_of_noWay hp]
  rfl

theorem firstGroups?_eq_none {p : Pattern} {t : List Char} (hp : p.NoWay [])
    (hclear : Clear p t []) : p.firstGroups? t = none := by
  rw [firstGroups?, occurrences_of_clear hp hclear]
  rfl

-- A match and a text without any are one occurrence.
theorem occurrences_of_takesFirst {p : Pattern} {u rest : List Char}
    {gs : List (Option (List Char))} (hp : p.NoWay []) (hu : p.TakesFirst u gs rest) (hne : u ≠ [])
    (hclear : Clear p rest []) : p.occurrences (u ++ rest) = [⟨0, 0, u.length, gs⟩] := by
  rcases occurrencesFrom_match hu hne (rest.length + 1) .start with ⟨flag, hflag⟩
  rcases occurrencesFrom_clear hclear 1 (SearchPlace.start.past u flag) with ⟨flag', hflag'⟩
  rw [List.append_nil] at hflag'
  rw [occurrences_eq, List.length_append, Nat.add_assoc, hflag, hflag']
  simp only [occurrencesFrom, matchAtStart_of_noWay hp]
  rfl

/-! ## Text without matches -/

theorem clear_nil (p : Pattern) (rest : List Char) : Clear p [] rest :=
  fun _ hk => absurd hk (Nat.not_lt_zero _)

theorem clear_append {p : Pattern} {t u rest : List Char} (ht : Clear p t (u ++ rest))
    (hu : Clear p u rest) : Clear p (t ++ u) rest := by
  intro k hk
  by_cases hkt : k < t.length
  · rw [List.drop_append_of_le_length (by omega), List.append_assoc]
    exact ht k hkt
  · rw [List.length_append] at hk
    rw [List.drop_append, List.drop_eq_nil_of_le (by omega), List.nil_append]
    exact hu _ (by omega)

/-- Two texts differ before either of them ends. -/
def Apart (l t : List Char) : Prop := ¬ l <+: t ∧ ¬ t <+: l

instance (l t : List Char) : Decidable (Apart l t) :=
  inferInstanceAs (Decidable (_ ∧ _))

theorem not_prefix_of_apart {l t : List Char} (h : Apart l t) (rest : List Char) :
    ¬ l <+: t ++ rest := by
  intro hl
  rcases List.prefix_or_prefix_of_prefix hl (List.prefix_append t rest) with hlt | htl
  · exact h.1 hlt
  · exact h.2 htl

-- A fixed text is apart from another one at each of its places.
theorem clear_of_apart {l t : List Char} (h : ∀ k < t.length, Apart l (t.drop k)) (p : Pattern)
    (rest : List Char) : Clear (preceded l p) t rest :=
  fun k hk => noWay_preceded (not_prefix_of_apart (h k hk) rest) p

-- A text without the first character of another one.
theorem clear_of_not_mem {c : Char} {t : List Char} (h : c ∉ t) (l : List Char) (p : Pattern)
    (rest : List Char) : Clear (preceded (c :: l) p) t rest := by
  intro k hk
  apply noWay_preceded
  rw [List.drop_eq_getElem_cons hk, List.cons_append, List.cons_prefix_cons]
  rintro ⟨rfl, -⟩
  exact h (List.getElem_mem hk)

end Pattern

end DesignTokens
