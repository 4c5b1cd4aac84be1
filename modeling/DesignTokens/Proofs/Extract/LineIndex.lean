import DesignTokens.Extract.LineIndex
import DesignTokens.Pattern.Matcher
import Mathlib.Data.String.Basic

/-!
# The line table

The search in an increasing table finds the place that separates the smaller members from the
greater ones. In the table of a source this place tells how many lines start up to a byte, and for
a byte at which a character starts that is one more than the line feeds in front of it.
-/

namespace DesignTokens

/-! ## Halving -/

/-- What is known of a stretch of a table that is being halved: the members in front of it are
smaller than the number, and those behind it are greater. -/
structure Separates (table : Array Nat) (x base size : Nat) : Prop where
  pos : 0 < size
  inside : base + size ≤ table.size
  before : ∀ (i : Nat) (h : i < table.size), i < base → table[i] < x
  behind : ∀ (i : Nat) (h : i < table.size), base + size ≤ i → x < table[i]

section Search

variable {table : Array Nat} (hsorted : table.toList.Pairwise (· < ·))
include hsorted

theorem getElem_lt_getElem {i j : Nat} (hij : i < j) (hj : j < table.size) :
    table[i] < table[j] := by
  have h := List.pairwise_iff_getElem.1 hsorted i j (by simpa using hij.trans hj) (by simpa) hij
  simpa using h

/-- One step keeps the half that the number belongs to. -/
theorem Separates.step {x base size : Nat} (h : Separates table x base size) (hsize : 1 < size) :
    Separates table x
      (if x < table.getD (base + size / 2) 0 then base else base + size / 2) (size - size / 2) := by
  have hinside := h.inside
  have hmid : base + size / 2 < table.size := by omega
  rw [Array.getD_eq_getD_getElem?, Array.getElem?_eq_getElem hmid, Option.getD_some]
  by_cases hx : x < table[base + size / 2]
  · rw [if_pos hx]
    refine ⟨by omega, by omega, h.before, fun i hi hbehind => ?_⟩
    rcases Nat.lt_or_eq_of_le (show base + size / 2 ≤ i by omega) with hlt | rfl
    · exact hx.trans (getElem_lt_getElem hsorted hlt hi)
    · exact hx
  · rw [if_neg hx]
    refine ⟨by omega, by omega, fun i hi hbefore => ?_,
      fun i hi hbehind => h.behind i hi (by omega)⟩
    exact (getElem_lt_getElem hsorted hbefore hmid).trans_le (Nat.not_lt.1 hx)

theorem Separates.halve {x base size : Nat} (h : Separates table x base size) :
    Separates table x (DesignTokens.halve table x base size) 1 := by
  fun_induction DesignTokens.halve table x base size with
  | case1 base size hsize ih => exact ih (h.step hsorted hsize)
  | case2 base size hsize =>
    obtain rfl : size = 1 := by have := h.pos; omega
    exact h

end Search

/-- A stretch of one member cuts the table into three. -/
theorem Separates.cut {table : Array Nat} {x base : Nat} (h : Separates table x base 1) :
    ∃ before behind : List Nat, table.toList = before ++ table.getD base 0 :: behind ∧
      before.length = base ∧ (∀ y ∈ before, y < x) ∧ ∀ y ∈ behind, x < y := by
  have hbase : base < table.toList.length := h.inside
  have hmember : table.getD base 0 = table.toList[base] := by
    rw [Array.getD_eq_getD_getElem?, Array.getElem?_eq_getElem h.inside, Option.getD_some,
      Array.getElem_toList]
  refine ⟨table.toList.take base, table.toList.drop (base + 1), ?_, ?_, ?_, ?_⟩
  · rw [hmember, ← List.drop_eq_getElem_cons, List.take_append_drop]
  · exact List.length_take_of_le (Nat.le_of_lt hbase)
  · intro y hy
    obtain ⟨i, hi, rfl⟩ := List.getElem_of_mem hy
    rw [List.length_take] at hi
    rw [List.getElem_take, Array.getElem_toList]
    exact h.before i _ (by omega)
  · intro y hy
    obtain ⟨i, hi, rfl⟩ := List.getElem_of_mem hy
    rw [List.getElem_drop, Array.getElem_toList]
    exact h.behind _ _ (Nat.le_add_right _ i)

/-! ## The place of a number -/

/-- The right answer of a search: a member that is found stands behind those that are in front of
it, and a number that is missing belongs between the smaller and the greater members. -/
inductive TablePlace.IsRight (members : List Nat) (x : Nat) : TablePlace → Prop where
  | found {before behind : List Nat} (h : members = before ++ x :: behind) :
    IsRight members x (.found before.length)
  | missing {before behind : List Nat} (h : members = before ++ behind)
    (hbefore : ∀ y ∈ before, y < x) (hbehind : ∀ y ∈ behind, x < y) :
    IsRight members x (.missing before.length)

/-- **A search in an increasing table gives the right answer.** -/
theorem isRight_binarySearch {table : Array Nat} (hsorted : table.toList.Pairwise (· < ·))
    (x : Nat) : (binarySearch table x).IsRight table.toList x := by
  unfold binarySearch
  split
  · rename_i hempty
    rw [Array.isEmpty_iff.1 hempty]
    exact @TablePlace.IsRight.missing _ _ [] [] rfl (List.forall_mem_nil _) (List.forall_mem_nil _)
  · rename_i hsome
    have hstart : Separates table x 0 table.size :=
      ⟨Array.size_pos_iff.2 (mt Array.isEmpty_iff.2 hsome), Nat.le_of_eq (Nat.zero_add _),
        fun _ _ h => absurd h (Nat.not_lt_zero _), fun i hi h => absurd hi (by omega)⟩
    obtain ⟨before, behind, hcut, hlength, hbefore, hbehind⟩ := (hstart.halve hsorted).cut
    simp only
    generalize table.getD (halve table x 0 table.size) 0 = member at hcut
    rw [← hlength]
    split
    · rename_i heq
      exact .found (heq ▸ hcut)
    · rename_i hne
      split
      · rename_i hlt
        have hmember : before.length + 1 = (before ++ [member]).length := by
          rw [List.length_append, List.length_singleton]
        rw [hmember]
        refine .missing (by rw [hcut, List.append_assoc]; rfl) ?_ hbehind
        exact List.forall_mem_append.2 ⟨hbefore, List.forall_mem_singleton.2 hlt⟩
      · rename_i hnot
        refine .missing hcut hbefore (List.forall_mem_cons.2 ⟨?_, hbehind⟩)
        exact Nat.lt_of_le_of_ne (Nat.not_lt.1 hnot) (Ne.symm hne)

namespace LineIndex

/-! ## The line of a byte -/

/-- **The line of a byte is the number of lines that start up to it.** -/
theorem lineOf_eq_countP (lines : LineIndex) (byte : Nat) :
    lines.lineOf byte = lines.starts.toList.countP (· ≤ byte) := by
  have hright := isRight_binarySearch lines.increasing byte
  have hincreasing := lines.increasing
  unfold lineOf
  generalize binarySearch lines.starts byte = place at hright
  generalize lines.starts.toList = starts at hright hincreasing
  -- those in front count, and those behind do not
  have hcount {before behind : List Nat} (hbefore : ∀ y ∈ before, y ≤ byte)
      (hbehind : ∀ y ∈ behind, byte < y) :
      before.length = (before ++ behind).countP (· ≤ byte) := by
    rw [List.countP_append, List.countP_eq_length.2 (by simpa using hbefore),
      List.countP_eq_zero.2 (by simpa using hbehind), Nat.add_zero]
  cases hright with
  | @found before behind h =>
    subst h
    obtain ⟨-, hrest, hbefore⟩ := List.pairwise_append.1 hincreasing
    have hmember : before.length + 1 = (before ++ [byte]).length := by
      rw [List.length_append, List.length_singleton]
    have hsplit : before ++ byte :: behind = (before ++ [byte]) ++ behind := by simp
    simp only
    rw [hmember, hsplit]
    refine hcount (List.forall_mem_append.2 ⟨fun y hy => ?_, ?_⟩) (List.pairwise_cons.1 hrest).1
    · exact Nat.le_of_lt (hbefore y hy byte List.mem_cons_self)
    · exact List.forall_mem_singleton.2 (Nat.le_refl byte)
  | missing h hbefore hbehind =>
    subst h
    exact hcount (fun y hy => Nat.le_of_lt (hbefore y hy)) hbehind

/-! ## The starts of lines -/

/-- The bytes behind the line feeds of a text that has so many bytes in front of it. -/
def behindFeeds : Nat → List Char → List Nat
  | _, [] => []
  | bytes, c :: rest =>
    if c = '\n' then (bytes + 1) :: behindFeeds (bytes + c.utf8Size) rest
    else behindFeeds (bytes + c.utf8Size) rest

theorem toList_startsOnto (s : List Char) (bytes : Nat) (starts : Array Nat) :
    (startsOnto s bytes starts).toList = starts.toList ++ behindFeeds bytes s := by
  induction s generalizing bytes starts with
  | nil => exact (List.append_nil _).symm
  | cons c rest ih =>
    rw [startsOnto, behindFeeds, ih]
    split
    · rw [Array.toList_push, List.append_assoc]
      rfl
    · rfl

theorem behindFeeds_append (bytes : Nat) (t rest : List Char) :
    behindFeeds bytes (t ++ rest) =
      behindFeeds bytes t ++ behindFeeds (bytes + String.utf8Len t) rest := by
  induction t generalizing bytes with
  | nil => rfl
  | cons c t ih =>
    have hbytes : bytes + (String.utf8Len t + c.utf8Size) =
        bytes + c.utf8Size + String.utf8Len t := by omega
    rw [List.cons_append, behindFeeds, behindFeeds, ih, String.utf8Len_cons, hbytes]
    split <;> rfl

theorem length_behindFeeds (bytes : Nat) (t : List Char) :
    (behindFeeds bytes t).length = t.count '\n' := by
  induction t generalizing bytes with
  | nil => rfl
  | cons c t ih =>
    rw [behindFeeds, List.count_cons]
    split
    · rename_i hc
      rw [List.length_cons, ih, if_pos (beq_iff_eq.2 hc)]
    · rename_i hc
      rw [ih, if_neg (by simpa using hc), Nat.add_zero]

/-- A line starts behind a byte of the text and not behind its last one. -/
theorem bounds_of_mem_behindFeeds {bytes x : Nat} {t : List Char} (h : x ∈ behindFeeds bytes t) :
    bytes < x ∧ x ≤ bytes + String.utf8Len t := by
  induction t generalizing bytes with
  | nil => cases h
  | cons c t ih =>
    have hsize : 1 ≤ c.utf8Size := c.utf8Size_pos
    rw [String.utf8Len_cons]
    rw [behindFeeds] at h
    split at h
    · rcases List.mem_cons.1 h with rfl | h
      · omega
      · have := ih h
        omega
    · have := ih h
      omega

/-- **The line of a character is one plus the line feeds in front of it.** -/
theorem lineOf_of_append (t rest : List Char) :
    (of (t ++ rest)).lineOf (String.ofList t).utf8ByteSize = 1 + t.count '\n' := by
  have hfront : (behindFeeds 0 t).countP (· ≤ String.utf8Len t) = t.count '\n' := by
    rw [← length_behindFeeds 0 t, List.countP_eq_length]
    intro x hx
    have := bounds_of_mem_behindFeeds hx
    exact decide_eq_true (by omega)
  have hrest : (behindFeeds (0 + String.utf8Len t) rest).countP (· ≤ String.utf8Len t) = 0 := by
    rw [List.countP_eq_zero]
    intro x hx hle
    have := bounds_of_mem_behindFeeds hx
    have := of_decide_eq_true hle
    omega
  rw [lineOf_eq_countP, of, toList_startsOnto, behindFeeds_append, String.utf8ByteSize_ofList,
    List.countP_append, List.countP_append, hfront, hrest, Nat.add_zero]
  exact congrArg (· + _) (List.countP_singleton.trans (if_pos (decide_eq_true (Nat.zero_le _))))

theorem lineOf_of_zero (s : List Char) : (of s).lineOf 0 = 1 :=
  lineOf_of_append [] s

/-- More text behind a line does not change it. -/
theorem lineOf_of_append_left (s rest : List Char) (k : Nat) :
    (of (s ++ rest)).lineOf (String.ofList (s.take k)).utf8ByteSize =
      (of s).lineOf (String.ofList (s.take k)).utf8ByteSize := by
  have hwhole := lineOf_of_append (s.take k) (s.drop k ++ rest)
  have hfront := lineOf_of_append (s.take k) (s.drop k)
  rw [← List.append_assoc, List.take_append_drop] at hwhole
  rw [List.take_append_drop] at hfront
  rw [hwhole, hfront]

/-- More text in front of a line moves it down by its line feeds. -/
theorem lineOf_of_append_right (s rest : List Char) (k : Nat) :
    (of (s ++ rest)).lineOf (String.utf8Len s + (String.ofList (rest.take k)).utf8ByteSize) =
      (of rest).lineOf (String.ofList (rest.take k)).utf8ByteSize + s.count '\n' := by
  have hwhole := lineOf_of_append (s ++ rest.take k) (rest.drop k)
  have hbehind := lineOf_of_append (rest.take k) (rest.drop k)
  rw [List.append_assoc, List.take_append_drop, String.utf8ByteSize_ofList,
    String.utf8Len_append, ← String.utf8ByteSize_ofList (rest.take k), List.count_append] at hwhole
  rw [List.take_append_drop] at hbehind
  rw [hwhole, hbehind]
  omega

/-- **The table gives a match the line that it is on.** -/
theorem lineOf_of_occurrence {P : Type} [Matcher P] [LawfulMatcher P] {p : P} {s : List Char}
    {o : Occurrence} (h : o ∈ Matcher.occurrences p s) :
    (of s).lineOf o.bytes = 1 + (s.take o.offset).count '\n' := by
  have hline := lineOf_of_append (s.take o.offset) (s.drop o.offset)
  rw [List.take_append_drop] at hline
  rw [LawfulMatcher.bytes h, Occurrence.byteOffset, hline]

-- The places at the start of a line, inside of one, and in an empty one.
example : [0, 2, 3, 5, 6].map (of "a\nbb\n\nccc".toList).lineOf = [1, 2, 2, 3, 4] := by
  decide +kernel

end LineIndex

end DesignTokens
