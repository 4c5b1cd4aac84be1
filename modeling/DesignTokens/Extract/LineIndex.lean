/-!
# Lines of a source

The line of a match is looked up by the number of bytes in front of it, in a table of the bytes at
which the lines of the source start. The table is searched by halving. If a line starts at the very
byte, the search finds its place in the table; otherwise it finds how many lines start before.
-/

namespace DesignTokens

/-! ## Search in a table -/

/-- Where a number stands in an increasing table. -/
inductive TablePlace where
  /-- The table has the number at this index. -/
  | found (index : Nat)
  /-- The table does not have the number, which could be put in at this index. -/
  | missing (index : Nat)
deriving DecidableEq, Repr

/-- Halves the stretch of `size` members of a table from the index `base` on until one member is
left: the last one that is not greater than a number, if there is such a member. -/
def halve (table : Array Nat) (x base size : Nat) : Nat :=
  if 1 < size then
    halve table x (if x < table.getD (base + size / 2) 0 then base else base + size / 2)
      (size - size / 2)
  else base
termination_by size

/-- Searches for a number in an increasing table. -/
def binarySearch (table : Array Nat) (x : Nat) : TablePlace :=
  if table.isEmpty then .missing 0
  else
    let base := halve table x 0 table.size
    let member := table.getD base 0
    if member = x then .found base
    else .missing (if member < x then base + 1 else base)

/-! ## Starts of lines -/

/-- The bytes at which the lines of a source start. -/
structure LineIndex where
  starts : Array Nat
  increasing : starts.toList.Pairwise (· < ·)

namespace LineIndex

/-- The table `starts` and behind it the lines that start inside of a text, which has so many bytes
in front of it. -/
def startsOnto : List Char → Nat → Array Nat → Array Nat
  | [], _, starts => starts
  | c :: rest, bytes, starts =>
    startsOnto rest (bytes + c.utf8Size) (if c = '\n' then starts.push (bytes + 1) else starts)

theorem increasing_startsOnto {s : List Char} {bytes : Nat} {starts : Array Nat}
    (h : starts.toList.Pairwise (· < ·)) (hle : ∀ x ∈ starts.toList, x ≤ bytes) :
    (startsOnto s bytes starts).toList.Pairwise (· < ·) := by
  induction s generalizing bytes starts with
  | nil => exact h
  | cons c rest ih =>
    have hsize : 1 ≤ c.utf8Size := c.utf8Size_pos
    rw [startsOnto]
    split
    · apply ih
      · rw [Array.toList_push, List.pairwise_append]
        refine ⟨h, List.pairwise_singleton .., fun x hx y hy => ?_⟩
        rw [List.mem_singleton.1 hy]
        exact Nat.lt_succ_of_le (hle x hx)
      · intro x hx
        rw [Array.toList_push] at hx
        rcases List.mem_append.1 hx with hx | hx
        · exact Nat.le_add_right_of_le (hle x hx)
        · rw [List.mem_singleton.1 hx]
          exact Nat.add_le_add_left hsize bytes
    · exact ih h fun x hx => Nat.le_add_right_of_le (hle x hx)

/-- The lines of a source; the first one starts at its first byte. -/
def of (source : List Char) : LineIndex where
  starts := startsOnto source 0 #[0]
  increasing := increasing_startsOnto (List.pairwise_singleton ..) fun _ hx =>
    Nat.le_of_eq (List.mem_singleton.1 hx)

/-- The number of the line that a byte belongs to; lines are counted from one. -/
def lineOf (lines : LineIndex) (byte : Nat) : Nat :=
  match binarySearch lines.starts byte with
  | .found index => index + 1
  | .missing index => index

end LineIndex

end DesignTokens
