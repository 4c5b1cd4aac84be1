/-!
# Binary64 numbers

A number of the IEEE 754 double format is a sign and a code, the 63 bits that are left. Codes of
finite numbers are in the order of their magnitudes, and every finite magnitude is a whole number
of units of `2 ^ (-1074)`, the smallest positive number of the format. All arithmetic on numbers
is done on these units, in `Nat`.
-/

namespace DesignTokens

/-- A double: its sign, and the exponent and fraction bits read as one number. -/
structure Binary64 where
  negative : Bool
  code : Nat
  code_lt : code < 0x8000000000000000
deriving DecidableEq, Repr

namespace Binary64

/-- The code of infinity, the first above all finite codes. Codes above it are not numbers. -/
def infinityCode : Nat := 0x7ff0000000000000

/-- The number with a given code; a code above that of infinity stands for infinity. -/
def ofCode (negative : Bool) (code : Nat) : Binary64 where
  negative := negative
  code := min infinityCode code
  code_lt := by unfold infinityCode; omega

/-- The number whose 64 bits are the last ones of `n`. -/
def ofBits (n : Nat) : Binary64 where
  negative := n % 0x10000000000000000 ≥ 0x8000000000000000
  code := n % 0x8000000000000000
  code_lt := Nat.mod_lt _ (by decide)

def toBits (x : Binary64) : Nat :=
  x.code + if x.negative then 0x8000000000000000 else 0

/-- Neither infinite nor a non-number. -/
def isFinite (x : Binary64) : Bool :=
  x.code < infinityCode

/-- The code stands for no number at all. -/
def isNaN (x : Binary64) : Bool :=
  infinityCode < x.code

/-- The same magnitude with the other sign. -/
def neg (x : Binary64) : Binary64 :=
  { x with negative := !x.negative }

instance : Neg Binary64 := ⟨neg⟩

/-- Positive zero. -/
def zero : Binary64 := ofCode false 0

instance : Inhabited Binary64 := ⟨zero⟩

/-! ## Magnitudes -/

/-- The whole number that stands before the power of two. -/
def significand (x : Binary64) : Nat :=
  if x.code < 0x10000000000000 then x.code
  else 0x10000000000000 + x.code % 0x10000000000000

/-- The power of two that a unit is raised by. -/
def power (x : Binary64) : Nat :=
  x.code / 0x10000000000000 - 1

/-- The magnitude of a finite number in units of `2 ^ (-1074)`. -/
def units (x : Binary64) : Nat :=
  x.significand <<< x.power

/-- How many units make one. -/
def unitsPerOne : Nat := 1 <<< 1074

/-! ## Laws -/

theorem toBits_ofBits (n : Nat) : (ofBits n).toBits = n % 0x10000000000000000 := by
  simp only [toBits, ofBits, decide_eq_true_eq]
  split <;> omega

theorem ofBits_toBits (x : Binary64) : ofBits x.toBits = x := by
  obtain ⟨s, c, h⟩ := x
  cases s <;> simp only [ofBits, toBits, mk.injEq] <;> constructor <;> simp <;> omega

@[simp] theorem neg_neg (x : Binary64) : x.neg.neg = x := by
  cases x; simp [neg]

theorem isFinite_neg (x : Binary64) : x.neg.isFinite = x.isFinite := rfl

theorem units_neg (x : Binary64) : x.neg.units = x.units := rfl

end Binary64

end DesignTokens
