import DesignTokens.Text.Word
import DesignTokens.Text.Digit
import DesignTokens.Text.Blank

/-!
# Text patterns

A pattern describes a stretch of text: characters of a class, greedy runs of a class, sequences,
ordered choices and capturing groups. Matching is leftmost-first: of the ways in which a pattern
can match at a place, the one tried first wins, a choice trying its left side first and a run the
longest stretch first.

The matcher takes what is to follow as a function, so a run gives back characters only as long as
what follows does not match. A run that is taken as a whole gives nothing back.
-/

namespace DesignTokens

/-! ## Character classes -/

/-- A member of a character class. -/
inductive CharRange where
  | between (lo hi : Char)
  | word
  | digit
  | blank
deriving DecidableEq, Repr

/-- Whether a character belongs to a member of a class. -/
def CharRange.has : CharRange → Char → Bool
  | .between lo hi, c => lo.toNat ≤ c.toNat && c.toNat ≤ hi.toNat
  | .word, c => Text.isWord c
  | .digit, c => Text.isDecimalDigit c
  | .blank, c => Text.isBlank c

/-- The characters of some members, or all but those. -/
structure CharClass where
  negated : Bool
  members : List CharRange
deriving DecidableEq, Repr

namespace CharClass

/-- Whether a character belongs to a class. -/
def has (k : CharClass) (c : Char) : Bool :=
  k.members.any (·.has c) != k.negated

def only (c : Char) : CharClass :=
  ⟨false, [.between c c]⟩

def of (r : CharRange) : CharClass :=
  ⟨false, [r]⟩

theorem has_only (c d : Char) : (only c).has d = (c.toNat == d.toNat) := by
  simp only [has, only, List.any_cons, List.any_nil, CharRange.has, Bool.or_false, Bool.bne_false]
  rw [Bool.eq_iff_iff]
  simp only [Bool.and_eq_true, decide_eq_true_eq, beq_iff_eq]
  omega

theorem has_of (r : CharRange) (c : Char) : (of r).has c = r.has c := by
  simp [has, of]

end CharClass

/-! ## Patterns and their matches -/

/-- A pattern over characters. -/
inductive Pattern where
  /-- Matches without consuming anything. -/
  | empty
  /-- One character of a class. -/
  | one (k : CharClass)
  /-- As many characters of a class as possible, and at least `least`. -/
  | run (k : CharClass) (least : Nat)
  /-- All characters of a class that are there, if they are at least `least`. -/
  | whole (k : CharClass) (least : Nat)
  /-- A fixed number of characters of a class. -/
  | exactly (k : CharClass) (count : Nat)
  /-- One pattern and then another. -/
  | seq (p q : Pattern)
  /-- The first pattern, or else the second. -/
  | either (p q : Pattern)
  /-- A pattern whose text is reported. -/
  | group (p : Pattern)
deriving DecidableEq, Repr

namespace Pattern

/-- The number of capturing groups. -/
def groupCount : Pattern → Nat
  | empty | one _ | run _ _ | whole _ _ | exactly _ _ => 0
  | seq p q | either p q => p.groupCount + q.groupCount
  | group p => p.groupCount + 1

def seqs : List Pattern → Pattern
  | [] => empty
  | [p] => p
  | p :: q :: rest => seq p (seqs (q :: rest))

/-- A text, character by character. -/
def literal (s : String) : Pattern :=
  seqs (s.toList.map fun c => one (.only c))

end Pattern

/-- A stretch of text: where it starts, and how many characters it has. -/
structure Span where
  start : List Char
  width : Nat

/-- The characters of a stretch. -/
def Span.text (s : Span) : List Char :=
  s.start.take s.width

/-- What a pattern has consumed: its width, its groups in the order of their opening, and the text
that is left. A group in a branch that was not taken has no stretch. -/
structure Reached where
  width : Nat
  groups : List (Option Span)
  rest : List Char

namespace Pattern

/-- The longest stretch of a class at the start of a text, reversed, its width and what is left. -/
def longest (has : Char → Bool) : List Char → List Char → Nat → List Char × Nat × List Char
  | [], taken, width => (taken, width, [])
  | c :: rest, taken, width =>
    if has c then longest has rest (c :: taken) (width + 1) else (taken, width, c :: rest)

/-- The number of characters of a class at the start of a text, on top of `width`, and what is
left. -/
def stretch (has : Char → Bool) : List Char → Nat → Nat × List Char
  | [], width => (width, [])
  | c :: rest, width => if has c then stretch has rest (width + 1) else (width, c :: rest)

/-- Tries what follows after a stretch, and gives its characters back from the end one at a time
until it succeeds or fewer than `least` are left. -/
def giveBack {α : Type} (least : Nat) (next : Reached → Option α) :
    List Char → Nat → List Char → Option α
  | [], width, rest => if width < least then none else next ⟨width, [], rest⟩
  | c :: taken, width, rest =>
    if width < least then none
    else match next ⟨width, [], rest⟩ with
      | some a => some a
      | none => giveBack least next taken (width - 1) (c :: rest)

/-- What is left after a fixed number of characters of a class. -/
def dropExactly (has : Char → Bool) : Nat → List Char → Option (List Char)
  | 0, s => some s
  | _ + 1, [] => none
  | n + 1, c :: rest => if has c then dropExactly has n rest else none

/-- Matches a pattern at the start of a text, and then what is to follow. -/
def attempt {α : Type} : Pattern → List Char → (Reached → Option α) → Option α
  | empty, s, next => next ⟨0, [], s⟩
  | one k, s, next =>
    match s with
    | [] => none
    | c :: rest => if k.has c then next ⟨1, [], rest⟩ else none
  | run k least, s, next =>
    let (taken, width, rest) := longest k.has s [] 0
    giveBack least next taken width rest
  | whole k least, s, next =>
    let (width, rest) := stretch k.has s 0
    if width < least then none else next ⟨width, [], rest⟩
  | exactly k count, s, next =>
    match dropExactly k.has count s with
    | none => none
    | some rest => next ⟨count, [], rest⟩
  | seq p q, s, next =>
    p.attempt s fun a =>
      q.attempt a.rest fun b => next ⟨a.width + b.width, a.groups ++ b.groups, b.rest⟩
  | either p q, s, next =>
    match p.attempt s fun a =>
        next { a with groups := a.groups ++ List.replicate q.groupCount none } with
    | some r => some r
    | none => q.attempt s fun b =>
        next { b with groups := List.replicate p.groupCount none ++ b.groups }
  | group p, s, next =>
    p.attempt s fun a => next { a with groups := some ⟨s, a.width⟩ :: a.groups }

end Pattern

end DesignTokens
