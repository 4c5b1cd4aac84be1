import DesignTokens.Extract.LineIndex
import DesignTokens.Rule.Basic

/-!
# Hits

A hit is one declaration that a rule has found in a source. Each occurrence of a rule's pattern is
accepted as a hit, turned away by the rule's guard, or dropped because its name is too long or the
rule has reached its limit. An occurrence without a name does not count.
-/

namespace DesignTokens

/-- A declaration in a source. -/
structure Hit where
  category : Category
  /-- The id of the rule that found it. -/
  rule : String
  shape : Shape
  name : String
  /-- The texts of the groups behind the name; a group that took no part has an empty one. -/
  captures : List String
  /-- The line that it starts on. -/
  line : Nat
deriving DecidableEq, Repr

/-- The greatest number of hits of a rule. -/
def hitLimit : Nat := 10000

/-- The greatest number of bytes of a name. -/
def nameLimit : Nat := 255

/-- What becomes of an occurrence. -/
inductive Finding where
  | accepted (hit : Hit)
  /-- The guard of the rule turns the name away. -/
  | guarded
  | tooLong (line length : Nat)
  /-- The rule already has as many hits as it may; nothing behind this occurrence counts. -/
  | overLimit (line : Nat)
deriving DecidableEq, Repr

namespace Finding

/-- The hit of an accepted occurrence. -/
def hit? : Finding → Option Hit
  | accepted hit => some hit
  | _ => none

/-- Whether the guard turned the occurrence away. -/
def isGuarded : Finding → Bool
  | guarded => true
  | _ => false

/-- Whether the occurrence was dropped by a limit. -/
def isDropped : Finding → Bool
  | tooLong _ _ | overLimit _ => true
  | _ => false

/-- What there is to say about an occurrence of a rule. -/
def notice? (rule : String) : Finding → Option Notice
  | accepted hit =>
    some (.debug "Extraction hit"
      [("rule", rule), ("name", hit.name), ("line", toString hit.line)])
  | guarded => none
  | tooLong line length =>
    some (.warning .nameTooLong "Token name exceeds maximum length" line
      [("rule", rule), ("length", toString length), ("max_length", toString nameLimit)])
  | overLimit line =>
    some (.warning .hitLimitReached "Rule hit limit reached; remaining matches ignored" line
      [("rule", rule), ("limit", toString hitLimit)])

end Finding

namespace Rule

variable {P : Type}

def hitAt (r : Rule P) (line : Nat) (name : String) (behind : List (Option (List Char))) :
    Hit where
  category := r.category
  rule := r.id
  shape := r.shape
  name := name
  captures := behind.map fun g => String.ofList (g.getD [])
  line := line

/-- What becomes of an occurrence as long as the rule has not reached its limit. -/
def classify (r : Rule P) (lines : LineIndex) (o : Occurrence) : Option Finding :=
  match o.groups with
  | some chars :: behind =>
    let name := String.ofList chars
    let line := lines.lineOf o.bytes
    if !r.guard.accepts name then some .guarded
    else if nameLimit < name.utf8ByteSize then some (.tooLong line name.utf8ByteSize)
    else some (.accepted (r.hitAt line name behind))
  | _ => none

/-- Lets through `room` hits and what lies between them, in front of what is already through, which
stands in reverse; the next hit becomes the end of the list. -/
def limited : Nat → List Finding → List Finding → List Finding
  | _, [], done => done.reverse
  | 0, .accepted hit :: _, done => (.overLimit hit.line :: done).reverse
  | room + 1, .accepted hit :: rest, done => limited room rest (.accepted hit :: done)
  | room, f :: rest, done => limited room rest (f :: done)

/-- What becomes of the occurrences of a rule in a source, in source order. -/
def findings [Matcher P] (r : Rule P) (lines : LineIndex) (source : List Char) : List Finding :=
  limited hitLimit ((Matcher.occurrences r.pattern source).filterMap (r.classify lines)) []

end Rule

end DesignTokens
