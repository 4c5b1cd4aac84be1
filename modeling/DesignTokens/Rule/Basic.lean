import DesignTokens.Pattern.Reader
import DesignTokens.Token.Category
import DesignTokens.Log.Notice

/-!
# Extraction rules

A rule says which text of a source declares a token: a written pattern whose first group is the
name, the names it accepts, and the kind of value behind the name. A library holds rules with
distinct ids whose patterns have been read. Any matcher can read them and search for them.
-/

namespace DesignTokens

/-- What the text behind a name stands for. -/
inductive Shape where
  | hex
  | gradient
  | numeric
  | textStyle
  | shadow
  | duration
  | curve
deriving DecidableEq, Repr

namespace Shape

def all : List Shape := [hex, gradient, numeric, textStyle, shadow, duration, curve]

def name : Shape → String
  | hex => "hex"
  | gradient => "gradient"
  | numeric => "numeric"
  | textStyle => "text_style"
  | shadow => "shadow"
  | duration => "duration"
  | curve => "curve"

def ofName? (s : String) : Option Shape :=
  all.find? fun x => x.name == s

end Shape

/-! ## Guards -/

/-- Which names a rule accepts. -/
inductive NameGuard where
  | any
  /-- Names that start with one of some texts. -/
  | startsWithOne (starts : List String)
  /-- Names that start with none of some texts. -/
  | startsWithNone (starts : List String)
deriving DecidableEq, Repr

def startsWithAny (starts : List String) (name : String) : Bool :=
  starts.any fun s => s.toList.isPrefixOf name.toList

namespace NameGuard

def accepts : NameGuard → String → Bool
  | any, _ => true
  | startsWithOne starts, name => startsWithAny starts name
  | startsWithNone starts, name => !startsWithAny starts name

def kind : NameGuard → String
  | any => "any"
  | startsWithOne _ => "prefix"
  | startsWithNone _ => "not_prefix"

/-- The texts that a guard looks for. -/
def starts : NameGuard → List String
  | any => []
  | startsWithOne starts | startsWithNone starts => starts

end NameGuard

/-! ## Rules and libraries -/

/-- A rule as it is written down. -/
structure RuleDefinition where
  id : String
  category : Category
  pattern : String
  shape : Shape
  guard : NameGuard
deriving DecidableEq, Repr

/-- A rule whose pattern has been read. Patterns are of the kind `Pattern` unless another kind is
named. -/
structure Rule (P : Type := Pattern) where
  id : String
  category : Category
  pattern : P
  shape : Shape
  guard : NameGuard
deriving DecidableEq, Repr

/-- Why some definitions make no library. -/
inductive RuleError where
  /-- The pattern of a rule is not well formed. -/
  | patternMalformed (id : String)
  /-- The id of a rule has been used before. -/
  | duplicateId (id : String)
deriving DecidableEq, Repr

namespace RuleError

def code : RuleError → LogCode
  | patternMalformed _ => .patternMalformed
  | duplicateId _ => .ruleDuplicate

def message : RuleError → String
  | patternMalformed id => "Pattern for rule '" ++ id ++ "' failed to compile"
  | duplicateId id => "Duplicate extraction rule id: " ++ id

end RuleError

/-- Rules that are ready to be applied, in the order of their definition. -/
structure Library (P : Type := Pattern) where
  rules : List (Rule P)
deriving DecidableEq, Repr

/-- The rule of a definition, if its pattern can be read. -/
def RuleDefinition.rule? {P : Type} [Matcher P] (d : RuleDefinition) : Option (Rule P) :=
  (Matcher.read d.pattern).map fun p => ⟨d.id, d.category, p, d.shape, d.guard⟩

namespace Library

variable {P : Type}

/-- The rules of definitions whose ids must differ from each other and from those `seen`. Of two
faults the one in the earlier definition counts, and a duplicate id before a bad pattern. -/
def rulesOf [Matcher P] (seen : List String) :
    List RuleDefinition → Except RuleError (List (Rule P))
  | [] => .ok []
  | d :: rest =>
    if d.id ∈ seen then .error (.duplicateId d.id)
    else match (d.rule? : Option (Rule P)) with
      | none => .error (.patternMalformed d.id)
      | some r => match rulesOf (d.id :: seen) rest with
        | .ok rules => .ok (r :: rules)
        | .error e => .error e

def ofDefinitions [Matcher P] (ds : List RuleDefinition) : Except RuleError (Library P) :=
  match rulesOf [] ds with
  | .ok rules => .ok ⟨rules⟩
  | .error e => .error e

/-- The rules of a category in the order of their definition. -/
def rulesFor (lib : Library P) (c : Category) : List (Rule P) :=
  lib.rules.filter fun r => r.category = c

/-- What there is to say once a library is ready. -/
def notice (lib : Library P) : Notice :=
  .debug "Pattern library compiled" [("rules", toString lib.rules.length)]

end Library

end DesignTokens
