import DesignTokens.Extract.Capture
import DesignTokens.Extract.Hit
import DesignTokens.Number.Rounding
import DesignTokens.Proofs.Text.Name
import DesignTokens.Rule.Standard
import DesignTokens.Token.Value

/-!
# Getters as a source writes them

A source of getters only, one on each line, in the form in which a token class is usually written.
Each getter carries what makes its parts well formed, so every list of getters is a source. What a
getter declares is said without looking at rules or patterns: the hit that it should give, and the
names that it should bind to which values.
-/

namespace DesignTokens

/-! ## Parts -/

/-- A name or an identifier that is not too long. -/
structure Word where
  text : String
  name : Text.IsName text.toList
  short : text.utf8ByteSize ≤ nameLimit

/-- The word of a text that can be checked. -/
def Word.of (text : String) (h : text.toList ≠ [] ∧ text.toList.all Text.isWord = true ∧
    text.utf8ByteSize ≤ nameLimit) : Word :=
  ⟨text, ⟨h.1, List.all_eq_true.1 h.2.1⟩, h.2.2⟩

/-- The value of digits before and behind a point. -/
def digitsValue (whole fraction : List Char) : Binary64 :=
  .ofDecimal false (Nat.ofDigitChars 10 (whole ++ fraction) 0) (-(fraction.length : Int))

/-- A finite number: digits, and if there is a fraction, a point and more digits. -/
structure Literal where
  whole : List Char
  fraction : List Char
  nonempty : whole ≠ []
  digits : ∀ c ∈ whole ++ fraction, Text.isAsciiDigit c = true
  finite : (digitsValue whole fraction).isFinite = true

namespace Literal

/-- The number of digits that can be checked. -/
def of (whole fraction : List Char) (h : whole ≠ [] ∧
    (whole ++ fraction).all Text.isAsciiDigit = true ∧
    (digitsValue whole fraction).isFinite = true) : Literal :=
  ⟨whole, fraction, h.1, List.all_eq_true.1 h.2.1, h.2.2⟩

def chars (l : Literal) : List Char :=
  l.whole ++ if l.fraction = [] then [] else '.' :: l.fraction

def value (l : Literal) : Binary64 := digitsValue l.whole l.fraction

end Literal

/-- A number with or without a minus sign. -/
structure SignedLiteral where
  negative : Bool
  magnitude : Literal

namespace SignedLiteral

def chars (l : SignedLiteral) : List Char :=
  (if l.negative then ['-'] else []) ++ l.magnitude.chars

def value (l : SignedLiteral) : Binary64 :=
  if l.negative then l.magnitude.value.neg else l.magnitude.value

end SignedLiteral

/-- A color with or without two digits of alpha in front. -/
structure HexColor where
  alpha : List Char
  rgb : List Char
  alpha_length : alpha.length = 0 ∨ alpha.length = 2
  rgb_length : rgb.length = 6
  hex : ∀ c ∈ alpha ++ rgb, Text.isHexDigit c = true

namespace HexColor

def chars (x : HexColor) : List Char := x.alpha ++ x.rgb

/-- The color of a stylesheet: alpha goes to the end, and an opaque one is left out. -/
def value (x : HexColor) : String :=
  let alpha := x.alpha.map Capture.upperHex
  String.ofList ('#' :: (x.rgb.map Capture.upperHex ++ if alpha = ['F', 'F'] then [] else alpha))

end HexColor

/-- A whole number of milliseconds below `2 ^ 64`. -/
structure Milliseconds where
  digits : List Char
  nonempty : digits ≠ []
  ascii : ∀ c ∈ digits, Text.isAsciiDigit c = true
  small : Nat.ofDigitChars 10 digits 0 < 0x10000000000000000

/-- The arguments of a text style, at least one. -/
inductive StyleBody where
  | size (l : Literal)
  | weight (w : Word)
  | both (l : Literal) (w : Word)

structure ShadowBody where
  blur : Option Literal
  offset : Option (SignedLiteral × SignedLiteral)
  alpha : Option Literal

/-- A getter of a token class. -/
inductive Getter where
  | color (name : Word) (x : HexColor)
  | gradient (name : Word) (first : HexColor) (others : List HexColor)
  | number (name : Word) (l : Literal)
  | textStyle (name : Word) (body : StyleBody)
  | shadow (name : Word) (body : ShadowBody)
  | duration (name : Word) (ms : Milliseconds)
  | curve (name : Word) (w : Word)

/-! ## Printing -/

/-- Texts with commas between them. -/
def separated : List (List Char) → List Char
  | [] => []
  | [t] => t
  | t :: u :: rest => t ++ ", ".toList ++ separated (u :: rest)

namespace HexColor

def stop (x : HexColor) : List Char := "Color(0x".toList ++ x.chars ++ [')']

end HexColor

namespace StyleBody

def sizePart (l : Literal) : List Char := "fontSize: ".toList ++ l.chars

def weightPart (w : Word) : List Char := "fontWeight: FontWeight.".toList ++ w.text.toList

def chars : StyleBody → List Char
  | size l => sizePart l
  | weight w => weightPart w
  | both l w => sizePart l ++ ", ".toList ++ weightPart w

end StyleBody

namespace ShadowBody

def blurPart (l : Literal) : List Char := "blurRadius: ".toList ++ l.chars

def offsetPart (o : SignedLiteral × SignedLiteral) : List Char :=
  "offset: Offset(".toList ++ (o.1.chars ++ ", ".toList ++ o.2.chars) ++ [')']

def alphaPart (l : Literal) : List Char := "alpha: ".toList ++ l.chars

def chars (b : ShadowBody) : List Char :=
  "BoxShadow(".toList ++ separated ((b.blur.map blurPart).toList ++ (b.offset.map offsetPart).toList
    ++ (b.alpha.map alphaPart).toList) ++ [')']

end ShadowBody

inductive GetterKind where
  | color
  | gradient
  | number
  | textStyle
  | shadow
  | duration
  | curve

namespace GetterKind

/-- The type that a getter is declared with. -/
def keyword : GetterKind → String
  | color => "Color"
  | gradient => "LinearGradient"
  | number => "double"
  | textStyle => "TextStyle"
  | shadow => "List<BoxShadow>"
  | duration => "Duration"
  | curve => "Curve"

/-- What stands between the arrow and the part of the value that says what it is. -/
def before : GetterKind → List Char
  | color => "const Color(0x".toList
  | gradient => "const LinearGradient(colors: [".toList
  | number => []
  | textStyle => "const TextStyle(".toList
  | shadow => "const [".toList
  | duration => "const Duration(milliseconds: ".toList
  | curve => "Curves.".toList

/-- What stands between that part and the semicolon. -/
def behind : GetterKind → List Char
  | color | textStyle | duration => [')']
  | gradient => [']', ')']
  | number | curve => []
  | shadow => [']']

end GetterKind

namespace Getter

def name : Getter → Word
  | color n _ | gradient n _ _ | number n _ | textStyle n _ | shadow n _ | duration n _
  | curve n _ => n

def kind : Getter → GetterKind
  | color _ _ => .color
  | gradient _ _ _ => .gradient
  | number _ _ => .number
  | textStyle _ _ => .textStyle
  | shadow _ _ => .shadow
  | duration _ _ => .duration
  | curve _ _ => .curve

/-- The part of the value that says what it is. -/
def core : Getter → List Char
  | color _ x => x.chars
  | gradient _ first others =>
    first.stop ++ others.flatMap fun x => ", ".toList ++ x.stop
  | number _ l => l.chars
  | textStyle _ body => body.chars
  | shadow _ body => body.chars
  | duration _ ms => ms.digits
  | curve _ w => w.text.toList

def line (d : Getter) : List Char :=
  d.kind.keyword.toList ++ " get ".toList ++ d.name.text.toList ++ " => ".toList
    ++ d.kind.before ++ d.core ++ d.kind.behind ++ [';']

/-- A source with a getter on each line. -/
def print (ds : List Getter) : String :=
  String.ofList (ds.flatMap fun d => d.line ++ ['\n'])

/-! ## What getters declare -/

/-- The rule that a getter is for. Numbers are told apart by how their names start. -/
def definition : Getter → RuleDefinition
  | color _ x => if x.alpha = [] then .colorRgb else .colorArgb
  | gradient _ _ _ => .gradient
  | number n _ =>
    if startsWithAny typographyStarts n.text then .fontScale
    else if startsWithAny borderStarts n.text then .borderScale
    else .spacingScale
  | textStyle _ _ => .textStyle
  | shadow _ _ => .shadow
  | duration _ _ => .duration
  | curve _ _ => .curve

def hit (d : Getter) (line : Nat) : Hit where
  category := d.definition.category
  rule := d.definition.id
  shape := d.definition.shape
  name := d.name.text
  captures := [String.ofList d.core]
  line := line

def hitsFrom (first : Nat) : List Getter → List Hit
  | [] => []
  | d :: ds => d.hit first :: hitsFrom (first + 1) ds

/-- The hits of a source of getters, in the order of a scan: sorted by rules, and by lines for each
rule. -/
def hits (ds : List Getter) : List Hit :=
  RuleDefinition.standard.flatMap fun r => (hitsFrom 1 ds).filter fun h => h.rule = r.id

/-- The names that a getter binds and their values, in order. -/
def bindings : Getter → List (String × TokenValue)
  | color n x => [(n.text, .color x.value)]
  | gradient n first others =>
    [(n.text ++ "_gradient", .gradient ((first :: others).map HexColor.value))]
  | number n l => [(n.text, .number l.value)]
  | textStyle n (.size l) => [(n.text ++ "_fontSize", .number l.value)]
  | textStyle n (.weight w) => [(n.text ++ "_fontWeight", .symbol w.text)]
  | textStyle n (.both l w) =>
    [(n.text ++ "_fontSize", .number l.value), (n.text ++ "_fontWeight", .symbol w.text)]
  | shadow n body =>
    [(n.text, .shadow
      ⟨body.blur.map Literal.value, body.offset.map fun o => ⟨o.1.value, o.2.value⟩,
        body.alpha.map Literal.value⟩)]
  | duration n ms => [(n.text ++ "_duration", .integer (Nat.ofDigitChars 10 ms.digits 0))]
  | curve n w => [(n.text ++ "_curve", .symbol w.text)]

/-- The bindings that getters declare in a category, in the order of a build. -/
def declared (c : Category) (ds : List Getter) : List (String × TokenValue) :=
  ((RuleDefinition.standard.filter fun r => r.category = c).flatMap fun r =>
    ds.filter fun d => d.definition = r).flatMap bindings

end Getter

end DesignTokens
