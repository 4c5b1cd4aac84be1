import DesignTokens.Rule.Basic

/-!
# Standard rules

The ten rules for the getters of a token class. Three of them share a pattern and divide its names
among them, so a numeric getter belongs to exactly one. The second half of the module holds the
patterns for the parts of composite values.
-/

namespace DesignTokens

/-- How the names of border metrics start. -/
def borderStarts : List String := ["radius", "border", "stroke"]

/-- How the names of type metrics start. -/
def typographyStarts : List String := ["fontSize", "textSize", "lineHeight", "letterSpacing"]

/-- How the names start that no spacing has. -/
def claimedStarts : List String := borderStarts ++ typographyStarts

namespace RuleDefinition

def numericGetter : String := r"double get (\w+) => ([\d.]+)"

/-- A color with its alpha in front. -/
def colorArgb : RuleDefinition where
  id := "color_argb"
  category := .colors
  pattern := r"Color get (\w+) => const Color\(0x([A-Fa-f0-9]{8})\)"
  shape := .hex
  guard := .any

/-- A color without alpha. -/
def colorRgb : RuleDefinition where
  id := "color_rgb"
  category := .colors
  pattern := r"Color get (\w+) => const Color\(0x([A-Fa-f0-9]{6})\)"
  shape := .hex
  guard := .any

/-- A gradient with a list of colors. -/
def gradient : RuleDefinition where
  id := "gradient"
  category := .colors
  pattern := r"LinearGradient get (\w+) => const LinearGradient\(\s*colors:\s*\[([^\]]+)\]"
  shape := .gradient
  guard := .any

/-- A number that is a type metric. -/
def fontScale : RuleDefinition where
  id := "font_scale"
  category := .typography
  pattern := numericGetter
  shape := .numeric
  guard := .startsWithOne typographyStarts

def textStyle : RuleDefinition where
  id := "text_style"
  category := .typography
  pattern := r"TextStyle get (\w+) => (?:const )?TextStyle\(([^)]+)\)"
  shape := .textStyle
  guard := .any

/-- A number that is neither a type metric nor a border metric. -/
def spacingScale : RuleDefinition where
  id := "spacing_scale"
  category := .spacing
  pattern := numericGetter
  shape := .numeric
  guard := .startsWithNone claimedStarts

def shadow : RuleDefinition where
  id := "shadow"
  category := .shadows
  pattern := r"List<BoxShadow> get (\w+) => (?:const )?\[([^\]]+)\]"
  shape := .shadow
  guard := .any

/-- A duration in milliseconds. -/
def duration : RuleDefinition where
  id := "duration"
  category := .animations
  pattern := r"Duration get (\w+) => const Duration\(milliseconds: ([\d.]+)\)"
  shape := .duration
  guard := .any

def curve : RuleDefinition where
  id := "curve"
  category := .animations
  pattern := r"Curve get (\w+) => Curves\.(\w+)"
  shape := .curve
  guard := .any

/-- A number that is a border metric. -/
def borderScale : RuleDefinition where
  id := "border_scale"
  category := .borders
  pattern := numericGetter
  shape := .numeric
  guard := .startsWithOne borderStarts

/-- The standard rules; in a category, a later rule binds names again that an earlier one bound. -/
def standard : List RuleDefinition :=
  [colorArgb, colorRgb, gradient, fontScale, textStyle, spacingScale, shadow, duration, curve,
    borderScale]

end RuleDefinition

/-- The library of the standard rules. -/
def Library.standard : Library :=
  ((Library.ofDefinitions RuleDefinition.standard).toOption).get (by decide +kernel)

/-! ## Parts of composite values -/

namespace Detail

def gradientStopText : String := r"Color\(0x([A-Fa-f0-9]{8}|[A-Fa-f0-9]{6})\)"

/-- The size of a text style, as written. -/
def fontSizeText : String := r"fontSize:\s*([\d.]+)"

/-- The weight of a text style, as written. -/
def fontWeightText : String := r"fontWeight:\s*(?:FontWeight\.)?(\w+)"

/-- The blur radius of a shadow, as written. -/
def blurRadiusText : String := r"blurRadius:\s*([\d.]+)"

/-- The offset of a shadow, as written. -/
def offsetText : String := r"offset:\s*(?:const )?Offset\(([^)]+)\)"

/-- The alpha of a shadow, as written. -/
def alphaText : String := r"alpha:\s*([\d.]+)"

def gradientStop : Pattern := (Pattern.read gradientStopText).get (by decide +kernel)

def fontSize : Pattern := (Pattern.read fontSizeText).get (by decide +kernel)

def fontWeight : Pattern := (Pattern.read fontWeightText).get (by decide +kernel)

def blurRadius : Pattern := (Pattern.read blurRadiusText).get (by decide +kernel)

def offset : Pattern := (Pattern.read offsetText).get (by decide +kernel)

def alpha : Pattern := (Pattern.read alphaText).get (by decide +kernel)

/-- The first text that a part has in the body of a value. -/
def find? (part : Pattern) (body : List Char) : Option (List Char) :=
  (part.firstGroups? body).map fun groups => (groups.head?.join).getD []

/-- All texts that a part has in the body of a value. -/
def findAll (part : Pattern) (body : List Char) : List (List Char) :=
  (part.occurrences body).map fun o => (o.groups.head?.join).getD []

end Detail

end DesignTokens
