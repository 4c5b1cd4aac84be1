import DesignTokens.Text.CodeRange

/-!
# Blank characters

White space in the Unicode sense, and trimming by it.
-/

namespace DesignTokens.Text

/-- The code points of white space. -/
def blankRanges : CodeRanges :=
  [(0x9, 0xD), (0x20, 0x20), (0x85, 0x85), (0xA0, 0xA0), (0x1680, 0x1680), (0x2000, 0x200A),
   (0x2028, 0x2029), (0x202F, 0x202F), (0x205F, 0x205F), (0x3000, 0x3000)]

/-- Whether a character is white space. -/
def isBlank (c : Char) : Bool :=
  blankRanges.has c.toNat

/-- A text without its leading and trailing white space. -/
def trim (s : List Char) : List Char :=
  ((s.dropWhile isBlank).reverse.dropWhile isBlank).reverse

/-- Whether a text holds white space only. -/
def isAllBlank (s : List Char) : Bool :=
  s.all isBlank

@[simp] theorem trim_nil : trim [] = [] := rfl

end DesignTokens.Text
