import DesignTokens.Extract.Scan
import DesignTokens.Rule.Standard
import DesignTokens.Proofs.Pattern.Occurrences
import DesignTokens.Proofs.Text.Name

/-!
# Getters

Every standard rule looks for a getter: a keyword, a name, an arrow and a value. The rules differ
in the keyword and in the pattern of the value alone. The parts of composite values are looked for
behind a key in the same way. What the written patterns of both mean is fixed here once, so that
nothing else has to read them.
-/

namespace DesignTokens

/-! ## Classes -/

namespace CharClass

/-- The ASCII hex digits. -/
def hex : CharClass := ⟨false, [.between 'A' 'F', .between 'a' 'f', .between '0' '9']⟩

/-- The decimal digits of every script, and the point. -/
def decimal : CharClass := ⟨false, [.digit, .between '.' '.']⟩

/-- All characters but one. -/
def allBut (c : Char) : CharClass := ⟨true, [.between c c]⟩

theorem has_hex (c : Char) : hex.has c = Text.isHexDigit c := by
  rw [Bool.eq_iff_iff]
  simp only [has, hex, List.any_cons, List.any_nil, CharRange.has, Text.isHexDigit,
    Text.isAsciiDigit, Bool.or_false, Bool.bne_false, Bool.or_eq_true, Bool.and_eq_true,
    decide_eq_true_eq]
  show (65 ≤ c.toNat ∧ c.toNat ≤ 70) ∨ (97 ≤ c.toNat ∧ c.toNat ≤ 102) ∨
    (48 ≤ c.toNat ∧ c.toNat ≤ 57) ↔ _
  omega

theorem has_decimal (c : Char) : decimal.has c = (Text.isDecimalDigit c || c.toNat == 46) := by
  rw [Bool.eq_iff_iff]
  simp only [has, decimal, List.any_cons, List.any_nil, CharRange.has, Bool.or_false,
    Bool.bne_false, Bool.or_eq_true, Bool.and_eq_true, decide_eq_true_eq, beq_iff_eq]
  have hpoint : 46 ≤ c.toNat ∧ c.toNat ≤ 46 ↔ c.toNat = 46 := by omega
  exact or_congr Iff.rfl hpoint

theorem has_allBut (c d : Char) : (allBut c).has d = !(c.toNat == d.toNat) := by
  rw [← has_only]
  simp [has, allBut, only]

theorem has_allBut_of_ne {c d : Char} (h : d ≠ c) : (allBut c).has d = true := by
  rw [has_allBut, Bool.not_eq_true', beq_eq_false_iff_ne]
  exact fun hn => h (Char.toNat_inj.1 hn).symm

end CharClass

namespace Pattern

/-! ## Patterns of values -/

/-- A reported stretch up to a closing character, which ends it. -/
def enclosed (close : Char) : Pattern :=
  seq (group (whole (.allBut close) 1)) (one (.only close))

/-- The word for a constant and a space, which may both be missing. -/
def maybeConst : Pattern := either (preceded "const".toList (one (.only ' '))) empty

/-- A number as far as it goes. -/
def amount : Pattern := group (run .decimal 1)

/-- A color with so many hex digits. -/
def colorValue (count : Nat) : Pattern :=
  preceded "const Color(0x".toList (seq (group (exactly .hex count)) (one (.only ')')))

def gradientValue : Pattern :=
  preceded "const LinearGradient(".toList (seq (whole (.of .blank) 0)
    (preceded "colors:".toList (seq (whole (.of .blank) 0) (preceded ['['] (enclosed ']')))))

def styleValue : Pattern := seq maybeConst (preceded "TextStyle(".toList (enclosed ')'))

/-- The elements of a list of shadows. -/
def shadowValue : Pattern := seq maybeConst (preceded ['['] (enclosed ']'))

def durationValue : Pattern :=
  preceded "const Duration(milliseconds: ".toList (seq (group (whole .decimal 1)) (one (.only ')')))

def curveValue : Pattern := preceded "Curves.".toList (group (run (.of .word) 1))

/-! ## Patterns of getters and keys -/

/-- The text between the keyword and the name of a getter, and that between name and value. -/
def lead (keyword : List Char) : List Char := keyword ++ " get ".toList

/-- A getter: its name is the first group, and those of the value follow. -/
def getter (keyword : String) (value : Pattern) : Pattern :=
  preceded (lead keyword.toList)
    (seq (group (whole (.of .word) 1)) (preceded " => ".toList value))

/-- A value behind its key and white space. -/
def keyed (key : String) (value : Pattern) : Pattern :=
  preceded key.toList (seq (run (.of .blank) 0) value)

/-! ## Texts of getters -/

-- What a getter takes: its groups are a word as the name, and those of the value.
theorem takes_getter {keyword : String} {value : Pattern} {t : List Char}
    {gs : List (Option (List Char))} (h : (getter keyword value).Takes t gs) :
    ∃ name u vs, gs = some name :: vs ∧ Text.IsName name ∧ value.Takes u vs ∧
      t = lead keyword.toList ++ (name ++ (" => ".toList ++ u)) := by
  rcases takes_preceded h with ⟨_, rfl, hbody⟩
  cases hbody with
  | seq hname hrest =>
    cases hname with
    | group hword =>
      cases hword with
      | whole hk hl =>
        rcases takes_preceded hrest with ⟨u, rfl, hvalue⟩
        refine ⟨_, u, _, rfl, ⟨?_, ?_⟩, hvalue, rfl⟩
        · intro hnil
          rw [hnil] at hl
          exact absurd hl (by decide)
        · intro c hc
          have hw := hk c hc
          rw [CharClass.has_of] at hw
          exact hw

theorem takes_amount {t : List Char} {gs : List (Option (List Char))} (h : amount.Takes t gs) :
    gs = [some t] ∧ ∀ c ∈ t, CharClass.decimal.has c = true := by
  cases h with
  | group h =>
    cases h with
    | run hk _ => exact ⟨rfl, hk⟩

theorem takes_keyed {key : String} {value : Pattern} {t : List Char}
    {gs : List (Option (List Char))} (h : (keyed key value).Takes t gs) :
    ∃ u, value.Takes u gs := by
  rcases takes_preceded h with ⟨_, _, hbody⟩
  cases hbody with
  | seq hblanks hvalue =>
    cases hblanks with
    | run _ _ => exact ⟨_, hvalue⟩

end Pattern

/-! ## The standard rules -/

/-- A rule that looks for getters: its definition, the keyword, and the pattern of the value. -/
structure GetterRule where
  definition : RuleDefinition
  keyword : String
  value : Pattern

def GetterRule.rule (g : GetterRule) : Rule :=
  ⟨g.definition.id, g.definition.category, .getter g.keyword g.value, g.definition.shape,
    g.definition.guard⟩

namespace RuleDefinition

open Pattern

def standardGetters : List GetterRule :=
  [⟨colorArgb, "Color", colorValue 8⟩,
    ⟨colorRgb, "Color", colorValue 6⟩,
    ⟨gradient, "LinearGradient", gradientValue⟩,
    ⟨fontScale, "double", amount⟩,
    ⟨textStyle, "TextStyle", styleValue⟩,
    ⟨spacingScale, "double", amount⟩,
    ⟨shadow, "List<BoxShadow>", shadowValue⟩,
    ⟨duration, "Duration", durationValue⟩,
    ⟨curve, "Curve", curveValue⟩,
    ⟨borderScale, "double", amount⟩]

def standardRules : List Rule := standardGetters.map GetterRule.rule

end RuleDefinition

/-- **The standard library holds the getters.** -/
theorem Library.standard_rules : Library.standard.rules = RuleDefinition.standardRules := by
  decide +kernel

theorem Category.flatMap_standardRules :
    (Category.all.flatMap fun c => RuleDefinition.standardRules.filter fun r => r.category = c) =
      RuleDefinition.standardRules := by
  decide +kernel

-- The standard rules are applied in the order of their definition.
theorem Library.byRule_scan_standard (source : String) :
    (Library.standard.scan source).byRule =
      RuleDefinition.standardRules.map fun r =>
        ⟨r, r.findings (.of source.toList) source.toList⟩ := by
  have h := congrArg
    (List.map fun r => RuleScan.mk r (r.findings (.of source.toList) source.toList))
    Category.flatMap_standardRules
  rw [List.map_flatMap] at h
  rw [← h, Library.scan]
  simp only [Library.rulesFor, Library.standard_rules]

namespace Detail

theorem gradientStop_eq : gradientStop = Pattern.preceded "Color(0x".toList
    (.seq (.group (.either (.exactly .hex 8) (.exactly .hex 6))) (.one (.only ')'))) := by
  decide +kernel

theorem fontSize_eq : fontSize = .keyed "fontSize:" .amount := by
  decide +kernel

theorem fontWeight_eq : fontWeight = .keyed "fontWeight:"
    (.seq (.either (.preceded "FontWeight".toList (.one (.only '.'))) .empty)
      (.group (.run (.of .word) 1))) := by
  decide +kernel

theorem blurRadius_eq : blurRadius = .keyed "blurRadius:" .amount := by
  decide +kernel

theorem offset_eq : offset = .keyed "offset:"
    (.seq .maybeConst (.preceded "Offset(".toList (.enclosed ')'))) := by
  decide +kernel

theorem alpha_eq : alpha = .keyed "alpha:" .amount := by
  decide +kernel

end Detail

end DesignTokens
