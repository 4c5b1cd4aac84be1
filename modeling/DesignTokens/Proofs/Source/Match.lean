import DesignTokens.Proofs.Source.Line

/-!
# Matches on lines

The pattern for the kind of a getter takes its line up to the end of the value, with the name and
the core as groups. No other match starts on the line. So each line is one block for each rule, and
the occurrences of a rule in a printed source are its own lines.
-/

namespace DesignTokens

/-! ## Patterns on their texts -/

namespace CharClass

theorem has_word {t : List Char} (h : Text.IsName t) : ∀ c ∈ t, (of .word).has c = true := by
  intro c hc
  rw [has_of]
  exact h.word c hc

theorem stops_of (r : CharRange) {t : List Char} (h : Stops r.has t) : Stops (of r).has t := by
  intro c hc
  rw [has_of]
  exact h c hc

end CharClass

namespace Pattern

theorem takesFirst_enclosed {close : Char} {t : List Char} (hne : t ≠ []) (ht : close ∉ t)
    (rest : List Char) : (enclosed close).TakesFirst (t ++ [close]) [some t] rest := by
  have hall : ∀ c ∈ t, (CharClass.allBut close).has c = true := by
    intro c hc
    apply CharClass.has_allBut_of_ne
    rintro rfl
    exact ht hc
  have hself : (CharClass.allBut close).has close = false := by
    rw [CharClass.has_allBut, beq_self_eq_true]
    rfl
  exact takesFirst_seq (takesFirst_group
    (takesFirst_whole hall (stops_cons hself _) (List.length_pos_of_ne_nil hne)))
    (takesFirst_one (has_only_self close) rest)

theorem takesFirst_maybeConst (rest : List Char) :
    maybeConst.TakesFirst "const ".toList [] rest :=
  takesFirst_former
    (takesFirst_preceded "const".toList (takesFirst_one (has_only_self ' ') rest)) empty

theorem takesFirst_amount {t rest : List Char} (hne : t ≠ [])
    (ht : ∀ c ∈ t, CharClass.decimal.has c = true) (hr : Stops CharClass.decimal.has rest) :
    amount.TakesFirst t [some t] rest :=
  takesFirst_group (takesFirst_run ht hr (List.length_pos_of_ne_nil hne))

-- White space up to a character that is none.
theorem takesFirst_blanks {t rest : List Char} (ht : ∀ c ∈ t, Text.isBlank c = true)
    (hr : Stops Text.isBlank rest) : (whole (.of .blank) 0).TakesFirst t [] rest := by
  apply takesFirst_whole _ (CharClass.stops_of .blank hr) (Nat.zero_le _)
  intro c hc
  rw [CharClass.has_of]
  exact ht c hc

theorem takesFirst_keyed {key : String} {value : Pattern} {t rest : List Char}
    {gs : List (Option (List Char))} (hv : value.TakesFirst t gs rest)
    (ht : Stops Text.isBlank (t ++ rest)) :
    (keyed key value).TakesFirst (key.toList ++ ([' '] ++ t)) gs rest := by
  apply takesFirst_preceded
  have hblank : (run (.of .blank) 0).TakesFirst [' '] [] (t ++ rest) := by
    apply takesFirst_run _ (CharClass.stops_of .blank ht) (Nat.zero_le _)
    exact List.all_eq_true.1 (by decide)
  exact takesFirst_seq hblank hv

theorem takesFirst_word {t rest : List Char} (ht : Text.IsName t)
    (hr : Stops Text.isWord rest) : (group (run (.of .word) 1)).TakesFirst t [some t] rest :=
  takesFirst_group (takesFirst_run (CharClass.has_word ht) (CharClass.stops_of .word hr)
    (List.length_pos_of_ne_nil ht.nonempty))

-- A getter takes its keyword, its name, the arrow and what the value takes.
theorem takesFirst_getter {value : Pattern} {name t rest : List Char}
    {gs : List (Option (List Char))} (keyword : String) (hname : Text.IsName name)
    (hv : value.TakesFirst t gs rest) :
    (getter keyword value).TakesFirst (lead keyword.toList ++ (name ++ (" => ".toList ++ t)))
      (some name :: gs) rest := by
  apply takesFirst_preceded
  have hword : (group (whole (.of .word) 1)).TakesFirst name [some name]
      (" => ".toList ++ t ++ rest) :=
    takesFirst_group (takesFirst_whole (CharClass.has_word hname) (stops_cons (by decide) _)
      (List.length_pos_of_ne_nil hname.nonempty))
  exact takesFirst_seq hword (takesFirst_preceded _ hv)

-- A getter matches nowhere where its value does not.
theorem noWay_getter {value : Pattern} {name rest : List Char} (keyword : String)
    (hname : Text.IsName name) (hv : value.NoWay rest) :
    (getter keyword value).NoWay (lead keyword.toList ++ (name ++ (" => ".toList ++ rest))) := by
  apply noWay_preceded_append
  apply noWay_whole_seq (CharClass.has_word hname) (stops_cons (by decide) _)
  exact noWay_preceded_append _ hv

theorem noWay_getter_nil (keyword : String) (value : Pattern) :
    (getter keyword value).NoWay [] := by
  apply noWay_preceded
  rw [List.prefix_nil, lead, List.append_eq_nil_iff, not_and]
  exact fun _ hnil => absurd hnil (by decide)

end Pattern

/-! ## The value of a getter -/

theorem StyleBody.chars_ne (b : StyleBody) : b.chars ≠ [] := by
  have hne (t u : List Char) : 'f' :: t ++ u ≠ [] := List.cons_ne_nil _ _
  cases b with
  | size l => exact hne _ _
  | weight w => exact hne _ _
  | both l w => exact hne _ _

theorem ShadowBody.chars_ne (b : ShadowBody) : b.chars ≠ [] := by
  intro h
  have hlast : ')' ∈ b.chars := List.mem_append_right _ List.mem_cons_self
  rw [h] at hlast
  cases hlast

theorem HexColor.stop_ne (x : HexColor) : x.stop ≠ [] := by
  intro h
  have hlast : ')' ∈ x.stop := List.mem_append_right _ List.mem_cons_self
  rw [h] at hlast
  cases hlast

namespace GetterKind

/-- What a pattern takes behind the core. -/
def closing : GetterKind → List Char
  | color | textStyle | duration => [')']
  | gradient | shadow => [']']
  | number | curve => []

/-- What is left of the line then. -/
def left : GetterKind → List Char
  | gradient => [')', ';']
  | _ => [';']

theorem behind_eq (k : GetterKind) : k.behind ++ [';'] = k.closing ++ k.left := by
  cases k <;> rfl

theorem calm_left (k : GetterKind) : Calm k.left := by
  cases k <;> decide

end GetterKind

namespace Getter

open Pattern

def valuePattern : Getter → Pattern
  | color _ x => colorValue (if x.alpha = [] then 6 else 8)
  | gradient _ _ _ => gradientValue
  | number _ _ => amount
  | textStyle _ _ => styleValue
  | shadow _ _ => shadowValue
  | duration _ _ => durationValue
  | curve _ _ => curveValue

/-- **The value of a getter is taken with its core as the group.** -/
theorem takesFirst_value (d : Getter) (rest : List Char) :
    d.valuePattern.TakesFirst (d.kind.before ++ (d.core ++ d.kind.closing)) [some d.core]
      (d.kind.left ++ rest) := by
  cases d with
  | color n x =>
    have hdigits : (group (exactly .hex (if x.alpha = [] then 6 else 8))).TakesFirst x.chars
        [some x.chars] ([')'] ++ ([';'] ++ rest)) :=
      takesFirst_group (takesFirst_exactly x.has_hex x.length_chars _)
    exact takesFirst_preceded _ (takesFirst_seq hdigits (takesFirst_one (has_only_self ')') _))
  | gradient n first others =>
    have hne : core (.gradient n first others) ≠ [] := by
      show first.stop ++ _ ≠ []
      rw [Ne, List.append_eq_nil_iff, not_and]
      intro hstop
      exact absurd hstop first.stop_ne
    have hmem : ']' ∉ core (.gradient n first others) :=
      (madeOf_gradient first others).not_mem (by decide) (by decide)
    have hlist := takesFirst_preceded ['[']
      (takesFirst_enclosed hne hmem ([')', ';'] ++ rest))
    -- a space in front of the bracket, and none in front of the key
    have hspace : (whole (.of .blank) 0).TakesFirst [' '] []
        (['['] ++ (core (.gradient n first others) ++ [']']) ++ ([')', ';'] ++ rest)) :=
      takesFirst_blanks (List.all_eq_true.1 (by decide)) (stops_cons (by decide) _)
    have hkey := takesFirst_preceded "colors:".toList (takesFirst_seq hspace hlist)
    have hnone : (whole (.of .blank) 0).TakesFirst [] []
        ("colors:".toList ++ ([' '] ++ (['['] ++ (core (.gradient n first others) ++ [']'])))
          ++ ([')', ';'] ++ rest)) :=
      takesFirst_blanks (List.all_eq_true.1 (by decide)) (stops_cons (by decide) _)
    have hbefore : GetterKind.gradient.before =
        "const LinearGradient(".toList ++ ("colors:".toList ++ ([' '] ++ ['['])) := by
      decide +kernel
    have hvalue := takesFirst_preceded "const LinearGradient(".toList (takesFirst_seq hnone hkey)
    rw [List.nil_append] at hvalue
    show gradientValue.TakesFirst (GetterKind.gradient.before ++ _) _ _
    rw [hbefore]
    simp only [List.append_assoc]
    exact hvalue
  | number n l =>
    show amount.TakesFirst (l.chars ++ []) [some l.chars] _
    rw [List.append_nil]
    exact takesFirst_amount l.chars_ne l.has_decimal (stops_cons (by decide) _)
  | textStyle n body =>
    have hclose : ')' ∉ body.chars := body.madeOf.not_mem (by decide) (by decide)
    have hcore := takesFirst_enclosed body.chars_ne hclose ([';'] ++ rest)
    exact takesFirst_seq (takesFirst_maybeConst _)
      (takesFirst_preceded "TextStyle(".toList hcore)
  | shadow n body =>
    have hclose : ']' ∉ body.chars := body.madeOf.not_mem (by decide) (by decide)
    have hcore := takesFirst_enclosed body.chars_ne hclose ([';'] ++ rest)
    exact takesFirst_seq (takesFirst_maybeConst _) (takesFirst_preceded ['['] hcore)
  | duration n ms =>
    have hall : ∀ c ∈ ms.digits, CharClass.decimal.has c = true := by
      intro c hc
      rw [CharClass.has_decimal, Text.isDecimalDigit_of_isAsciiDigit (ms.ascii c hc), Bool.true_or]
    have hstop : Stops CharClass.decimal.has ([')'] ++ ([';'] ++ rest)) := stops_cons (by decide) _
    have hdigits := takesFirst_group
      (takesFirst_whole hall hstop (List.length_pos_of_ne_nil ms.nonempty))
    exact takesFirst_preceded _ (takesFirst_seq hdigits (takesFirst_one (has_only_self ')') _))
  | curve n w =>
    show curveValue.TakesFirst ("Curves.".toList ++ (w.text.toList ++ [])) [some w.text.toList] _
    rw [List.append_nil]
    exact takesFirst_preceded _ (takesFirst_word w.name (stops_cons (by decide) _))

end Getter

/-! ## Rules and kinds -/

namespace GetterKind

open Pattern

/-- The rules of a kind, each with the pattern for its values. -/
def rules : GetterKind → List (Pattern × RuleDefinition)
  | color => [(colorValue 8, .colorArgb), (colorValue 6, .colorRgb)]
  | gradient => [(gradientValue, .gradient)]
  | number => [(amount, .fontScale), (amount, .spacingScale), (amount, .borderScale)]
  | textStyle => [(styleValue, .textStyle)]
  | shadow => [(shadowValue, .shadow)]
  | duration => [(durationValue, .duration)]
  | curve => [(curveValue, .curve)]

theorem keyword_mem (k : GetterKind) : k.keyword ∈ keywords := by
  cases k <;> decide

theorem eq_of_keyword_eq {k l : GetterKind} (h : k.keyword = l.keyword) : k = l := by
  cases k <;> cases l <;> first | rfl | exact absurd h (by decide)

end GetterKind

-- A standard rule is for a kind of getters.
theorem RuleDefinition.exists_kind {g : GetterRule} (hg : g ∈ standardGetters) :
    ∃ k : GetterKind, g.keyword = k.keyword ∧ (g.value, g.definition) ∈ k.rules := by
  simp only [standardGetters, List.mem_cons, List.not_mem_nil, or_false] at hg
  rcases hg with rfl | rfl | rfl | rfl | rfl | rfl | rfl | rfl | rfl | rfl
  · exact ⟨.color, rfl, List.mem_cons_self⟩
  · exact ⟨.color, rfl, List.mem_cons_of_mem _ List.mem_cons_self⟩
  · exact ⟨.gradient, rfl, List.mem_cons_self⟩
  · exact ⟨.number, rfl, List.mem_cons_self⟩
  · exact ⟨.textStyle, rfl, List.mem_cons_self⟩
  · exact ⟨.number, rfl, List.mem_cons_of_mem _ List.mem_cons_self⟩
  · exact ⟨.shadow, rfl, List.mem_cons_self⟩
  · exact ⟨.duration, rfl, List.mem_cons_self⟩
  · exact ⟨.curve, rfl, List.mem_cons_self⟩
  · exact ⟨.number, rfl, List.mem_cons_of_mem _ (List.mem_cons_of_mem _ List.mem_cons_self)⟩

-- The rules of a getter with the keyword of a standard rule include that rule.
theorem RuleDefinition.mem_rules_of_keyword {g : GetterRule} (hg : g ∈ standardGetters)
    {d : Getter} (hk : g.keyword = d.kind.keyword) : (g.value, g.definition) ∈ d.kind.rules := by
  rcases exists_kind hg with ⟨k, hkey, hrule⟩
  rw [← GetterKind.eq_of_keyword_eq (hkey.symm.trans hk)]
  exact hrule

namespace Pattern

-- A color with another number of digits is no color of this pattern.
theorem noWay_colorValue {x : HexColor} {count : Nat} (h : count ≠ x.chars.length)
    (rest : List Char) :
    (colorValue count).NoWay ("const Color(0x".toList ++ (x.chars ++ ([')'] ++ rest))) := by
  apply noWay_preceded_append
  rcases Nat.lt_or_gt_of_ne h with hlt | hgt
  · -- a digit stands where the closing bracket should
    have hsplit := List.take_append_drop count x.chars
    rw [← hsplit, List.append_assoc]
    apply noWay_exactly_seq (fun c hc => x.has_hex c (List.mem_of_mem_take hc))
      (List.length_take_of_le (by omega))
    apply noWay_one
    apply stops_append (by rw [Ne, List.drop_eq_nil_iff]; omega)
    intro c hc
    rw [← Bool.not_eq_true]
    intro hclose
    rw [eq_of_has_only hclose] at hc
    exact x.not_mem (by decide) (List.mem_of_mem_drop hc)
  · -- the digits end too early
    apply noWay_seq
    apply noWay_group
    exact noWay_exactly hgt (stops_cons (by decide) _)

end Pattern

/-! ## Lines as blocks -/

namespace Getter

open Pattern RuleDefinition

/-- What the pattern of a getter takes of its line. -/
def taken (d : Getter) : List Char :=
  lead d.kind.keyword.toList
    ++ (d.name.text.toList ++ (" => ".toList ++ (d.kind.before ++ (d.core ++ d.kind.closing))))

theorem taken_ne (d : Getter) : d.taken ≠ [] := by
  rw [taken, Ne, List.append_eq_nil_iff, not_and]
  intro h
  rw [lead, List.append_eq_nil_iff] at h
  exact absurd h.2 (by decide)

theorem taken_append_left (d : Getter) : d.taken ++ d.kind.left = d.line := by
  simp only [taken, line_eq, tail, List.append_assoc, d.kind.behind_eq]

/-- The line of a getter as a rule sees it. -/
def block (g : GetterRule) (d : Getter) : Block :=
  if g.keyword = d.kind.keyword ∧ g.value = d.valuePattern then
    ⟨some (d.taken, [some d.name.text.toList, some d.core]), d.kind.left ++ ['\n']⟩
  else ⟨none, d.line ++ ['\n']⟩

theorem text_block (g : GetterRule) (d : Getter) : (d.block g).text = d.line ++ ['\n'] := by
  unfold block
  split
  · show d.taken ++ (d.kind.left ++ ['\n']) = _
    rw [← List.append_assoc, taken_append_left]
  · rfl

-- Where only the value differs, the getter is a color with another number of digits.
theorem noWay_of_value_ne {g : GetterRule} (hg : g ∈ standardGetters) {d : Getter}
    (hk : g.keyword = d.kind.keyword) (hv : g.value ≠ d.valuePattern) (rest : List Char) :
    g.rule.pattern.NoWay (d.line ++ rest) := by
  have hrule := mem_rules_of_keyword hg hk
  cases d with
  | color n x =>
    have hcolor : ∃ count, g.value = colorValue count := by
      rcases List.mem_cons.1 hrule with h | h
      · exact ⟨8, congrArg Prod.fst h⟩
      · exact ⟨6, congrArg Prod.fst (List.mem_singleton.1 h)⟩
    rcases hcolor with ⟨count, hcount⟩
    have hne : count ≠ x.chars.length := by
      intro h
      apply hv
      rw [hcount, h, x.length_chars]
      rfl
    have hline : line (.color n x) ++ rest = lead g.keyword.toList ++ (n.text.toList
        ++ (" => ".toList
          ++ ("const Color(0x".toList ++ (x.chars ++ ([')'] ++ ([';'] ++ rest)))))) := by
      rw [hk, ← taken_append_left]
      show lead _ ++ (_ ++ (_ ++ (_ ++ (x.chars ++ [')'])))) ++ [';'] ++ rest = _
      simp only [List.append_assoc]
      rfl
    show (getter g.keyword g.value).NoWay _
    rw [hline, hcount]
    exact noWay_getter g.keyword n.name (noWay_colorValue hne _)
  | number n l =>
    have hvalue : g.value = amount := by
      rcases List.mem_cons.1 hrule with h | h
      · exact congrArg Prod.fst h
      · rcases List.mem_cons.1 h with h | h
        · exact congrArg Prod.fst h
        · exact congrArg Prod.fst (List.mem_singleton.1 h)
    exact absurd hvalue hv
  | gradient | textStyle | shadow | duration | curve =>
    exact absurd (congrArg Prod.fst (List.mem_singleton.1 hrule)) hv

-- No match of a rule starts in the keyword of a line, unless it is the match of the line.
theorem clear_lead {g : GetterRule} (hg : g ∈ standardGetters) {d : Getter}
    (h : ¬ (g.keyword = d.kind.keyword ∧ g.value = d.valuePattern)) (rest : List Char) :
    Clear g.rule.pattern (lead d.kind.keyword.toList)
      (d.name.text.toList ++ d.tail ++ rest) := by
  rcases exists_kind hg with ⟨k, hkey, -⟩
  intro i hi
  by_cases hne : i ≠ 0 ∨ g.keyword ≠ d.kind.keyword
  · apply noWay_preceded
    apply not_prefix_of_apart
    apply apart_lead _ d.kind.keyword_mem hi hne
    rw [hkey]
    exact k.keyword_mem
  · rw [not_or, not_not, not_not] at hne
    rw [hne.1, List.drop_zero, ← List.append_assoc, ← line_eq]
    exact noWay_of_value_ne hg hne.2 (fun hv => h ⟨hne.2, hv⟩) rest

/-- **A line is a block for every rule**, whatever stands behind it. -/
theorem fits_block {g : GetterRule} (hg : g ∈ standardGetters) (d : Getter) :
    (d.block g).Fits g.rule.pattern := by
  intro rest
  rcases exists_kind hg with ⟨k, hkey, -⟩
  have hfeed : '\n' ∉ lead g.keyword.toList := by
    rw [hkey]
    exact not_mem_lead k.keyword_mem
  unfold block
  split
  · -- the match, and behind it what is left of the line
    rename_i h
    refine ⟨clear_of_calm hfeed g.value List.not_mem_nil d.kind.calm_left rest, ?_⟩
    intro t gs hfound
    cases hfound
    refine ⟨d.taken_ne, ?_⟩
    have htakes := takesFirst_getter g.keyword d.name.name (d.takesFirst_value (['\n'] ++ rest))
    rw [h.1, ← h.2] at htakes
    show (getter g.keyword g.value).TakesFirst _ _ _
    rw [h.1, List.append_assoc]
    exact htakes
  · -- no match: neither from the keyword on nor behind it
    rename_i h
    refine ⟨?_, fun t gs hfound => by cases hfound⟩
    rw [line_eq, List.append_assoc]
    apply clear_append
    · rw [List.append_assoc]
      exact clear_lead hg h _
    · exact clear_of_calm hfeed g.value (d.name.not_mem (by decide)) d.calm_tail rest

end Getter

end DesignTokens
