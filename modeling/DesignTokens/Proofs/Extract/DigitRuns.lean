import DesignTokens.Proofs.Extract.OffsetText
import DesignTokens.Proofs.Extract.Sites
import DesignTokens.Proofs.Number.Nearest
import DesignTokens.Run.Job

/-!
# Runs of digits and points

A numeric getter and a duration capture a run of decimal digits of any script and of points, as long
as it may be. Of such a run a number is made exactly if its digits are ASCII digits, it has at least
one of them and at most one point, and its value does not overflow; it is then the nearest number.
Milliseconds are a run of ASCII digits alone whose value is below `2 ^ 64`. Each other run is
complained about once, and nothing is bound.
-/

namespace DesignTokens

/-! ## Runs -/

/-- What a numeric getter or a duration captures. -/
structure IsRun (run : List Char) : Prop where
  nonempty : run ≠ []
  decimal : ∀ c ∈ run, PlainValue.IsDecimal c

/-- How a number is written: in ASCII digits, at least one, with at most one point. -/
structure IsNumberText (run : List Char) : Prop where
  ascii : ∀ c ∈ run, Text.isAsciiDigit c = true ∨ c = '.'
  digit : ∃ c ∈ run, Text.isAsciiDigit c = true
  point : run.count '.' ≤ 1

/-- The value that digits show, with the point where it is. -/
def shownValue (run : List Char) : ℚ :=
  Nat.ofDigitChars 10 (run.filter (· ≠ '.')) 0 / 10 ^ (run.dropWhile (· ≠ '.')).tail.length

theorem PlainValue.not_blank {c : Char} (h : PlainValue.IsDecimal c) : Text.isBlank c = false := by
  rw [← Bool.not_eq_true]
  intro hblank
  rcases h with hdigit | rfl
  · rw [Text.isDecimalDigit_of_isBlank hblank] at hdigit
    cases hdigit
  · exact absurd hblank (by decide)

theorem point_not_mem {s : List Char} (h : ∀ c ∈ s, Text.isAsciiDigit c = true) : '.' ∉ s :=
  fun hpoint => absurd (h '.' hpoint) (by decide)

theorem shownValue_whole {s : List Char} (hs : '.' ∉ s) :
    shownValue s = Nat.ofDigitChars 10 s 0 := by
  have hall : ∀ c ∈ s, decide (c ≠ '.') = true :=
    fun c hc => decide_eq_true (ne_of_mem_of_not_mem hc hs)
  rw [shownValue, List.filter_eq_self.2 hall, List.dropWhile_eq_nil_iff.2 hall, List.tail_nil,
    List.length_nil, pow_zero, div_one]

theorem shownValue_pointed {s t : List Char} (hs : '.' ∉ s) (ht : '.' ∉ t) :
    shownValue (s ++ '.' :: t) = Nat.ofDigitChars 10 (s ++ t) 0 / 10 ^ t.length := by
  have hall {s : List Char} (hs : '.' ∉ s) : ∀ c ∈ s, decide (c ≠ '.') = true :=
    fun c hc => decide_eq_true (ne_of_mem_of_not_mem hc hs)
  have hfilter : ('.' :: t).filter (· ≠ '.') = t :=
    (List.filter_cons_of_neg (by decide)).trans (List.filter_eq_self.2 (hall ht))
  have hdrop : ('.' :: t).dropWhile (· ≠ '.') = '.' :: t :=
    List.dropWhile_cons_of_neg (by decide)
  rw [shownValue, List.filter_append, hfilter, List.filter_eq_self.2 (hall hs),
    List.dropWhile_append_of_pos (hall hs), hdrop, List.tail_cons]

/-! ## Runs as literals -/

namespace UnsignedLiteral

variable {u : UnsignedLiteral} (hu : u.exponent = none)

theorem chars_of_exponent_none (hu : u.exponent = none) : u.chars = u.whole ++ u.pointed := by
  rw [chars, ending, hu, Option.map_none, Option.getD_none, List.append_nil]

/-- The two forms of a literal without an exponent. -/
theorem exists_chars_eq (hu : u.exponent = none) :
    (u.chars = u.whole ∧ u.fraction.getD [] = []) ∨
      ∃ fraction, u.chars = u.whole ++ '.' :: fraction ∧ u.fraction.getD [] = fraction := by
  rw [chars_of_exponent_none hu, pointed]
  cases u.fraction with
  | none => exact .inl ⟨List.append_nil _, rfl⟩
  | some fraction => exact .inr ⟨fraction, rfl, rfl⟩

include hu

theorem isNumberText : IsNumberText u.chars := by
  have hwhole : ∀ c ∈ u.whole, Text.isAsciiDigit c = true :=
    fun c hc => u.ascii c (List.mem_append_left _ hc)
  have hfraction : ∀ c ∈ u.fraction.getD [], Text.isAsciiDigit c = true :=
    fun c hc => u.ascii c (List.mem_append_right _ hc)
  obtain ⟨d, hd⟩ := List.exists_mem_of_ne_nil _ u.nonempty
  rcases exists_chars_eq hu with ⟨hchars, hnil⟩ | ⟨fraction, hchars, rfl⟩
  · rw [hnil, List.append_nil] at hd
    rw [hchars]
    refine ⟨fun c hc => .inl (hwhole c hc), ⟨d, hd, hwhole d hd⟩, ?_⟩
    rw [List.count_eq_zero.2 (point_not_mem hwhole)]
    exact Nat.zero_le 1
  · rw [hchars]
    refine ⟨fun c hc => ?_, ⟨d, ?_, u.ascii d hd⟩, ?_⟩
    · rcases List.mem_append.1 hc with hc | hc
      · exact .inl (hwhole c hc)
      · rcases List.mem_cons.1 hc with rfl | hc
        · exact .inr rfl
        · exact .inl (hfraction c hc)
    · rcases List.mem_append.1 hd with hd | hd
      · exact List.mem_append_left _ hd
      · exact List.mem_append_right _ (List.mem_cons_of_mem _ hd)
    · rw [List.count_append, List.count_cons_self, List.count_eq_zero.2 (point_not_mem hwhole),
        List.count_eq_zero.2 (point_not_mem hfraction)]

theorem shownValue_chars : shownValue u.chars =
    decimalValue u.digits * 10 ^ (-(u.fraction.getD []).length : Int) := by
  have hwhole : '.' ∉ u.whole := point_not_mem fun c hc => u.ascii c (List.mem_append_left _ hc)
  have hfraction : '.' ∉ u.fraction.getD [] :=
    point_not_mem fun c hc => u.ascii c (List.mem_append_right _ hc)
  rw [digits, decimalValue_eq]
  rcases exists_chars_eq hu with ⟨hchars, hnil⟩ | ⟨fraction, hchars, rfl⟩
  · rw [hchars, hnil, shownValue_whole hwhole, List.append_nil, List.length_nil, Nat.cast_zero,
      neg_zero, zpow_zero, mul_one]
  · rw [hchars, shownValue_pointed hwhole hfraction, zpow_neg, zpow_natCast, div_eq_mul_inv]

theorem value_of_exponent_none : (u.literal false).value =
    .ofDecimal false (decimalValue u.digits) (-(u.fraction.getD []).length) := by
  rw [DecimalLiteral.value, literal, hu, Option.map_none, Option.getD_none, Int.zero_sub]
  rfl

theorem isFinite_iff : (u.literal false).value.isFinite = true ↔
    shownValue u.chars < Binary64.overflow := by
  rw [value_of_exponent_none hu, shownValue_chars hu, Binary64.isFinite_ofDecimal_iff]

theorem isNearest (hfinite : (u.literal false).value.isFinite = true) :
    Binary64.IsNearest (shownValue u.chars) (u.literal false).value := by
  rw [value_of_exponent_none hu] at hfinite ⊢
  rw [shownValue_chars hu]
  exact Binary64.isNearest_ofDecimal _ _ _ hfinite

end UnsignedLiteral

/-- A number text is an unsigned literal without an exponent. -/
theorem IsNumberText.exists_unsigned {run : List Char} (h : IsNumberText run) :
    ∃ u : UnsignedLiteral, u.exponent = none ∧ u.chars = run := by
  have hdigits {s : List Char} (hs : s ⊆ run) (hpoint : '.' ∉ s) :
      ∀ c ∈ s, Text.isAsciiDigit c = true := fun c hc =>
    (h.ascii c (hs hc)).resolve_right (ne_of_mem_of_not_mem hc hpoint)
  obtain ⟨d, hd, hdigit⟩ := h.digit
  by_cases hpoint : '.' ∈ run
  · obtain ⟨whole, fraction, rfl, hwhole⟩ := List.eq_append_cons_of_mem hpoint
    have hcount := h.point
    rw [List.count_append, List.count_cons_self, List.count_eq_zero.2 hwhole] at hcount
    have hfraction : '.' ∉ fraction := List.count_eq_zero.1 (by omega)
    refine ⟨⟨whole, some fraction, none, ?_, ?_⟩, rfl, ?_⟩
    · rintro hnil
      obtain ⟨rfl, rfl⟩ := List.append_eq_nil_iff.1 hnil
      rw [List.mem_singleton.1 hd] at hdigit
      exact absurd hdigit (by decide)
    · exact List.forall_mem_append.2
        ⟨hdigits (fun c hc => List.mem_append_left _ hc) hwhole,
          hdigits (fun c hc => List.mem_append_right _ (List.mem_cons_of_mem _ hc)) hfraction⟩
    · rw [UnsignedLiteral.chars_of_exponent_none rfl]
      rfl
  · refine ⟨⟨run, none, none, ?_, ?_⟩, rfl, ?_⟩
    · rw [Option.getD_none, List.append_nil]
      exact List.ne_nil_of_mem hd
    · rw [Option.getD_none, List.append_nil]
      exact hdigits (List.Subset.refl run) hpoint
    · rw [UnsignedLiteral.chars_of_exponent_none rfl]
      exact List.append_nil run

namespace Capture

/-- What is read from a run is an unsigned literal without an exponent. -/
theorem exists_unsigned_of_run {run : List Char} (hrun : ∀ c ∈ run, PlainValue.IsDecimal c)
    {x : Binary64} (h : readNumber run = some x) : ∃ u : UnsignedLiteral,
      u.exponent = none ∧ u.chars = run ∧ (u.literal false).value = x ∧ x.isFinite = true := by
  obtain ⟨sign, u, hpadded, hvalue, hfinite⟩ := readNumber_eq_some_iff.1 h
  -- a run has no blanks, no signs and no letters
  have hchars : run = sign.chars ++ u.chars := by
    rw [← Text.trim_of_padded hpadded fun c hc => (u.not_blank sign c hc).1]
    exact (Text.trim_eq_self fun c hc => PlainValue.not_blank (hrun c hc)).symm
  have hnot {c : Char} (hc : ¬ PlainValue.IsDecimal c) : c ∉ run := fun hm => hc (hrun c hm)
  have hsign : sign = .none := by
    cases sign with
    | none => rfl
    | plus => exact absurd (hchars ▸ List.mem_cons_self) (hnot (c := '+') (by decide +kernel))
    | minus => exact absurd (hchars ▸ List.mem_cons_self) (hnot (c := '-') (by decide +kernel))
  subst hsign
  refine ⟨u, ?_, hchars.symm, hvalue, hfinite⟩
  cases hexponent : u.exponent with
  | none => rfl
  | some e =>
    have hmark : e.mark ∈ run := by
      rw [hchars, UnsignedLiteral.chars, UnsignedLiteral.ending, hexponent]
      exact List.mem_append_right _ (List.mem_append_right _
        (List.mem_append_right _ List.mem_cons_self))
    rcases e.marks with he | he
    · exact absurd (he ▸ hmark) (hnot (by decide +kernel))
    · exact absurd (he ▸ hmark) (hnot (by decide +kernel))

/-- **What becomes of a run that should be a number.** -/
theorem readNumber_run {run : List Char} (hrun : ∀ c ∈ run, PlainValue.IsDecimal c) :
    (IsNumberText run ∧ shownValue run < Binary64.overflow →
        ∃ x, readNumber run = some x ∧ x.negative = false ∧
          Binary64.IsNearest (shownValue run) x) ∧
      (¬ (IsNumberText run ∧ shownValue run < Binary64.overflow) → readNumber run = none) := by
  constructor
  · rintro ⟨htext, hvalue⟩
    obtain ⟨u, hu, rfl⟩ := htext.exists_unsigned
    have hfinite := (UnsignedLiteral.isFinite_iff hu).2 hvalue
    exact ⟨_, @readNumber_signed .none u hfinite, rfl, UnsignedLiteral.isNearest hu hfinite⟩
  · intro hnot
    rw [Option.eq_none_iff_forall_ne_some]
    intro x hx
    obtain ⟨u, hu, rfl, rfl, hfinite⟩ := exists_unsigned_of_run hrun hx
    exact hnot ⟨UnsignedLiteral.isNumberText hu, (UnsignedLiteral.isFinite_iff hu).1 hfinite⟩

theorem readMilliseconds_run {run : List Char} (hne : run ≠ [])
    (hrun : ∀ c ∈ run, PlainValue.IsDecimal c) : readMilliseconds run =
      if run.all Text.isAsciiDigit = true ∧ Nat.ofDigitChars 10 run 0 < 2 ^ 64 then
        some (Nat.ofDigitChars 10 run 0) else none := by
  have htrim : Text.trim run = run :=
    Text.trim_eq_self fun c hc => PlainValue.not_blank (hrun c hc)
  simp only [readMilliseconds, htrim, hne, ne_eq, not_false_eq_true, true_and, decimalValue_eq]
  rw [ite_and]
  rfl

end Capture

/-! ## What becomes of a run -/

namespace Hit

/-- What a numeric getter does: it binds the nearest number, or it complains once. -/
inductive NumberOutcome (h : Hit) (run : List Char) : List Effect → Prop
  | bound {x : Binary64} (htext : IsNumberText run) (hvalue : shownValue run < Binary64.overflow)
      (hnegative : x.negative = false) (hnearest : Binary64.IsNearest (shownValue run) x) :
      NumberOutcome h run [.bind h.name (.number x)]
  | refused (hnot : ¬ (IsNumberText run ∧ shownValue run < Binary64.overflow)) :
      NumberOutcome h run
        [.warn (h.complaint .malformedNumber "Numeric value could not be parsed" run)]

/-- What a duration does: it binds the milliseconds that its digits show, or it complains once. -/
inductive DurationOutcome (h : Hit) (run : List Char) : List Effect → Prop
  | bound (hascii : ∀ c ∈ run, Text.isAsciiDigit c = true)
      (hvalue : Nat.ofDigitChars 10 run 0 < 2 ^ 64) :
      DurationOutcome h run
        [.bind (h.name ++ "_duration") (.integer (Nat.ofDigitChars 10 run 0))]
  | refused (hnot : ¬ ((∀ c ∈ run, Text.isAsciiDigit c = true) ∧
        Nat.ofDigitChars 10 run 0 < 2 ^ 64)) :
      DurationOutcome h run
        [.warn (h.complaint .malformedDuration
          "Duration is not a whole number of milliseconds" run)]

variable {h : Hit} {run : List Char}

theorem numberOutcome (hs : h.shape = .numeric) (hbody : h.body = run) (hrun : IsRun run) :
    h.NumberOutcome run h.effects := by
  obtain ⟨hread, hnone⟩ := Capture.readNumber_run hrun.decimal
  simp only [effects, hs, hbody]
  by_cases hnumber : IsNumberText run ∧ shownValue run < Binary64.overflow
  · obtain ⟨x, hx, hnegative, hnearest⟩ := hread hnumber
    simp only [hx, Option.map_some, bindOrWarn, String.append_empty]
    exact .bound hnumber.1 hnumber.2 hnegative hnearest
  · rw [hnone hnumber]
    exact .refused hnumber

theorem durationOutcome (hs : h.shape = .duration) (hbody : h.body = run) (hrun : IsRun run) :
    h.DurationOutcome run h.effects := by
  simp only [effects, hs, hbody, Capture.readMilliseconds_run hrun.nonempty hrun.decimal]
  split
  · rename_i hduration
    exact .bound (List.all_eq_true.1 hduration.1) hduration.2
  · rename_i hnot
    exact .refused fun h => hnot ⟨List.all_eq_true.2 h.1, h.2⟩

end Hit

/-- The ids of the rules for numbers. -/
def numericIds : List String := ["font_scale", "spacing_scale", "border_scale"]

theorem RuleDefinition.run_of_mem : ∀ g ∈ standardGetters,
    (g.definition.id ∈ numericIds →
        g.definition.shape = .numeric ∧ g.value = PlainValue.number.pattern) ∧
      (g.definition.id = "duration" →
        g.definition.shape = .duration ∧ g.value = PlainValue.milliseconds.pattern) := by
  decide +kernel

/-- The one capture of a rule for plain values. -/
theorem Hit.Of.exists_digits {g : GetterRule} {h : Hit} (hof : h.Of g) {v : PlainValue}
    (hvalue : g.value = v.pattern) :
    ∃ run, h.captures = [String.ofList run] ∧ h.body = run ∧ v.Holds run := by
  obtain ⟨t, gs, ht, hcaptures⟩ := hof.captures
  rw [hvalue] at ht
  obtain ⟨run, rfl, -, hholds⟩ := PlainValue.takes_inv ht
  have hcapture : h.captures = [String.ofList run] := hcaptures
  refine ⟨run, hcapture, ?_, hholds⟩
  rw [Hit.body, hcapture]
  exact String.toList_ofList

theorem Library.effects_extract {P : Type} [Matcher P] (lib : Library P) (source : String) :
    (lib.extract source).build.effects =
      (lib.scan source).hits.flatMap fun h => h.effects.map fun e => (h, e) := rfl

/-- **Digits and points become a token or one warning, by their form alone.** The effects of a
source are those of its hits. Each hit of a numeric getter and each duration has captured a run of
decimal digits and points. A number is bound exactly if the run is written as one and its value does
not overflow, and it is the nearest number; milliseconds are bound exactly if the run is of ASCII
digits and its value is below `2 ^ 64`. -/
theorem Library.run_bound_or_refused (source : String) :
    ((standard.extract source).build.effects =
        (standard.scan source).hits.flatMap fun h => h.effects.map fun e => (h, e)) ∧
      ∀ h ∈ (standard.scan source).hits,
        (h.rule ∈ numericIds → ∃ run, h.captures = [String.ofList run] ∧ IsRun run ∧
          h.NumberOutcome run h.effects) ∧
        (h.rule = "duration" → ∃ run, h.captures = [String.ofList run] ∧ IsRun run ∧
          h.DurationOutcome run h.effects) := by
  refine ⟨standard.effects_extract source, fun h hm => ?_⟩
  obtain ⟨g, hg, hof⟩ := Scan.of_mem_hits hm
  obtain ⟨hnumeric, hduration⟩ := RuleDefinition.run_of_mem g hg
  rw [hof.rule]
  constructor
  · intro hid
    obtain ⟨hshape, hvalue⟩ := hnumeric hid
    obtain ⟨run, hcaptures, hbody, hne, hdecimal⟩ := hof.exists_digits hvalue
    have hrun : IsRun run := ⟨hne, hdecimal⟩
    exact ⟨run, hcaptures, hrun, Hit.numberOutcome (hof.shape.trans hshape) hbody hrun⟩
  · intro hid
    obtain ⟨hshape, hvalue⟩ := hduration hid
    obtain ⟨run, hcaptures, hbody, hne, hdecimal⟩ := hof.exists_digits hvalue
    have hrun : IsRun run := ⟨hne, hdecimal⟩
    exact ⟨run, hcaptures, hrun, Hit.durationOutcome (hof.shape.trans hshape) hbody hrun⟩

/-- The greatest duration, with a zero in front of it, and a number with two points. -/
def durationAtLimit : String :=
  "Duration get a => const Duration(milliseconds: 018446744073709551615)\ndouble get b => 1.5."

theorem Library.run_bound_or_refused_at_limit :
    ((standard.scan durationAtLimit).hits.map fun h => (h.rule, h.effects.map Effect.binding?)) =
        [("spacing_scale", [none]),
          ("duration", [some ("a_duration", .integer 18446744073709551615)])] ∧
      ∀ h ∈ (standard.scan durationAtLimit).hits,
        (h.rule ∈ numericIds → ∃ run, h.captures = [String.ofList run] ∧ IsRun run ∧
          h.NumberOutcome run h.effects) ∧
        (h.rule = "duration" → ∃ run, h.captures = [String.ofList run] ∧ IsRun run ∧
          h.DurationOutcome run h.effects) := by
  refine ⟨?_, (Library.run_bound_or_refused durationAtLimit).2⟩
  rw [Scan.hits_standard]
  decide +kernel

end DesignTokens
