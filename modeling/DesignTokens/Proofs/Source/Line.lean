import DesignTokens.Proofs.Source.Calm
import DesignTokens.Proofs.Source.Getter

/-!
# Lines of getters

Each part of a line has few kinds of characters: words, digits and some punctuation. So a part is
apart from the characters that end it, a line has no line feed, and what stands behind the name is
calm. This is all that the patterns depend on.
-/

namespace DesignTokens

/-! ## Characters of parts -/

theorem Word.nonempty (w : Word) : w.text.toList ≠ [] := w.name.nonempty

theorem Word.not_mem (w : Word) {c : Char} (hc : Text.isWord c = false) : c ∉ w.text.toList :=
  w.name.not_mem hc

namespace Literal

theorem digit_or_point (l : Literal) {c : Char} (hc : c ∈ l.chars) :
    Text.isAsciiDigit c = true ∨ c = '.' := by
  rcases List.mem_append.1 hc with hc | hc
  · exact .inl (l.digits c (List.mem_append_left _ hc))
  · split at hc
    · cases hc
    · rcases List.mem_cons.1 hc with rfl | hc
      · exact .inr rfl
      · exact .inl (l.digits c (List.mem_append_right _ hc))

theorem not_mem (l : Literal) {c : Char} (hc : Text.isAsciiDigit c = false) (hp : c ≠ '.') :
    c ∉ l.chars := by
  intro hm
  rcases l.digit_or_point hm with hd | hd
  · rw [hc] at hd
    cases hd
  · exact hp hd

theorem chars_ne (l : Literal) : l.chars ≠ [] := by
  rw [chars, Ne, List.append_eq_nil_iff, not_and]
  intro h
  exact absurd h l.nonempty

theorem has_decimal (l : Literal) : ∀ c ∈ l.chars, CharClass.decimal.has c = true := by
  intro c hc
  rw [CharClass.has_decimal]
  rcases l.digit_or_point hc with hd | rfl
  · rw [Text.isDecimalDigit_of_isAsciiDigit hd, Bool.true_or]
  · rfl

theorem calm (l : Literal) : Calm l.chars := by
  apply calm_of_not_mem (l.not_mem (by decide) (by decide))
  intro hg
  exact l.not_mem (by decide) (by decide) (List.mem_of_mem_head? hg)

end Literal

namespace SignedLiteral

theorem not_mem (l : SignedLiteral) {c : Char} (hc : Text.isAsciiDigit c = false) (hp : c ≠ '.')
    (hm : c ≠ '-') : c ∉ l.chars := by
  rw [chars, List.mem_append, not_or]
  refine ⟨?_, l.magnitude.not_mem hc hp⟩
  split
  · exact fun h => hm (List.mem_singleton.1 h)
  · exact List.not_mem_nil

theorem calm (l : SignedLiteral) : Calm l.chars := by
  apply calm_of_not_mem (l.not_mem (by decide) (by decide) (by decide))
  intro hg
  exact l.not_mem (by decide) (by decide) (by decide) (List.mem_of_mem_head? hg)

end SignedLiteral

namespace HexColor

theorem not_mem (x : HexColor) {c : Char} (hc : Text.isHexDigit c = false) : c ∉ x.chars := by
  intro hm
  have hh := x.hex c hm
  rw [hc] at hh
  cases hh

theorem length_chars (x : HexColor) : x.chars.length = if x.alpha = [] then 6 else 8 := by
  have hrgb := x.rgb_length
  rw [chars, List.length_append]
  split
  · rename_i h
    rw [h, List.length_nil]
    omega
  · rename_i h
    have hpos : 0 < x.alpha.length := List.length_pos_of_ne_nil h
    rcases x.alpha_length with ha | ha <;> omega

theorem has_hex (x : HexColor) : ∀ c ∈ x.chars, CharClass.hex.has c = true := by
  intro c hc
  rw [CharClass.has_hex]
  exact x.hex c hc

theorem calm (x : HexColor) : Calm x.chars := by
  apply calm_of_not_mem (x.not_mem (by decide))
  intro hg
  exact x.not_mem (by decide) (List.mem_of_mem_head? hg)

theorem calm_stop (x : HexColor) : Calm x.stop :=
  calm_append (calm_append (by decide) x.calm) (by decide)

end HexColor

/-! ## What parts are made of -/

/-- A text of word characters and some others. -/
def MadeOf (others : List Char) (t : List Char) : Prop :=
  ∀ c ∈ t, Text.isWord c = true ∨ c ∈ others

namespace MadeOf

variable {others : List Char}

theorem not_mem {t : List Char} (h : MadeOf others t) {c : Char} (hc : Text.isWord c = false)
    (ho : c ∉ others) : c ∉ t := by
  intro hm
  rcases h c hm with hw | hm
  · rw [hc] at hw
    cases hw
  · exact ho hm

theorem append {t u : List Char} (ht : MadeOf others t) (hu : MadeOf others u) :
    MadeOf others (t ++ u) :=
  fun c hc => (List.mem_append.1 hc).elim (ht c) (hu c)

theorem mono {t more : List Char} (h : MadeOf others t) (hs : others ⊆ more) : MadeOf more t :=
  fun c hc => (h c hc).imp_right (hs ·)

theorem flatMap {α : Type} {f : α → List Char} (h : ∀ a, MadeOf others (f a)) (l : List α) :
    MadeOf others (l.flatMap f) := by
  intro c hc
  rcases List.mem_flatMap.1 hc with ⟨a, -, hc⟩
  exact h a c hc

theorem separated {ts : List (List Char)} (hs : MadeOf others ", ".toList)
    (h : ∀ t ∈ ts, MadeOf others t) : MadeOf others (separated ts) := by
  induction ts with
  | nil => exact fun c hc => absurd hc List.not_mem_nil
  | cons t ts ih =>
    have ht := h t List.mem_cons_self
    cases ts with
    | nil => exact ht
    | cons u ts => exact (ht.append hs).append (ih fun v hv => h v (List.mem_cons_of_mem t hv))

-- A fixed text can be checked.
theorem of_all {t : List Char} (h : (t.all fun c => Text.isWord c || others.contains c) = true) :
    MadeOf others t := by
  intro c hc
  have hor := List.all_eq_true.1 h c hc
  rw [Bool.or_eq_true, List.contains_iff_mem] at hor
  exact hor

end MadeOf

theorem Word.madeOf (w : Word) (others : List Char) : MadeOf others w.text.toList :=
  fun c hc => .inl (w.name.word c hc)

theorem Literal.madeOf (l : Literal) {others : List Char} (h : '.' ∈ others) :
    MadeOf others l.chars := by
  intro c hc
  rcases l.digit_or_point hc with hd | rfl
  · exact .inl (Text.isWord_of_isAsciiDigit hd)
  · exact .inr h

theorem SignedLiteral.madeOf (l : SignedLiteral) {others : List Char} (hp : '.' ∈ others)
    (hm : '-' ∈ others) : MadeOf others l.chars := by
  refine MadeOf.append ?_ (l.magnitude.madeOf hp)
  split
  · exact fun c hc => .inr (List.mem_singleton.1 hc ▸ hm)
  · exact fun c hc => absurd hc List.not_mem_nil

theorem HexColor.madeOf (x : HexColor) (others : List Char) : MadeOf others x.chars :=
  fun c hc => .inl (Text.isWord_of_isHexDigit (x.hex c hc))

theorem HexColor.madeOf_stop (x : HexColor) : MadeOf ['(', ')'] x.stop :=
  ((MadeOf.of_all (by decide)).append (x.madeOf _)).append (.of_all (by decide))

theorem StyleBody.madeOf (b : StyleBody) : MadeOf ['.', ':', ',', ' '] b.chars := by
  have hsize (l : Literal) : MadeOf ['.', ':', ',', ' '] (StyleBody.sizePart l) :=
    (MadeOf.of_all (by decide)).append (l.madeOf List.mem_cons_self)
  have hweight (w : Word) : MadeOf ['.', ':', ',', ' '] (StyleBody.weightPart w) :=
    (MadeOf.of_all (by decide)).append (w.madeOf _)
  cases b with
  | size l => exact hsize l
  | weight w => exact hweight w
  | both l w => exact ((hsize l).append (.of_all (by decide))).append (hweight w)

theorem ShadowBody.madeOf (b : ShadowBody) :
    MadeOf ['.', '-', ':', ',', ' ', '(', ')'] b.chars := by
  refine ((MadeOf.of_all (by decide)).append (.separated (.of_all (by decide)) ?_)).append
    (.of_all (by decide))
  intro t ht
  simp only [List.mem_append, Option.mem_toList, Option.map_eq_some_iff] at ht
  rcases ht with (⟨l, -, rfl⟩ | ⟨o, -, rfl⟩) | ⟨l, -, rfl⟩
  · exact (MadeOf.of_all (by decide)).append (l.madeOf (by decide))
  · have hsigned (l : SignedLiteral) : MadeOf ['.', '-', ':', ',', ' ', '(', ')'] l.chars :=
      l.madeOf (by decide) (by decide)
    exact ((MadeOf.of_all (by decide)).append
      (((hsigned o.1).append (.of_all (by decide))).append (hsigned o.2))).append
      (.of_all (by decide))
  · exact (MadeOf.of_all (by decide)).append (l.madeOf (by decide))

/-! ## Cores are calm -/

theorem calm_separated {ts : List (List Char)} (h : ∀ t ∈ ts, Calm t) : Calm (separated ts) := by
  induction ts with
  | nil => exact .singleton ' '
  | cons t ts ih =>
    have ht := h t List.mem_cons_self
    cases ts with
    | nil => exact ht
    | cons u ts =>
      have hrest := ih fun v hv => h v (List.mem_cons_of_mem t hv)
      exact calm_append (calm_append ht (by decide)) hrest

namespace StyleBody

theorem calm_sizePart (l : Literal) : Calm (sizePart l) := calm_append (by decide) l.calm

theorem calm_weightPart (w : Word) : Calm (weightPart w) :=
  calm_append_of_not_mem (by decide) (by decide) (w.not_mem (by decide))

theorem calm (b : StyleBody) : Calm b.chars := by
  cases b with
  | size l => exact calm_sizePart l
  | weight w => exact calm_weightPart w
  | both l w =>
    exact calm_append (calm_append (calm_sizePart l) (by decide)) (calm_weightPart w)

end StyleBody

namespace ShadowBody

theorem calm_blurPart (l : Literal) : Calm (blurPart l) := calm_append (by decide) l.calm

theorem calm_offsetPart (o : SignedLiteral × SignedLiteral) : Calm (offsetPart o) :=
  calm_append (calm_append (by decide)
    (calm_append (calm_append o.1.calm (by decide)) o.2.calm)) (by decide)

theorem calm_alphaPart (l : Literal) : Calm (alphaPart l) := calm_append (by decide) l.calm

theorem calm (b : ShadowBody) : Calm b.chars := by
  refine calm_append (calm_append (by decide) (calm_separated ?_)) (by decide)
  intro t ht
  simp only [List.mem_append, Option.mem_toList, Option.map_eq_some_iff] at ht
  rcases ht with (⟨l, -, rfl⟩ | ⟨o, -, rfl⟩) | ⟨l, -, rfl⟩
  · exact calm_blurPart l
  · exact calm_offsetPart o
  · exact calm_alphaPart l

end ShadowBody

theorem GetterKind.calm_before (k : GetterKind) : Calm k.before := by
  cases k <;> decide

theorem GetterKind.calm_behind (k : GetterKind) : Calm k.behind := by
  cases k <;> decide

namespace Getter

/-- What stands behind the name, up to the end of the line. -/
def tail (d : Getter) : List Char :=
  " => ".toList ++ (d.kind.before ++ d.core) ++ d.kind.behind ++ [';']

theorem line_eq (d : Getter) :
    d.line = Pattern.lead d.kind.keyword.toList ++ (d.name.text.toList ++ d.tail) := by
  simp [line, tail, Pattern.lead]

-- A core is calm behind what stands in front of it.
theorem calm_value (d : Getter) : Calm (d.kind.before ++ d.core) := by
  have hb := d.kind.calm_before
  cases d with
  | color n x => exact calm_append hb x.calm
  | gradient n first others =>
    refine calm_append hb (calm_append first.calm_stop (calm_flatMap ?_ others))
    exact fun x => calm_append (by decide) x.calm_stop
  | number n l => exact calm_append hb l.calm
  | textStyle n body => exact calm_append hb body.calm
  | shadow n body => exact calm_append hb body.calm
  | duration n ms =>
    have hd {c : Char} (hc : Text.isAsciiDigit c = false) : c ∉ ms.digits := by
      intro hm
      rw [ms.ascii c hm] at hc
      cases hc
    have hg : 'g' ∉ ms.digits.head? := fun h => hd (by decide) (List.mem_of_mem_head? h)
    exact calm_append hb (calm_of_not_mem (hd (by decide)) hg)
  | curve n w =>
    have hlast : (' ' :: GetterKind.curve.before).getLast? ≠ some ' ' := by decide
    exact calm_append_of_not_mem hb hlast (w.not_mem (by decide))

theorem calm_tail (d : Getter) : Calm d.tail :=
  calm_append (calm_append (calm_append (by decide) d.calm_value) d.kind.calm_behind) (by decide)

theorem madeOf_gradient (first : HexColor) (others : List HexColor) :
    MadeOf ['(', ')', ',', ' '] (first.stop ++ others.flatMap fun x => ", ".toList ++ x.stop) :=
  (first.madeOf_stop.mono (by decide)).append
    (.flatMap (fun x => .append (.of_all (by decide)) (x.madeOf_stop.mono (by decide))) others)

-- A line has no line feed.
theorem not_mem_line (d : Getter) : '\n' ∉ d.line := by
  have hcore : '\n' ∉ d.core := by
    cases d with
    | color n x => exact (x.madeOf []).not_mem (by decide) (by decide)
    | gradient n first others =>
      exact (madeOf_gradient first others).not_mem (by decide) (by decide)
    | number n l => exact l.not_mem (by decide) (by decide)
    | textStyle n body => exact body.madeOf.not_mem (by decide) (by decide)
    | shadow n body => exact body.madeOf.not_mem (by decide) (by decide)
    | duration n ms =>
      intro h
      exact absurd (ms.ascii _ h) (by decide)
    | curve n w => exact w.not_mem (by decide)
  have hbefore : '\n' ∉ d.kind.before := by cases d.kind <;> decide
  have hbehind : '\n' ∉ d.kind.behind := by cases d.kind <;> decide
  have hkeyword : '\n' ∉ d.kind.keyword.toList := by cases d.kind <;> decide
  have hname : '\n' ∉ d.name.text.toList := d.name.not_mem (by decide)
  simp only [line, List.mem_append, not_or]
  exact ⟨⟨⟨⟨⟨⟨⟨hkeyword, by decide⟩, hname⟩, by decide⟩, hbefore⟩, hcore⟩, hbehind⟩, by decide⟩

end Getter

end DesignTokens
