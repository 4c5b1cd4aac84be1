import DesignTokens.Proofs.Document.FontSize
import DesignTokens.Proofs.Extract.LineIndex
import DesignTokens.Proofs.Source.Detail
import DesignTokens.Proofs.Source.Read
import Mathlib.Data.List.TakeWhile

/-!
# Text styles with other arguments

The arguments of a text style may stand in any order, and there may be others than its size and its
weight. What the rule takes of a text style ends at the first closing bracket, though, and this may
be the end of a call within an argument. So the size and the weight are found exactly if no bracket
closes in front of them, and their order does not matter exactly if no argument has a bracket.
-/

namespace DesignTokens

/-! ## Texts within texts -/

-- A text without a certain character stands on one side of it.
theorem infix_of_append_cons {l t u : List Char} {c : Char} (hc : c ∉ l)
    (h : l <:+: t ++ c :: u) : l <:+: t ∨ l <:+: u := by
  have hnil {s : List Char} (hs : c ∉ s) (h : s <+: c :: u) : s = [] := by
    cases s with
    | nil => rfl
    | cons d s =>
      rw [List.cons_prefix_cons] at h
      exact absurd (List.mem_cons.2 (.inl h.1.symm)) hs
  rcases List.infix_append_iff.1 h with h | h | ⟨s, s', rfl, hs, hs'⟩
  · exact .inl h
  · rcases List.infix_cons_iff.1 h with h | h
    · rw [hnil hc h]
      exact .inl List.nil_infix
    · exact .inr h
  · -- what reaches over to the other side is empty
    rw [List.mem_append, not_or] at hc
    rw [hnil hc.2 hs', List.append_nil]
    exact .inl hs.isInfix

theorem infix_of_cons {l t : List Char} {c : Char} (hne : l ≠ []) (hc : c ∉ l.head?)
    (h : l <:+: c :: t) : l <:+: t := by
  rcases List.infix_cons_iff.1 h with h | h
  · cases l with
    | nil => exact absurd rfl hne
    | cons d l =>
      rw [(List.cons_prefix_cons.1 h).1] at hc
      exact absurd rfl hc
  · exact h

theorem exists_eq_takeWhile_append (c : Char) (t : List Char) :
    ∃ rest, t ++ [c] = t.takeWhile (· ≠ c) ++ ([c] ++ rest) := by
  induction t with
  | nil => exact ⟨[], rfl⟩
  | cons d t ih =>
    by_cases hd : d = c
    · exact ⟨t ++ [c], by simp [hd]⟩
    · rcases ih with ⟨rest, hrest⟩
      refine ⟨rest, ?_⟩
      rw [List.takeWhile_cons_of_pos (by simpa using hd), List.cons_append, hrest]
      rfl

section Listed

variable {l : List Char} {ts : List (List Char)}

theorem separated_isPrefix (ts : List (List Char)) :
    separated ts <+: ts.flatMap (· ++ ", ".toList) := by
  induction ts with
  | nil => exact List.prefix_refl _
  | cons t ts ih =>
    cases ts with
    | nil =>
      rw [List.flatMap_singleton]
      exact List.prefix_append ..
    | cons u ts => exact (List.prefix_append_right_inj _).2 ih

theorem separated_cons (t : List Char) (ts : List (List Char)) :
    separated (t :: ts) = t ++ ts.flatMap (", ".toList ++ ·) := by
  induction ts generalizing t with
  | nil => exact (List.append_nil t).symm
  | cons u ts ih =>
    show t ++ ", ".toList ++ separated (u :: ts) = _
    rw [ih, List.flatMap_cons, List.append_assoc, List.append_assoc]

theorem separated_append_cons (ts : List (List Char)) (t : List Char) (us : List (List Char)) :
    separated (ts ++ t :: us) =
      ts.flatMap (· ++ ", ".toList) ++ (t ++ us.flatMap (", ".toList ++ ·)) := by
  induction ts with
  | nil => exact separated_cons t us
  | cons s ts ih =>
    have hcons : separated (s :: (ts ++ t :: us)) =
        s ++ ", ".toList ++ separated (ts ++ t :: us) := by
      cases ts <;> rfl
    rw [List.cons_append, hcons, ih, List.flatMap_cons, List.append_assoc (s ++ _)]

-- A text that has neither a comma nor a space in front stands within one of the texts.
theorem exists_infix_of_listed (hne : l ≠ []) (hcomma : ',' ∉ l) (hspace : ' ' ∉ l.head?)
    (h : l <:+: ts.flatMap (· ++ ", ".toList)) : ∃ t ∈ ts, l <:+: t := by
  induction ts with
  | nil => exact absurd (List.infix_nil.1 h) hne
  | cons t ts ih =>
    rw [List.flatMap_cons, List.append_assoc] at h
    rcases infix_of_append_cons hcomma h with h | h
    · exact ⟨t, List.mem_cons_self, h⟩
    · rcases ih (infix_of_cons hne hspace h) with ⟨u, hu, h⟩
      exact ⟨u, List.mem_cons_of_mem t hu, h⟩

open Pattern in
theorem clear_listed (hcomma : ',' ∉ l) (hspace : ' ' ∉ l) (h : ∀ t ∈ ts, ¬ l <:+: t)
    (p : Pattern) (rest : List Char) :
    Clear (preceded l p) (ts.flatMap (· ++ ", ".toList)) rest := by
  induction ts with
  | nil => exact clear_nil _ rest
  | cons t ts ih =>
    have hne : l ≠ [] := fun hl => h t List.mem_cons_self (hl ▸ List.nil_infix)
    have hblank : Clear (preceded l p) [' '] (ts.flatMap (· ++ ", ".toList) ++ rest) :=
      clear_of_absent hspace (fun hl => hne (List.infix_nil.1 hl)) p _
    have ht := clear_append (clear_of_absent hcomma (h t List.mem_cons_self) p _) hblank
    rw [List.append_assoc] at ht
    rw [List.flatMap_cons]
    exact clear_append ht (ih fun u hu => h u (List.mem_cons_of_mem t hu))

end Listed

/-! ## Arguments -/

/-- A named argument. -/
structure StyleArgument where
  key : List Char
  value : List Char
deriving DecidableEq, Repr

def StyleArgument.text (a : StyleArgument) : List Char := a.key ++ (": ".toList ++ a.value)

/-- Whether round brackets match, where some are open already. -/
def isBalanced : Nat → List Char → Bool
  | depth, [] => depth == 0
  | depth, c :: t =>
    if c = '(' then isBalanced (depth + 1) t
    else if c = ')' then depth != 0 && isBalanced (depth - 1) t
    else isBalanced depth t

-- Where no bracket closes, none is open and none opens.
theorem depth_eq_zero_of_isBalanced {depth : Nat} {t : List Char} (h : isBalanced depth t = true)
    (hclose : ')' ∉ t) : depth = 0 ∧ '(' ∉ t := by
  induction t generalizing depth with
  | nil => exact ⟨beq_iff_eq.1 h, List.not_mem_nil⟩
  | cons c t ih =>
    rw [List.mem_cons, not_or] at hclose
    rw [isBalanced] at h
    split at h
    · exact absurd (ih h hclose.2).1 (Nat.succ_ne_zero depth)
    · rename_i hopen
      rw [if_neg (Ne.symm hclose.1)] at h
      have hrest := ih h hclose.2
      rw [List.mem_cons, not_or]
      exact ⟨hrest.1, Ne.symm hopen, hrest.2⟩

/-- Arguments with distinct names and balanced values, among them a size and a weight. -/
structure StyleArguments (args : List StyleArgument) (l : Literal) (w : List Char) : Prop where
  name : ∀ a ∈ args, Text.IsName a.key
  distinct : (args.map StyleArgument.key).Nodup
  balanced : ∀ a ∈ args, isBalanced 0 a.value = true
  unquoted : ∀ a ∈ args, '\'' ∉ a.value ∧ '"' ∉ a.value
  size : ⟨"fontSize".toList, l.chars⟩ ∈ args
  weight : ⟨"fontWeight".toList, "FontWeight.".toList ++ w⟩ ∈ args
  word : Text.IsName w

/-- Nothing else can be taken for the size, for the weight or for a getter of the typography. -/
structure Unmistakable (args : List StyleArgument) : Prop where
  size : ∀ a ∈ args, "fontSize:".toList <:+: a.text → a.key = "fontSize".toList
  weight : ∀ a ∈ args, "fontWeight:".toList <:+: a.text → a.key = "fontWeight".toList
  value : ∀ a ∈ args, ∀ keyword ∈ ["TextStyle", "double"],
    ¬ Pattern.lead keyword.toList <:+: a.value

theorem Unmistakable.perm {args others : List StyleArgument} (h : Unmistakable args)
    (hperm : others.Perm args) : Unmistakable others where
  size a ha := h.size a (hperm.subset ha)
  weight a ha := h.weight a (hperm.subset ha)
  value a ha := h.value a (hperm.subset ha)

-- Two letters and the spaces can be enough to see that nothing is mistaken.
theorem Unmistakable.of_letters {args : List StyleArgument}
    (h : ∀ a ∈ args, ('S' ∈ a.text → a.key = "fontSize".toList) ∧
      ('W' ∈ a.text → a.key = "fontWeight".toList) ∧ ' ' ∉ a.value) : Unmistakable args where
  size a ha hl := (h a ha).1 (hl.subset (by decide))
  weight a ha hl := (h a ha).2.1 (hl.subset (by decide))
  value a ha _ _ hl :=
    (h a ha).2.2 (hl.subset (List.mem_append_right _ List.mem_cons_self))

/-- A source with one text style. -/
def styleSource (name : Word) (args : List StyleArgument) : String :=
  String.ofList (Pattern.lead "TextStyle".toList ++ (name.text.toList ++ (" => ".toList
    ++ ("const TextStyle(".toList ++ (separated (args.map StyleArgument.text) ++ ");".toList)))))

namespace StyleArgument

/-- The arguments in front of the one with a name. -/
def inFront (key : List Char) (args : List StyleArgument) : List StyleArgument :=
  args.takeWhile fun a => a.key ≠ key

/-- No bracket closes in front of the argument with a name. -/
def Unclosed (key : List Char) (args : List StyleArgument) : Prop :=
  ∀ a ∈ inFront key args, ')' ∉ a.value

instance (key : List Char) (args : List StyleArgument) : Decidable (Unclosed key args) :=
  inferInstanceAs (Decidable (∀ a ∈ inFront key args, ')' ∉ a.value))

/-- What the rule takes of some arguments. -/
def cut (args : List StyleArgument) : List Char :=
  (separated (args.map text)).takeWhile (· ≠ ')')

theorem inFront_cons_of_ne {key : List Char} {a : StyleArgument} (h : a.key ≠ key)
    (args : List StyleArgument) : inFront key (a :: args) = a :: inFront key args :=
  List.takeWhile_cons_of_pos (decide_eq_true h)

theorem key_ne_of_mem_inFront {key : List Char} {args : List StyleArgument} {a : StyleArgument}
    (h : a ∈ inFront key args) : a.key ≠ key := by
  simpa using List.mem_takeWhile_imp h

theorem mem_of_mem_inFront {key : List Char} {args : List StyleArgument} {a : StyleArgument}
    (h : a ∈ inFront key args) : a ∈ args :=
  (List.takeWhile_prefix _).subset h

-- With distinct names, an argument stands right behind those in front of it.
theorem exists_eq_inFront_append {args : List StyleArgument}
    (hd : (args.map StyleArgument.key).Nodup) {a : StyleArgument} (ha : a ∈ args) :
    ∃ behind, args = inFront a.key args ++ a :: behind := by
  induction args with
  | nil => cases ha
  | cons b args ih =>
    have hnodup := List.nodup_cons.1 hd
    by_cases hb : b.key = a.key
    · have heq : b = a := List.inj_on_of_nodup_map hd List.mem_cons_self ha hb
      exact ⟨args, by simp [inFront, heq]⟩
    · have hmem : a ∈ args := (List.mem_cons.1 ha).resolve_left fun h => hb (by rw [h])
      rcases ih hnodup.2 hmem with ⟨behind, hbehind⟩
      refine ⟨behind, ?_⟩
      rw [inFront_cons_of_ne hb, List.cons_append]
      exact congrArg (b :: ·) hbehind

/-! ## What is taken of the arguments -/

theorem not_mem_cut (args : List StyleArgument) : ')' ∉ cut args := by
  intro h
  exact absurd (List.mem_takeWhile_imp h) (by decide)

theorem not_mem_text {a : StyleArgument} (hname : Text.IsName a.key) (h : ')' ∉ a.value) :
    ')' ∉ a.text := by
  rw [text, List.mem_append, List.mem_append, not_or, not_or]
  exact ⟨hname.not_mem (by decide), by decide, h⟩

-- Where no bracket closes, an argument is taken with all that stands in front of it.
theorem cut_of_not_mem {before : List StyleArgument} {a : StyleArgument}
    (hb : ∀ b ∈ before, ')' ∉ b.text) (ha : ')' ∉ a.text) (behind : List StyleArgument) :
    cut (before ++ a :: behind) = (before.map text).flatMap (· ++ ", ".toList)
      ++ (a.text ++ ((behind.map text).flatMap (", ".toList ++ ·)).takeWhile (· ≠ ')')) := by
  have hopen {t : List Char} (ht : ')' ∉ t) : ∀ c ∈ t, decide (c ≠ ')') = true :=
    fun c hc => decide_eq_true fun h => ht (h ▸ hc)
  have hfront : ')' ∉ (before.map text).flatMap (· ++ ", ".toList) := by
    intro h
    rcases List.mem_flatMap.1 h with ⟨t, ht, h⟩
    rcases List.mem_map.1 ht with ⟨b, hmem, rfl⟩
    rcases List.mem_append.1 h with h | h
    · exact hb b hmem h
    · exact absurd h (by decide)
  rw [cut, List.map_append, List.map_cons, separated_append_cons,
    List.takeWhile_append_of_pos (hopen hfront), List.takeWhile_append_of_pos (hopen ha)]

-- Where one closes in front of an argument, nothing of the argument is taken.
theorem cut_isPrefix {before : List StyleArgument} {b : StyleArgument} (hb : b ∈ before)
    (h : ')' ∈ b.text) (a : StyleArgument) (behind : List StyleArgument) :
    cut (before ++ a :: behind) <+: (before.map text).flatMap (· ++ ", ".toList) := by
  have hfront : ')' ∈ (before.map text).flatMap (· ++ ", ".toList) :=
    List.mem_flatMap.2 ⟨_, List.mem_map_of_mem hb, List.mem_append_left _ h⟩
  have hcut : cut (before ++ a :: behind) <+: separated ((before ++ a :: behind).map text) :=
    List.takeWhile_prefix _
  rw [List.map_append, List.map_cons, separated_append_cons] at hcut
  rcases List.prefix_or_prefix_of_prefix hcut (List.prefix_append ..) with hle | hle
  · exact hle
  · exact absurd (hle.subset hfront) (not_mem_cut _)

section Find

open Pattern

variable {args : List StyleArgument} {a : StyleArgument} {l raw : List Char} {q : Pattern}

-- A key that stands in no other argument is found exactly if its argument is taken.
theorem find?_cut (hne : l ≠ []) (hcomma : ',' ∉ l) (hspace : ' ' ∉ l)
    (hname : ∀ b ∈ args, Text.IsName b.key) (hd : (args.map key).Nodup) (ha : a ∈ args)
    (hclose : ')' ∉ a.value) (honly : ∀ b ∈ args, l <:+: b.text → b.key = a.key)
    (htakes : ∀ rest, (∀ c ∈ rest.head?, c = ',') →
      (preceded l q).TakesFirst a.text [some raw] rest) :
    Detail.find? (preceded l q) (cut args) = if Unclosed a.key args then some raw else none := by
  have hfront : ∀ t ∈ (inFront a.key args).map text, ¬ l <:+: t := by
    intro t ht hl
    rcases List.mem_map.1 ht with ⟨b, hb, rfl⟩
    exact key_ne_of_mem_inFront hb (honly b (mem_of_mem_inFront hb) hl)
  have hnames : ∀ b ∈ inFront a.key args, Text.IsName b.key :=
    fun b hb => hname b (mem_of_mem_inFront hb)
  have haname := hname a ha
  rcases exists_eq_inFront_append hd ha with ⟨behind, hsplit⟩
  by_cases hunclosed : Unclosed a.key args
  · rw [if_pos hunclosed]
    unfold Unclosed at hunclosed
    generalize inFront a.key args = before at *
    subst hsplit
    have hcut := cut_of_not_mem (fun b hb => not_mem_text (hnames b hb) (hunclosed b hb))
      (not_mem_text haname hclose) behind
    have hrest : ∀ c ∈ (((behind.map text).flatMap (", ".toList ++ ·)).takeWhile
        (· ≠ ')')).head?, c = ',' := by
      intro c hc
      cases behind with
      | nil => cases hc
      | cons b behind => exact (Option.some.inj hc).symm
    have htext : a.text ≠ [] := by
      intro h
      exact haname.nonempty (List.append_eq_nil_iff.1 h).1
    rw [hcut]
    exact Detail.find?_of_takesFirst (clear_listed hcomma hspace hfront q _) (htakes _ hrest) htext
  · rw [if_neg hunclosed]
    simp only [Unclosed, not_forall, not_not] at hunclosed
    rcases hunclosed with ⟨b, hb, hclosed⟩
    generalize inFront a.key args = before at *
    subst hsplit
    have htext : ')' ∈ b.text := List.mem_append_right _ (List.mem_append_right _ hclosed)
    have hcut := cut_isPrefix hb htext a behind
    have hnone : ¬ l <:+: cut (before ++ a :: behind) := by
      intro hl
      have hhead : ' ' ∉ l.head? := fun h => hspace (List.mem_of_mem_head? h)
      rcases exists_infix_of_listed hne hcomma hhead (hl.trans hcut.isInfix) with ⟨t, ht, hl⟩
      exact hfront t ht hl
    refine Detail.find?_eq_none (noWay_preceded (fun h => hne (List.prefix_nil.1 h)) q) ?_
    intro k _
    rw [List.append_nil]
    exact noWay_preceded
      (fun h => hnone (h.isInfix.trans (List.drop_suffix k _).isInfix)) q

end Find

end StyleArgument

namespace StyleArguments

open StyleArgument Pattern

variable {args : List StyleArgument} {l : Literal} {w : List Char}

theorem perm {others : List StyleArgument} (h : StyleArguments args l w)
    (hperm : others.Perm args) : StyleArguments others l w where
  name a ha := h.name a (hperm.subset ha)
  distinct := (hperm.map _).nodup_iff.2 h.distinct
  balanced a ha := h.balanced a (hperm.subset ha)
  unquoted a ha := h.unquoted a (hperm.subset ha)
  size := hperm.mem_iff.2 h.size
  weight := hperm.mem_iff.2 h.weight
  word := h.word

theorem find?_fontSize (h : StyleArguments args l w) (hu : Unmistakable args) :
    Detail.find? Detail.fontSize (cut args) =
      if Unclosed "fontSize".toList args then some l.chars else none := by
  rw [Detail.fontSize_eq]
  refine find?_cut (by decide) (by decide) (by decide) h.name h.distinct h.size
    (l.not_mem (by decide) (by decide)) hu.size fun rest hrest => ?_
  have hstops : Stops CharClass.decimal.has rest := by
    intro c hc
    rw [hrest c hc]
    decide
  exact StyleBody.takesFirst_sizePart l hstops

theorem find?_fontWeight (h : StyleArguments args l w) (hu : Unmistakable args) :
    Detail.find? Detail.fontWeight (cut args) =
      if Unclosed "fontWeight".toList args then some w else none := by
  have hclose : ')' ∉ "FontWeight.".toList ++ w := by
    rw [List.mem_append, not_or]
    exact ⟨by decide, h.word.not_mem (by decide)⟩
  rw [Detail.fontWeight_eq]
  refine find?_cut (by decide) (by decide) (by decide) h.name h.distinct h.weight
    hclose hu.weight fun rest hrest => ?_
  have hstops : Stops Text.isWord rest := by
    intro c hc
    rw [hrest c hc]
    decide
  exact StyleBody.takesFirst_weight h.word hstops

/-! ## The typography of the source -/

-- The start of a getter has spaces, none of them in front, and no punctuation.
theorem lead_typography {keyword : String} (hk : keyword ∈ ["TextStyle", "double"]) :
    ' ' ∈ lead keyword.toList ∧ ' ' ∉ (lead keyword.toList).head? ∧
      MadeOf [' '] (lead keyword.toList) := by
  refine ⟨List.mem_append_right _ List.mem_cons_self, ?_⟩
  rcases List.mem_cons.1 hk with rfl | hk
  · exact ⟨by decide, .of_all (by decide)⟩
  · rw [List.mem_singleton.1 hk]
    exact ⟨by decide, .of_all (by decide)⟩

-- No getter of the typography starts among the arguments.
theorem not_infix_lead (h : StyleArguments args l w) (hu : Unmistakable args) {keyword : String}
    (hk : keyword ∈ ["TextStyle", "double"]) :
    ¬ lead keyword.toList <:+: separated (args.map text) ++ [')'] := by
  rcases lead_typography hk with ⟨hspace, hhead, hmade⟩
  have hne : lead keyword.toList ≠ [] := List.ne_nil_of_mem hspace
  intro hl
  rcases infix_of_append_cons (hmade.not_mem (by decide) (by decide)) hl with hl | hl
  · have hlisted := hl.trans (separated_isPrefix _).isInfix
    rcases exists_infix_of_listed hne (hmade.not_mem (by decide) (by decide)) hhead hlisted
      with ⟨t, ht, hl⟩
    rcases List.mem_map.1 ht with ⟨a, ha, rfl⟩
    rcases infix_of_append_cons (hmade.not_mem (by decide) (by decide)) hl with hl | hl
    · exact (h.name a ha).not_mem (by decide) (hl.subset hspace)
    · exact hu.value a ha keyword hk (infix_of_cons hne hhead hl)
  · exact hne (List.infix_nil.1 hl)

/-- The hit of a text style. -/
def hit (name : Word) (args : List StyleArgument) : Hit :=
  ⟨.typography, "text_style", .textStyle, name.text, [String.ofList (cut args)], 1⟩

theorem cut_ne (h : StyleArguments args l w) : cut args ≠ [] := by
  have hmem := h.size
  cases args with
  | nil => cases hmem
  | cons a args =>
    have hkey := h.name a List.mem_cons_self
    cases hk : a.key with
    | nil => exact absurd hk hkey.nonempty
    | cons c t =>
      have hc : c ≠ ')' := by
        rintro rfl
        exact hkey.not_mem (by decide) (hk ▸ List.mem_cons_self)
      rw [cut, List.map_cons, separated_cons, text, hk, List.cons_append, List.cons_append,
        List.takeWhile_cons_of_pos (by simpa using hc)]
      exact List.cons_ne_nil _ _

theorem toList_styleSource (name : Word) (args : List StyleArgument) :
    (styleSource name args).toList = lead "TextStyle".toList ++ (name.text.toList ++ (" => ".toList
      ++ ("const TextStyle(".toList ++ (separated (args.map text) ++ ");".toList)))) :=
  String.toList_ofList

-- The rule for text styles accepts the text style with what is taken of its arguments.
theorem classify_hit (name : Word) (args : List StyleArgument) (source : List Char)
    (offset width : Nat) :
    (GetterRule.rule ⟨.textStyle, "TextStyle", styleValue⟩).classify (.of source)
      ⟨offset, 0, width, [some name.text.toList, some (cut args)]⟩ =
        some (.accepted (hit name args)) := by
  unfold Rule.classify
  simp only [String.ofList_toList, LineIndex.lineOf_of_zero]
  refine (if_neg Bool.false_ne_true).trans ?_
  rw [if_neg (Nat.not_lt.2 name.short)]
  rfl

-- The rule takes the source up to a bracket, and what is left belongs to the arguments.
theorem exists_toList_styleSource_eq (name : Word) (args : List StyleArgument) :
    ∃ rest, rest <:+ separated (args.map text) ++ [')'] ∧
      (styleSource name args).toList = lead "TextStyle".toList ++ (name.text.toList
        ++ (" => ".toList ++ ("const ".toList ++ ("TextStyle(".toList ++ (cut args ++ [')'])))))
          ++ (rest ++ [';']) := by
  rcases exists_eq_takeWhile_append ')' (separated (args.map text)) with ⟨rest, hrest⟩
  refine ⟨rest, ⟨cut args ++ [')'], by rw [hrest, cut, List.append_assoc]⟩, ?_⟩
  have hbehind : separated (args.map text) ++ ");".toList =
      cut args ++ ([')'] ++ (rest ++ [';'])) := by
    show separated (args.map text) ++ ([')'] ++ [';']) = _
    rw [← List.append_assoc, hrest]
    simp only [cut, List.append_assoc]
  have hconst : "const TextStyle(".toList = "const ".toList ++ "TextStyle(".toList := rfl
  simp only [toList_styleSource, hbehind, hconst, List.append_assoc]

theorem styleHits_source (h : StyleArguments args l w) (hu : Unmistakable args) (name : Word) :
    Scan.styleHits (styleSource name args) = [hit name args] := by
  rcases exists_toList_styleSource_eq name args with ⟨rest, hsuffix, htext⟩
  have htakes := takesFirst_getter "TextStyle" name.name
    (takesFirst_seq (takesFirst_maybeConst _) (takesFirst_preceded "TextStyle(".toList
      (takesFirst_enclosed h.cut_ne (not_mem_cut args) (rest ++ [';']))))
  have hlead : ¬ lead "TextStyle".toList <:+: rest :=
    fun hl => h.not_infix_lead hu (by decide) (hl.trans hsuffix.isInfix)
  have hclear : Clear (getter "TextStyle" styleValue) (rest ++ [';']) [] :=
    clear_of_absent (by decide) hlead _ _
  have hone := occurrences_of_takesFirst (noWay_getter_nil _ _) htakes
    (fun hnil => absurd (List.append_eq_nil_iff.1 hnil).1 (by decide)) hclear
  rw [← htext] at hone
  have hfilter : ((GetterRule.rule ⟨.textStyle, "TextStyle", styleValue⟩).pattern.occurrences
      (styleSource name args).toList).filterMap
        ((GetterRule.rule ⟨.textStyle, "TextStyle", styleValue⟩).classify
          (.of (styleSource name args).toList)) = [.accepted (hit name args)] :=
    (congrArg _ hone).trans (List.filterMap_cons_some (classify_hit ..))
  rw [Scan.styleHits, GetterRule.hits_eq_take, hfilter]
  exact List.take_of_length_le (show 1 ≤ hitLimit by decide)

-- Neither the name nor what follows it holds a metric.
theorem metricHits_source (h : StyleArguments args l w) (hu : Unmistakable args) (name : Word) :
    Scan.metricHits (styleSource name args) = [] := by
  have hline : ¬ lead "double".toList <:+: name.text.toList ++ (" => ".toList
      ++ ("const TextStyle(".toList ++ (separated (args.map text) ++ [')']))) := by
    have hsplit : name.text.toList ++ (" => ".toList ++ ("const TextStyle(".toList
        ++ (separated (args.map text) ++ [')']))) = name.text.toList ++ [' '] ++
          '=' :: ("> const TextStyle".toList ++ '(' :: (separated (args.map text) ++ [')'])) := by
      simp
    rw [hsplit]
    intro hl
    rcases infix_of_append_cons (by decide) hl with hl | hl
    · exact not_infix_of_calm (name.not_mem (by decide)) (by decide) ((infix_lead _).trans hl)
    · rcases infix_of_append_cons (by decide) hl with hl | hl
      · have hb : 'b' ∈ lead "double".toList := by decide
        exact absurd (hl.subset hb) (by decide)
      · exact h.not_infix_lead hu (by decide) hl
  have htext : (styleSource name args).toList = lead "TextStyle".toList ++ (name.text.toList
      ++ (" => ".toList ++ ("const TextStyle(".toList ++ (separated (args.map text) ++ [')'])))
        ++ [';']) := by
    have hclose : ");".toList = [')'] ++ [';'] := rfl
    simp only [toList_styleSource, hclose, List.append_assoc]
  have hclear : Clear (getter "double" amount) (styleSource name args).toList [] := by
    rw [htext]
    exact clear_append (clear_of_apart (by decide) _ _) (clear_of_absent (by decide) hline _ _)
  have hoccurrences : (GetterRule.rule ⟨.fontScale, "double", amount⟩).pattern.occurrences
      (styleSource name args).toList = [] :=
    occurrences_of_clear (noWay_getter_nil _ _) hclear
  rw [Scan.metricHits, GetterRule.hits_eq_take, hoccurrences, List.filterMap_nil,
    List.filterMap_nil, List.take_nil]

/-- The typography entries of a source, in order. -/
def typography (source : String) : List (String × TokenValue) :=
  ((Library.standard.extract source).build.model.table .typography).entries

def sizeEntry (name : Word) (l : Literal) : String × TokenValue :=
  (name.text ++ "_fontSize", .number l.value)

def weightEntry (name : Word) (w : List Char) : String × TokenValue :=
  (name.text ++ "_fontWeight", .symbol (String.ofList w))

theorem bindings_hit (h : StyleArguments args l w) (hu : Unmistakable args) (name : Word) :
    (hit name args).bindings =
      (if Unclosed "fontSize".toList args then [sizeEntry name l] else [])
        ++ if Unclosed "fontWeight".toList args then [weightEntry name w] else [] := by
  have hbody : (hit name args).body = cut args := String.toList_ofList
  rw [Hit.bindings_of_textStyle rfl, Hit.styleSize?, hbody, h.find?_fontSize hu,
    h.find?_fontWeight hu]
  congr 1
  · split
    · rw [Option.bind_some, Capture.readNumber_literal]
      rfl
    · rfl
  · split <;> rfl

theorem typography_source (h : StyleArguments args l w) (hu : Unmistakable args) (name : Word) :
    typography (styleSource name args) =
      (if Unclosed "fontSize".toList args then [sizeEntry name l] else [])
        ++ if Unclosed "fontWeight".toList args then [weightEntry name w] else [] := by
  have hne : (sizeEntry name l).1 ≠ (weightEntry name w).1 :=
    (Hit.append_fontSize_ne_append_fontWeight name.text name.text).symm
  rw [typography, Library.table_model_extract, Scan.bindingsIn_typography, h.metricHits_source hu,
    h.styleHits_source hu, List.flatMap_nil, List.flatMap_singleton, List.nil_append,
    h.bindings_hit hu]
  split
  · split
    · simp [TokenTable.ofBindings, TokenTable.insert, TokenTable.insertIn, TokenTable.empty, hne]
    · rfl
  · split <;> rfl

/-! ## The order of the arguments -/

theorem key_ne_of_mem (h : StyleArguments args l w) {a : StyleArgument} (ha : a ∈ args)
    (hclose : ')' ∈ a.value) : a.key ≠ "fontSize".toList := by
  intro hkey
  have heq : a = ⟨"fontSize".toList, l.chars⟩ := List.inj_on_of_nodup_map h.distinct ha h.size hkey
  rw [heq] at hclose
  exact l.not_mem (by decide) (by decide) hclose

-- An argument with a closing bracket hides the size if it comes first.
theorem typography_ne_of_mem (h : StyleArguments args l w) (hu : Unmistakable args) (name : Word)
    {a : StyleArgument} (ha : a ∈ args) (hclose : ')' ∈ a.value) :
    typography (styleSource name (a :: args.erase a)) ≠ [sizeEntry name l, weightEntry name w] := by
  have hperm : (a :: args.erase a).Perm args := (List.perm_cons_erase ha).symm
  have hfront : a ∈ inFront "fontSize".toList (a :: args.erase a) := by
    rw [inFront_cons_of_ne (h.key_ne_of_mem ha hclose)]
    exact List.mem_cons_self
  rw [(h.perm hperm).typography_source (hu.perm hperm),
    if_neg fun hunclosed => hunclosed a hfront hclose, List.nil_append]
  intro heq
  split at heq
  · exact List.cons_ne_nil _ _ (List.cons.inj heq).2.symm
  · exact List.cons_ne_nil _ _ heq.symm

/-- **A text style has the entries of the arguments that no bracket closes in front of.** So it has
its size and its weight in whatever order its arguments stand, exactly if none of them has a
bracket. -/
theorem typography_of_perm (h : StyleArguments args l w) (hu : Unmistakable args) (name : Word) :
    (∀ others, others.Perm args → typography (styleSource name others) =
        (if Unclosed "fontSize".toList others then [sizeEntry name l] else [])
          ++ if Unclosed "fontWeight".toList others then [weightEntry name w] else []) ∧
      ((∀ others, others.Perm args →
          typography (styleSource name others) = [sizeEntry name l, weightEntry name w]) ↔
        ∀ a ∈ args, '(' ∉ a.value ∧ ')' ∉ a.value) := by
  have hentries (others : List StyleArgument) (hperm : others.Perm args) :=
    (h.perm hperm).typography_source (hu.perm hperm) name
  refine ⟨hentries, ?_, ?_⟩
  · intro hall a ha
    have hclose : ')' ∉ a.value := fun hclose =>
      h.typography_ne_of_mem hu name ha hclose (hall _ (List.perm_cons_erase ha).symm)
    exact ⟨(depth_eq_zero_of_isBalanced (h.balanced a ha) hclose).2, hclose⟩
  · intro hplain others hperm
    have hunclosed (key : List Char) : Unclosed key others :=
      fun a ha => (hplain a (hperm.subset (mem_of_mem_inFront ha))).2
    rw [hentries others hperm, if_pos (hunclosed _), if_pos (hunclosed _)]
    rfl

/-! ## Two text styles -/

-- Arguments that can be checked.
theorem of_check (hargs : ∀ a ∈ args, a.key ≠ [] ∧ a.key.all Text.isWord = true ∧
      isBalanced 0 a.value = true ∧ '\'' ∉ a.value ∧ '"' ∉ a.value)
    (hd : (args.map key).Nodup) (hsize : ⟨"fontSize".toList, l.chars⟩ ∈ args)
    (hweight : ⟨"fontWeight".toList, "FontWeight.".toList ++ w⟩ ∈ args)
    (hword : w ≠ [] ∧ w.all Text.isWord = true) : StyleArguments args l w where
  name a ha := ⟨(hargs a ha).1, List.all_eq_true.1 (hargs a ha).2.1⟩
  distinct := hd
  balanced a ha := (hargs a ha).2.2.1
  unquoted a ha := (hargs a ha).2.2.2
  size := hsize
  weight := hweight
  word := ⟨hword.1, List.all_eq_true.1 hword.2⟩

/-- The weight in front, then the height of a line, then the size. -/
def plain : List StyleArgument :=
  [⟨"fontWeight".toList, "FontWeight.w400".toList⟩, ⟨"height".toList, "1.5".toList⟩,
    ⟨"fontSize".toList, "16".toList⟩]

theorem typography_of_perm_plain :
    StyleArguments plain (.of ['1', '6'] [] (by decide +kernel)) "w400".toList ∧
      Unmistakable plain ∧
      ∀ others, others.Perm plain →
        typography (styleSource (.of "body" (by decide)) others) =
          [("body_fontSize", .number (digitsValue ['1', '6'] [])),
            ("body_fontWeight", .symbol "w400")] := by
  have hargs : StyleArguments plain (.of ['1', '6'] [] (by decide +kernel)) "w400".toList :=
    of_check (by decide) (by decide) (by decide) (by decide) (by decide)
  have hu : Unmistakable plain := .of_letters (by decide)
  exact ⟨hargs, hu, (hargs.typography_of_perm hu (.of "body" (by decide))).2.2 (by decide)⟩

/-- A color that is written as a call, then the size, then the weight. -/
def nested : List StyleArgument :=
  [⟨"color".toList, "Color(0xFF000000)".toList⟩, ⟨"fontSize".toList, "16".toList⟩,
    ⟨"fontWeight".toList, "FontWeight.w400".toList⟩]

theorem typography_nested :
    StyleArguments nested (.of ['1', '6'] [] (by decide +kernel)) "w400".toList ∧
      Unmistakable nested ∧
      styleSource (.of "body" (by decide)) nested =
        "TextStyle get body => const TextStyle(color: Color(0xFF000000), " ++
          "fontSize: 16, fontWeight: FontWeight.w400);" ∧
      typography (styleSource (.of "body" (by decide)) nested) = [] ∧
      typography (styleSource (.of "body" (by decide)) nested.reverse) =
          [("body_fontSize", .number (digitsValue ['1', '6'] [])),
            ("body_fontWeight", .symbol "w400")] := by
  have hargs : StyleArguments nested (.of ['1', '6'] [] (by decide +kernel)) "w400".toList :=
    of_check (by decide) (by decide) (by decide) (by decide) (by decide)
  have hu : Unmistakable nested := .of_letters (by decide)
  have hperm : nested.reverse.Perm nested := List.reverse_perm nested
  refine ⟨hargs, hu, by decide +kernel, ?_, ?_⟩
  · rw [hargs.typography_source hu, if_neg (by decide), if_neg (by decide)]
    rfl
  · rw [(hargs.perm hperm).typography_source (hu.perm hperm), if_pos (by decide),
      if_pos (by decide)]
    rfl

end StyleArguments

end DesignTokens
