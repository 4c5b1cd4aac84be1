import DesignTokens.Proofs.Source.Match
import DesignTokens.Proofs.Source.Read

/-!
# Parts of composite values

A gradient, a text style and a shadow are searched again, each with patterns for its parts. In the
text that a getter has for such a value, each of these patterns finds the parts that it is for, and
nothing else: neither a fixed text, nor a number, nor a word can be taken for a key.
-/

namespace DesignTokens

/-! ## Searching blocks -/

namespace Pattern

theorem map_groups_occurrencesOf (offset line : Nat) (bs : List Block) :
    (occurrencesOf offset line bs).map (·.groups) = bs.filterMap fun b => b.found.map (·.2) := by
  induction bs generalizing offset line with
  | nil => rfl
  | cons b bs ih =>
    rw [occurrencesOf, List.map_append, ih, List.filterMap_cons]
    cases b.found <;> rfl

-- A pattern finds the matches of the blocks.
theorem map_groups_occurrences {p : Pattern} (hp : p.NoWay []) {bs : List Block}
    (h : ∀ b ∈ bs, b.Fits p) :
    (p.occurrences (bs.flatMap Block.text)).map (·.groups) =
      bs.filterMap fun b => b.found.map (·.2) := by
  rw [occurrences_blocks hp h, map_groups_occurrencesOf]

theorem noWay_preceded_nil (c : Char) (l : List Char) (p : Pattern) :
    (preceded (c :: l) p).NoWay [] :=
  noWay_preceded (fun h => absurd (List.prefix_nil.1 h) (List.cons_ne_nil c l)) p

-- A fixed text that a key is apart from, and behind it a text without the start of the key.
theorem clear_fixed {c : Char} {l t u : List Char} (ht : ∀ k < t.length, Apart (c :: l) (t.drop k))
    (hu : c ∉ u) (p : Pattern) (rest : List Char) : Clear (preceded (c :: l) p) (t ++ u) rest :=
  clear_append (clear_of_apart ht p _) (clear_of_not_mem hu l p rest)

-- The word for a constant is left out.
theorem takesFirst_maybeConst_nil {rest : List Char} (h : 'c' ∉ rest.head?) :
    maybeConst.TakesFirst [] [] rest := by
  refine takesFirst_latter (noWay_preceded ?_ _) (takesFirst_empty rest)
  intro hl
  cases rest with
  | nil => exact absurd (List.prefix_nil.1 hl) (by decide)
  | cons d rest =>
    have hd : 'c' = d := (List.cons_prefix_cons.1 hl).1
    exact h (by rw [hd]; rfl)

end Pattern

open Pattern

/-! ## Gradients -/

namespace HexColor

theorem takesFirst_stop (x : HexColor) (rest : List Char) :
    Detail.gradientStop.TakesFirst x.stop [some x.chars] rest := by
  have hdigits : (either (exactly .hex 8) (exactly .hex 6)).TakesFirst x.chars []
      ([')'] ++ rest) := by
    have hlength := x.length_chars
    by_cases ha : x.alpha = []
    · rw [if_pos ha] at hlength
      have hclose : Stops CharClass.hex.has ([')'] ++ rest) := stops_cons (by decide) _
      exact takesFirst_latter (noWay_exactly (by omega) hclose)
        (takesFirst_exactly x.has_hex hlength _)
    · rw [if_neg ha] at hlength
      exact takesFirst_former (takesFirst_exactly x.has_hex hlength _) _
  have hbody := takesFirst_seq (takesFirst_group hdigits) (takesFirst_one (has_only_self ')') rest)
  show Detail.gradientStop.TakesFirst ("Color(0x".toList ++ x.chars ++ [')']) _ _
  rw [Detail.gradientStop_eq, List.append_assoc]
  exact takesFirst_preceded _ hbody

def block (x : HexColor) : Block := ⟨some (x.stop, [some x.chars]), []⟩

theorem fits_block (x : HexColor) : x.block.Fits Detail.gradientStop := by
  intro rest
  refine ⟨clear_nil _ _, ?_⟩
  intro t gs hfound
  cases hfound
  exact ⟨x.stop_ne, x.takesFirst_stop rest⟩

def blocks (first : HexColor) (others : List HexColor) : List Block :=
  first.block :: others.flatMap fun x => [⟨none, ", ".toList⟩, x.block]

theorem text_blocks (first : HexColor) (others : List HexColor) :
    (blocks first others).flatMap Block.text =
      first.stop ++ others.flatMap fun x => ", ".toList ++ x.stop := by
  have htext (x : HexColor) : x.block.text = x.stop := List.append_nil _
  rw [blocks, List.flatMap_cons, htext, List.flatMap_assoc]
  congr 2
  funext x
  rw [List.flatMap_cons, List.flatMap_singleton, htext]
  rfl

theorem fits_blocks (first : HexColor) (others : List HexColor) :
    ∀ b ∈ blocks first others, b.Fits Detail.gradientStop := by
  intro b hb
  rcases List.mem_cons.1 hb with rfl | hb
  · exact first.fits_block
  · rcases List.mem_flatMap.1 hb with ⟨x, -, hb⟩
    rcases List.mem_cons.1 hb with rfl | hb
    · intro rest
      refine ⟨?_, fun t gs hfound => by cases hfound⟩
      rw [Detail.gradientStop_eq]
      exact clear_of_apart (by decide) _ _
    · rw [List.mem_singleton.1 hb]
      exact x.fits_block

end HexColor

namespace Detail

theorem findAll_eq (p : Pattern) (t : List Char) :
    findAll p t = ((p.occurrences t).map (·.groups)).map fun gs => (gs.head?.join).getD [] := by
  rw [List.map_map]
  rfl

/-- **The colors of a gradient are its stops in order.** -/
theorem findAll_gradientStop (first : HexColor) (others : List HexColor) :
    findAll gradientStop (first.stop ++ others.flatMap fun x => ", ".toList ++ x.stop) =
      (first :: others).map HexColor.chars := by
  have hnone : gradientStop.NoWay [] := by
    rw [gradientStop_eq]
    exact noWay_preceded_nil _ _ _
  have hothers : (others.flatMap fun x => [⟨none, ", ".toList⟩, x.block]).filterMap
      (fun b : Block => b.found.map (·.2)) = others.map fun x => [some x.chars] := by
    rw [List.filterMap_flatMap, List.map_eq_flatMap]
    rfl
  have hgroups : (HexColor.blocks first others).filterMap (fun b => b.found.map (·.2)) =
      (first :: others).map fun x => [some x.chars] := by
    rw [List.map_cons, ← hothers]
    rfl
  rw [← HexColor.text_blocks, findAll_eq,
    map_groups_occurrences hnone (HexColor.fits_blocks first others), hgroups, List.map_map]
  rfl

end Detail

/-! ## Numbers and words behind keys -/

theorem Literal.stops_blank (l : Literal) (rest : List Char) :
    Stops Text.isBlank (l.chars ++ rest) := by
  have hplain : MadeOf ['.'] l.chars := l.madeOf List.mem_cons_self
  exact stops_append l.chars_ne (hplain.not_blank (by decide)) rest

-- A number is found behind its key.
theorem Pattern.takesFirst_keyed_amount (key : String) (l : Literal) {rest : List Char}
    (hr : Stops CharClass.decimal.has rest) :
    (keyed key amount).TakesFirst (key.toList ++ ([' '] ++ l.chars)) [some l.chars] rest :=
  takesFirst_keyed (takesFirst_amount l.chars_ne l.has_decimal hr) (l.stops_blank rest)

namespace Detail

theorem find?_of_takesFirst {p : Pattern} {t u raw rest : List Char}
    (hclear : Clear p t (u ++ rest)) (hu : p.TakesFirst u [some raw] rest) (hne : u ≠ []) :
    find? p (t ++ (u ++ rest)) = some raw := by
  rw [find?, firstGroups?_of_clear hclear hu hne]
  rfl

theorem find?_eq_none {p : Pattern} {t : List Char} (hp : p.NoWay []) (hclear : Clear p t []) :
    find? p t = none := by
  rw [find?, firstGroups?_eq_none hp hclear]
  rfl

end Detail

/-! ## Text styles -/

namespace StyleBody

def size? : StyleBody → Option Literal
  | size l | both l _ => some l
  | weight _ => none

def weight? : StyleBody → Option Word
  | weight w | both _ w => some w
  | size _ => none

theorem takesFirst_sizePart (l : Literal) {rest : List Char}
    (hr : Stops CharClass.decimal.has rest) :
    Detail.fontSize.TakesFirst (sizePart l) [some l.chars] rest := by
  rw [Detail.fontSize_eq]
  exact takesFirst_keyed_amount "fontSize:" l hr

-- The class in front of a weight is taken too, up to the end of the word.
theorem takesFirst_weight {t rest : List Char} (ht : Text.IsName t) (hr : Stops Text.isWord rest) :
    Detail.fontWeight.TakesFirst ("fontWeight: FontWeight.".toList ++ t) [some t] rest := by
  have hclass : (either (preceded "FontWeight".toList (one (.only '.'))) empty).TakesFirst
      ("FontWeight".toList ++ ['.']) [] (t ++ rest) :=
    takesFirst_former (takesFirst_preceded _ (takesFirst_one (has_only_self '.') _)) empty
  rw [Detail.fontWeight_eq]
  exact takesFirst_keyed (takesFirst_seq hclass (takesFirst_word ht hr))
    (stops_cons (by decide) _)

theorem takesFirst_weightPart (w : Word) :
    Detail.fontWeight.TakesFirst (weightPart w) [some w.text.toList] [] :=
  takesFirst_weight w.name (stops_nil _)

theorem clear_sizePart (l : Literal) (rest : List Char) :
    Clear Detail.fontWeight (sizePart l) rest := by
  rw [Detail.fontWeight_eq]
  exact clear_fixed (by decide) (l.not_mem (by decide) (by decide)) _ rest

-- A word may hold the letters of a key, but not its colon.
theorem clear_weightPart (w : Word) : Clear Detail.fontSize (weightPart w) [] := by
  have hcolon : ':' ∉ w.text.toList ++ [] := by
    rw [List.append_nil]
    exact w.not_mem (by decide)
  rw [Detail.fontSize_eq]
  refine clear_append (clear_of_apart (by decide) _ _) ?_
  -- a match would have to reach its colon inside of the word
  intro k _
  apply noWay_preceded
  intro hl
  rw [← List.drop_append_of_le_length (by omega)] at hl
  exact hcolon (List.mem_of_mem_drop (hl.subset (by decide)))

/-- **The size of a text style is found, and only where there is one.** -/
theorem find?_fontSize (b : StyleBody) :
    Detail.find? Detail.fontSize b.chars = b.size?.map Literal.chars := by
  cases b with
  | size l =>
    have hfind := Detail.find?_of_takesFirst (clear_nil _ _) (takesFirst_sizePart l (stops_nil _))
      (List.cons_ne_nil _ _)
    rw [List.append_nil] at hfind
    exact hfind
  | weight w =>
    refine Detail.find?_eq_none ?_ (clear_weightPart w)
    rw [Detail.fontSize_eq]
    exact noWay_preceded_nil _ _ _
  | both l w =>
    have hcomma : Stops CharClass.decimal.has (", ".toList ++ weightPart w) :=
      stops_cons (by decide) _
    have hfind := Detail.find?_of_takesFirst (clear_nil _ _) (takesFirst_sizePart l hcomma)
      (List.cons_ne_nil _ _)
    rw [List.nil_append, ← List.append_assoc] at hfind
    exact hfind

/-- **The weight of a text style is found, and only where there is one.** -/
theorem find?_fontWeight (b : StyleBody) :
    Detail.find? Detail.fontWeight b.chars = b.weight?.map fun w => w.text.toList := by
  cases b with
  | size l =>
    refine Detail.find?_eq_none ?_ (clear_sizePart l [])
    rw [Detail.fontWeight_eq]
    exact noWay_preceded_nil _ _ _
  | weight w =>
    have hfind := Detail.find?_of_takesFirst (clear_nil _ _) (takesFirst_weightPart w)
      (List.cons_ne_nil _ _)
    rw [List.append_nil] at hfind
    exact hfind
  | both l w =>
    have hcomma (rest : List Char) : Clear Detail.fontWeight ", ".toList rest := by
      rw [Detail.fontWeight_eq]
      exact clear_of_apart (by decide) _ _
    have hfind := Detail.find?_of_takesFirst (clear_append (clear_sizePart l _) (hcomma _))
      (takesFirst_weightPart w) (List.cons_ne_nil _ _)
    rw [List.append_nil] at hfind
    exact hfind

end StyleBody

/-! ## Shadows -/

namespace Pattern

/-- A block with more text behind it. -/
def Block.followed (b : Block) (t : List Char) : Block := ⟨b.found, b.passed ++ t⟩

/-- What stands behind an element of a list in brackets. -/
def listEnds : List (List Char) := [", ".toList, [')']]

/-- Blocks with commas between them and a bracket at the end. -/
def listed : List Block → List Block
  | [] => [⟨none, [')']⟩]
  | [b] => [b.followed [')']]
  | b :: c :: bs => b.followed ", ".toList :: listed (c :: bs)

theorem text_followed (b : Block) (t : List Char) : (b.followed t).text = b.text ++ t :=
  (List.append_assoc ..).symm

theorem text_listed (bs : List Block) :
    (listed bs).flatMap Block.text = separated (bs.map Block.text) ++ [')'] := by
  induction bs with
  | nil => rfl
  | cons b bs ih =>
    cases bs with
    | nil => rw [listed, List.flatMap_singleton, text_followed]; rfl
    | cons c bs =>
      rw [listed, List.flatMap_cons, text_followed, ih]
      exact (List.append_assoc ..).symm

theorem found_listed (bs : List Block) :
    (listed bs).filterMap (fun b => b.found.map (·.2)) =
      bs.filterMap fun b => b.found.map (·.2) := by
  induction bs with
  | nil => rfl
  | cons b bs ih =>
    cases bs with
    | nil => rfl
    | cons c bs =>
      rw [listed, List.filterMap_cons, List.filterMap_cons, ih]
      rfl

theorem fits_listed {p : Pattern} {bs : List Block} (hclose : ∀ rest, Clear p [')'] rest)
    (h : ∀ b ∈ bs, ∀ t ∈ listEnds, (b.followed t).Fits p) : ∀ b ∈ listed bs, b.Fits p := by
  induction bs with
  | nil =>
    intro b hb rest
    rw [List.mem_singleton.1 hb]
    exact ⟨hclose rest, fun t gs hfound => by cases hfound⟩
  | cons b bs ih =>
    have hb := h b List.mem_cons_self
    cases bs with
    | nil =>
      intro b' hb'
      rw [List.mem_singleton.1 hb']
      exact hb _ (List.mem_cons_of_mem _ List.mem_cons_self)
    | cons c bs =>
      intro b' hb'
      rcases List.mem_cons.1 hb' with rfl | hb'
      · exact hb _ List.mem_cons_self
      · exact ih (fun d hd => h d (List.mem_cons_of_mem b hd)) b' hb'

theorem stops_of_mem_listEnds {e : List Char} (he : e ∈ listEnds) (rest : List Char) :
    Stops CharClass.decimal.has (e ++ rest) := by
  rcases List.mem_cons.1 he with rfl | he
  · exact stops_cons (by decide) _
  · rw [List.mem_singleton.1 he]
    exact stops_cons (by decide) _

-- An element that a key does not start in: fixed text, and text without the start of the key.
theorem fits_fixed {c : Char} {l t u : List Char} (hc : ∀ e ∈ listEnds, c ∉ e)
    (ht : ∀ k < t.length, Apart (c :: l) (t.drop k)) (hu : c ∉ u) (p : Pattern) :
    ∀ e ∈ listEnds, (Block.followed ⟨none, t ++ u⟩ e).Fits (preceded (c :: l) p) := by
  intro e he rest
  refine ⟨?_, fun t gs hfound => by cases hfound⟩
  show Clear _ (t ++ u ++ e) rest
  rw [List.append_assoc]
  refine clear_fixed ht ?_ p rest
  rw [List.mem_append, not_or]
  exact ⟨hu, hc e he⟩

-- An element that is a match of a key.
theorem fits_match {c : Char} {l t raw : List Char} {p : Pattern} (hc : ∀ e ∈ listEnds, c ∉ e)
    (hne : t ≠ []) (h : ∀ e ∈ listEnds, ∀ rest,
      (preceded (c :: l) p).TakesFirst t [some raw] (e ++ rest)) :
    ∀ e ∈ listEnds, (Block.followed ⟨some (t, [some raw]), []⟩ e).Fits (preceded (c :: l) p) := by
  intro e he rest
  refine ⟨clear_of_not_mem (hc e he) l p rest, ?_⟩
  intro t' gs hfound
  cases hfound
  exact ⟨hne, h e he rest⟩

end Pattern

namespace ShadowBody

/-- The parts of a shadow as a pattern sees them. -/
structure View (p : Pattern) where
  blur : Literal → Block
  offset : SignedLiteral × SignedLiteral → Block
  alpha : Literal → Block
  blur_text : ∀ l, (blur l).text = blurPart l
  offset_text : ∀ o, (offset o).text = offsetPart o
  alpha_text : ∀ l, (alpha l).text = alphaPart l
  blur_fits : ∀ l, ∀ e ∈ listEnds, ((blur l).followed e).Fits p
  offset_fits : ∀ o, ∀ e ∈ listEnds, ((offset o).followed e).Fits p
  alpha_fits : ∀ l, ∀ e ∈ listEnds, ((alpha l).followed e).Fits p

def View.parts {p : Pattern} (v : View p) (b : ShadowBody) : List Block :=
  (b.blur.map v.blur).toList ++ (b.offset.map v.offset).toList ++ (b.alpha.map v.alpha).toList

theorem View.text_parts {p : Pattern} (v : View p) (b : ShadowBody) :
    (v.parts b).map Block.text = (b.blur.map blurPart).toList ++ (b.offset.map offsetPart).toList
      ++ (b.alpha.map alphaPart).toList := by
  rw [parts, List.map_append, List.map_append]
  cases b.blur <;> cases b.offset <;> cases b.alpha <;>
    simp [v.blur_text, v.offset_text, v.alpha_text]

-- A pattern that neither the frame of a shadow starts finds the first match among the parts.
theorem View.find?_chars {c : Char} {l : List Char} {q : Pattern} (v : View (preceded (c :: l) q))
    (hopen : ∀ k < "BoxShadow(".toList.length, Apart (c :: l) ("BoxShadow(".toList.drop k))
    (hclose : c ≠ ')') (b : ShadowBody) :
    Detail.find? (preceded (c :: l) q) b.chars =
      ((v.parts b).filterMap fun b => b.found.map (·.2)).head?.map fun gs =>
        (gs.head?.join).getD [] := by
  have hclear : ∀ rest, Clear (preceded (c :: l) q) [')'] rest :=
    clear_of_not_mem (fun h => hclose (List.mem_singleton.1 h)) l q
  have hparts : ∀ b' ∈ v.parts b, ∀ e ∈ listEnds, (b'.followed e).Fits (preceded (c :: l) q) := by
    intro b' hb'
    simp only [parts, List.mem_append, Option.mem_toList, Option.map_eq_some_iff] at hb'
    rcases hb' with (⟨l, -, rfl⟩ | ⟨o, -, rfl⟩) | ⟨l, -, rfl⟩
    · exact v.blur_fits l
    · exact v.offset_fits o
    · exact v.alpha_fits l
  have hfits : ∀ b' ∈ ⟨none, "BoxShadow(".toList⟩ :: listed (v.parts b),
      b'.Fits (preceded (c :: l) q) := by
    intro b' hb'
    rcases List.mem_cons.1 hb' with rfl | hb'
    · exact fun rest => ⟨clear_of_apart hopen q rest, fun t gs hfound => by cases hfound⟩
    · exact fits_listed hclear hparts b' hb'
  have htext :
      (⟨none, "BoxShadow(".toList⟩ :: listed (v.parts b)).flatMap Block.text = b.chars := by
    rw [List.flatMap_cons, text_listed, v.text_parts]
    exact (List.append_assoc ..).symm
  have hgroups := map_groups_occurrences (noWay_preceded_nil c l q) hfits
  rw [htext, List.filterMap_cons, found_listed] at hgroups
  rw [Detail.find?, firstGroups?, ← List.head?_map, hgroups]
  rfl

/-! ## The three parts of a shadow -/

theorem not_mem_offset {c : Char} (hc : Text.isAsciiDigit c = false)
    (h : c ∉ ['.', '-', ',', ' ']) (o : SignedLiteral × SignedLiteral) :
    c ∉ o.1.chars ++ ", ".toList ++ o.2.chars := by
  simp only [List.mem_cons, List.not_mem_nil, or_false, not_or] at h
  have hsigned (l : SignedLiteral) : c ∉ l.chars := l.not_mem hc h.1 h.2.1
  have hcomma : c ∉ ", ".toList := by
    show c ∉ [',', ' ']
    simp [h]
  simp only [List.mem_append, not_or]
  exact ⟨⟨hsigned o.1, hcomma⟩, hsigned o.2⟩

theorem takesFirst_offsetPart (o : SignedLiteral × SignedLiteral) (rest : List Char) :
    (keyed "offset:" (seq maybeConst (preceded "Offset(".toList (enclosed ')')))).TakesFirst
      (offsetPart o) [some (o.1.chars ++ ", ".toList ++ o.2.chars)] rest := by
  have hne : o.1.chars ++ ", ".toList ++ o.2.chars ≠ [] := by
    rw [Ne, List.append_eq_nil_iff, List.append_eq_nil_iff]
    intro h
    exact absurd h.1.2 (by decide)
  have hclose : ')' ∉ o.1.chars ++ ", ".toList ++ o.2.chars :=
    not_mem_offset (by decide) (by decide) o
  have hpair := takesFirst_preceded "Offset(".toList (takesFirst_enclosed hne hclose rest)
  have hconst : maybeConst.TakesFirst [] [] ("Offset(".toList
      ++ (o.1.chars ++ ", ".toList ++ o.2.chars ++ [')']) ++ rest) := by
    apply takesFirst_maybeConst_nil
    intro h
    cases h
  exact takesFirst_keyed (takesFirst_seq hconst hpair) (stops_cons (by decide) _)

-- An offset has letters of its own in front of the numbers only.
theorem fits_offsetPart {c : Char} {l : List Char} (hl : ∀ e ∈ listEnds, c ∉ e)
    (hfixed : ∀ k < "offset: Offset(".toList.length,
      Apart (c :: l) ("offset: Offset(".toList.drop k))
    (hc : Text.isAsciiDigit c = false) (h : c ∉ ['.', '-', ',', ' ', ')']) (q : Pattern)
    (o : SignedLiteral × SignedLiteral) :
    ∀ e ∈ listEnds, (Block.followed ⟨none, offsetPart o⟩ e).Fits (preceded (c :: l) q) := by
  have hsplit : offsetPart o = "offset: Offset(".toList
      ++ (o.1.chars ++ ", ".toList ++ o.2.chars ++ [')']) := List.append_assoc ..
  rw [hsplit]
  refine fits_fixed hl hfixed ?_ q
  rw [List.mem_append, not_or]
  refine ⟨not_mem_offset hc (fun hm => h ?_) o, fun hm => h ?_⟩
  · exact List.mem_append_left [')'] hm
  · exact List.mem_append_right ['.', '-', ',', ' '] hm

/-- What the pattern of the blur radius sees. -/
def blurView : View (keyed "blurRadius:" amount) where
  blur l := ⟨some (blurPart l, [some l.chars]), []⟩
  offset o := ⟨none, offsetPart o⟩
  alpha l := ⟨none, alphaPart l⟩
  blur_text l := List.append_nil _
  offset_text _ := rfl
  alpha_text _ := rfl
  blur_fits l := fits_match (by decide) (List.cons_ne_nil _ _) fun e he rest =>
    takesFirst_keyed_amount "blurRadius:" l (stops_of_mem_listEnds he rest)
  offset_fits := fits_offsetPart (by decide) (by decide) (by decide) (by decide) _
  alpha_fits l := fits_fixed (by decide) (by decide) (l.not_mem (by decide) (by decide)) _

/-- What the pattern of the offset sees. -/
def offsetView :
    View (keyed "offset:" (seq maybeConst (preceded "Offset(".toList (enclosed ')')))) where
  blur l := ⟨none, blurPart l⟩
  offset o := ⟨some (offsetPart o, [some (o.1.chars ++ ", ".toList ++ o.2.chars)]), []⟩
  alpha l := ⟨none, alphaPart l⟩
  blur_text _ := rfl
  offset_text o := List.append_nil _
  alpha_text _ := rfl
  blur_fits l := fits_fixed (by decide) (by decide) (l.not_mem (by decide) (by decide)) _
  offset_fits o := fits_match (by decide) (List.cons_ne_nil _ _) fun e _ rest =>
    takesFirst_offsetPart o _
  alpha_fits l := fits_fixed (by decide) (by decide) (l.not_mem (by decide) (by decide)) _

/-- What the pattern of the alpha sees. -/
def alphaView : View (keyed "alpha:" amount) where
  blur l := ⟨none, blurPart l⟩
  offset o := ⟨none, offsetPart o⟩
  alpha l := ⟨some (alphaPart l, [some l.chars]), []⟩
  blur_text _ := rfl
  offset_text _ := rfl
  alpha_text l := List.append_nil _
  blur_fits l := fits_fixed (by decide) (by decide) (l.not_mem (by decide) (by decide)) _
  offset_fits := fits_offsetPart (by decide) (by decide) (by decide) (by decide) _
  alpha_fits l := fits_match (by decide) (List.cons_ne_nil _ _) fun e he rest =>
    takesFirst_keyed_amount "alpha:" l (stops_of_mem_listEnds he rest)

theorem find?_blurRadius (b : ShadowBody) :
    Detail.find? Detail.blurRadius b.chars = b.blur.map Literal.chars := by
  rw [Detail.blurRadius_eq]
  refine (blurView.find?_chars (by decide) (by decide) b).trans ?_
  rcases b with ⟨_ | blur, _ | offset, _ | alpha⟩ <;> rfl

theorem find?_offset (b : ShadowBody) :
    Detail.find? Detail.offset b.chars =
      b.offset.map fun o => o.1.chars ++ ", ".toList ++ o.2.chars := by
  rw [Detail.offset_eq]
  refine (offsetView.find?_chars (by decide) (by decide) b).trans ?_
  rcases b with ⟨_ | blur, _ | offset, _ | alpha⟩ <;> rfl

theorem find?_alpha (b : ShadowBody) :
    Detail.find? Detail.alpha b.chars = b.alpha.map Literal.chars := by
  rw [Detail.alpha_eq]
  refine (alphaView.find?_chars (by decide) (by decide) b).trans ?_
  rcases b with ⟨_ | blur, _ | offset, _ | alpha⟩ <;> rfl

end ShadowBody

end DesignTokens
