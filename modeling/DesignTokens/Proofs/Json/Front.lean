import DesignTokens.Proofs.Json.RoundTrip

/-!
# Members in front

Each member of an object has its own lines, so members that are put in front of others only add
lines behind the opening brace, and leave all others as they are. A member with a text has one line
however long the text is, since line feeds are escaped.
-/

namespace DesignTokens.Json

/-! ## Texts on one line -/

/-- No character of a text is below the space. -/
def Visible (t : List Char) : Prop := ∀ c ∈ t, 32 ≤ c.toNat

instance (t : List Char) : Decidable (Visible t) :=
  List.decidableBAll (fun c : Char => 32 ≤ c.toNat) t

namespace Visible

variable {t u : List Char}

theorem newline_not_mem (h : Visible t) : '\n' ∉ t :=
  fun hm => absurd (h _ hm) (by decide)

theorem cons {c : Char} (hc : 32 ≤ c.toNat) (h : Visible t) : Visible (c :: t) :=
  List.forall_mem_cons.2 ⟨hc, h⟩

theorem append (ht : Visible t) (hu : Visible u) : Visible (t ++ u) :=
  List.forall_mem_append.2 ⟨ht, hu⟩

theorem of_isNumberChar (h : ∀ c ∈ t, isNumberChar c = true) : Visible t := by
  intro c hc
  have hnumber := h c hc
  simp only [isNumberChar, Text.isAsciiDigit, Bool.or_eq_true, Bool.and_eq_true,
    decide_eq_true_eq, beq_iff_eq] at hnumber
  rcases hnumber with ((((hdigit | rfl) | rfl) | rfl) | rfl) | rfl
  · omega
  all_goals decide

end Visible

theorem visible_escapeChar (c : Char) : Visible (escapeChar c) := by
  have hdigits : ∀ n < 16, 32 ≤ (Nat.digitChar n).toNat := by decide
  have hhex (n : Nat) : 32 ≤ (hexDigit n).toNat := hdigits _ (Nat.mod_lt n (by decide))
  unfold escapeChar
  iterate 7
    split
    · decide
  split
  · show ∀ c ∈ _, _
    simp [hhex]
  · rename_i hlow
    exact List.forall_mem_singleton.2 (Nat.not_lt.1 hlow)

theorem visible_quote (s : String) : Visible (quote s).toList := by
  have hquote : Visible ['"'] := by decide
  rw [toList_quote]
  refine hquote.append (Visible.append ?_ hquote)
  intro c hc
  obtain ⟨d, -, hd⟩ := List.mem_flatMap.1 hc
  exact visible_escapeChar d c hd

theorem newline_not_mem_quote (s : String) : '\n' ∉ (quote s).toList :=
  (visible_quote s).newline_not_mem

theorem visible_toDigits (n : Nat) : Visible (Nat.toDigits 10 n) :=
  .of_isNumberChar fun _ hc => isNumberChar_of_isAsciiDigit (isAsciiDigit_of_mem_toDigits hc)

theorem newline_not_mem_toDigits (n : Nat) : '\n' ∉ Nat.toDigits 10 n :=
  (visible_toDigits n).newline_not_mem

theorem visible_natural (n : Nat) : Visible (toString n).toList := by
  show Visible (Nat.repr n).toList
  rw [Nat.repr_eq_ofList_toDigits, String.toList_ofList]
  exact visible_toDigits n

theorem visible_integer (n : Int) : Visible (toString n).toList := by
  cases n with
  | ofNat n => exact visible_natural n
  | negSucc n =>
    have hsign : Visible "-".toList := by decide
    show Visible ("-" ++ toString (n + 1)).toList
    rw [String.toList_append]
    exact hsign.append (visible_natural (n + 1))

theorem visible_numberText (x : Binary64) : Visible (numberText x).toList := by
  unfold numberText
  split
  · rename_i h
    have hread := readNumber_numberText h
    rw [numberText, if_pos h] at hread
    exact .of_isNumberChar (isNumberChar_of_readNumber hread)
  · decide

theorem visible_atomText (v : Json) : Visible (atomText v).toList := by
  cases v with
  | null | array _ | object _ =>
    rw [atomText]
    decide
  | bool b => cases b <;> decide
  | integer n => exact visible_integer n
  | number x => exact visible_numberText x
  | string s => exact visible_quote s

theorem read_of_reads {v : Json} {text : String} (h : Reads v text.toList) :
    read text = some v := by
  have hread := h (2 * text.toList.length + 2) [] (by omega) (stops_nil _)
  rw [List.append_nil] at hread
  rw [read]
  simp only [hread]
  rfl

theorem read_quote (s : String) : read (quote s) = some (.string s) :=
  read_of_reads (.string s)

/-! ## Lines of members -/

theorem spreadMembers_append (depth : Nat) (front back : List (String × Json)) :
    spreadMembers depth (front ++ back) = spreadMembers depth front ++ spreadMembers depth back := by
  induction front with
  | nil => rfl
  | cons m front ih => rw [List.cons_append, spreadMembers, spreadMembers, ih, List.cons_append]

theorem intercalate_append (sep : List Char) (front : List (List Char)) (t : List Char)
    (back : List (List Char)) :
    sep.intercalate (front ++ t :: back) =
      front.flatMap (· ++ sep) ++ sep.intercalate (t :: back) := by
  induction front with
  | nil => rfl
  | cons u front ih =>
    have hsplit : sep.intercalate (u :: (front ++ t :: back)) =
        u ++ sep ++ sep.intercalate (front ++ t :: back) := by
      cases front with
      | nil => exact List.intercalate_cons_cons
      | cons w front => exact List.intercalate_cons_cons
    rw [List.cons_append, hsplit, ih, List.flatMap_cons, List.append_assoc (u ++ sep)]

/-- **Members in front add their lines behind the opening brace.** -/
theorem exists_body (m : String × Json) (members : List (String × Json)) :
    ∃ body, ∀ front, (object (front ++ m :: members)).pretty =
      "\x7b\n" ++ String.join ((spreadMembers 1 front).map (· ++ ",\n")) ++ body := by
  refine ⟨",\n".intercalate (spreadMembers 1 (m :: members)) ++ "\n" ++ indent 0 ++ "\x7d\n",
    fun front => ?_⟩
  have hspread (ms : List (String × Json)) (hne : ms ≠ []) : spread 0 (object ms) =
      "\x7b\n" ++ ",\n".intercalate (spreadMembers 1 ms) ++ "\n" ++ indent 0 ++ "\x7d" := by
    cases ms with
    | nil => exact absurd rfl hne
    | cons m ms => rw [spread]
  have hlines : (spreadMembers 1 (front ++ m :: members)).map String.toList =
      (spreadMembers 1 front).map String.toList
        ++ (spreadMembers 1 (m :: members)).map String.toList := by
    rw [spreadMembers_append, List.map_append]
  rw [pretty, hspread _ (by simp), ← String.toList_inj]
  simp only [String.toList_append, String.toList_intercalate, String.toList_join, hlines]
  rw [spreadMembers, List.map_cons, intercalate_append]
  simp only [List.flatMap_map, List.append_assoc, String.toList_append]
  rfl

end DesignTokens.Json
