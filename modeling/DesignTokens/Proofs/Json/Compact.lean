import DesignTokens.Proofs.Json.Front

/-!
# Values on one line

A value that is written without blanks is read as itself. Whatever texts it holds, no character of
what is written is below the space, so it is one line and stays one.
-/

namespace DesignTokens.Json

section

variable (items : List Json) (members : List (String × Json))

theorem toList_compact_array : (compact (array items)).toList =
    '[' :: ([','].intercalate ((compactItems items).map String.toList) ++ [']']) := by
  rw [compact, String.toList_append, String.toList_append, String.toList_intercalate]
  rfl

theorem toList_compact_object : (compact (object members)).toList =
    '\x7b' :: ([','].intercalate ((compactMembers members).map String.toList) ++ ['\x7d']) := by
  rw [compact, String.toList_append, String.toList_append, String.toList_intercalate]
  rfl

end

theorem toList_compactMember (m : String × Json) :
    (quote m.1 ++ ":" ++ compact m.2).toList =
      (quote m.1).toList ++ ':' :: (compact m.2).toList := by
  rw [String.toList_append, String.toList_append, List.append_assoc]
  rfl

/-! ## Reading back -/

theorem forall₂_compactItems {items : List Json}
    (h : ∀ v ∈ items, Reads v (compact v).toList) :
    List.Forall₂ Reads items ((compactItems items).map String.toList) := by
  induction items with
  | nil => exact .nil
  | cons v items ih =>
    exact .cons (h v List.mem_cons_self) (ih fun w hw => h w (List.mem_cons_of_mem v hw))

theorem forall₂_compactMembers {members : List (String × Json)}
    (h : ∀ m ∈ members, Reads m.2 (compact m.2).toList) :
    List.Forall₂ ReadsMember members ((compactMembers members).map String.toList) := by
  induction members with
  | nil => exact .nil
  | cons m members ih =>
    refine .cons ?_ (ih fun n hn => h n (List.mem_cons_of_mem m hn))
    exact ⟨[], _, List.forall_mem_nil _, h m List.mem_cons_self, toList_compactMember m⟩

theorem reads_compact {v : Json} (h : v.Representable) : Reads v (compact v).toList := by
  have hblank : ∀ c ∈ ([] : List Char), isSpace c = true := List.forall_mem_nil _
  induction h with
  | null =>
    simp only [compact]
    exact .null
  | bool =>
    simp only [compact]
    exact .bool _
  | integer hlow hhigh => exact .integer hlow hhigh
  | number hx => exact .number (readNumber_numberText hx)
  | string => exact .string _
  | @array items _ ih =>
    rw [toList_compact_array]
    cases items with
    | nil => exact .of_step (by decide) fun _ _ => rfl
    | cons v items =>
      exact Reads.array hblank hblank hblank (forall₂_compactItems ih) (List.cons_ne_nil v items)
  | @object members _ ih =>
    rw [toList_compact_object]
    cases members with
    | nil => exact .of_step (by decide) fun _ _ => rfl
    | cons m members =>
      exact Reads.object hblank hblank hblank (forall₂_compactMembers ih)
        (List.cons_ne_nil m members)

/-- **What is written on one line is read as the value that was written.** -/
theorem read_compact {v : Json} (h : v.Representable) : read v.compact = some v :=
  read_of_reads (reads_compact h)

/-! ## One line -/

theorem visible_intercalate {sep : List Char} (hsep : Visible sep) {ts : List (List Char)}
    (h : ∀ t ∈ ts, Visible t) : Visible (sep.intercalate ts) := by
  induction ts with
  | nil => exact List.forall_mem_nil _
  | cons t ts ih =>
    rw [List.forall_mem_cons] at h
    cases ts with
    | nil =>
      rw [List.intercalate_singleton]
      exact h.1
    | cons u ts =>
      rw [List.intercalate_cons_cons]
      exact (h.1.append hsep).append (ih h.2)

mutual

theorem visible_compact : (v : Json) → Visible (compact v).toList
  | null | bool _ | integer _ | number _ | string _ => by
    simp only [compact]
    exact visible_atomText _
  | array items => by
    have hcomma : Visible [','] := by decide
    have hitems := visible_intercalate hcomma (visible_compactItems items)
    rw [toList_compact_array]
    exact .cons (by decide) (hitems.append (by decide))
  | object members => by
    have hcomma : Visible [','] := by decide
    have hmembers := visible_intercalate hcomma (visible_compactMembers members)
    rw [toList_compact_object]
    exact .cons (by decide) (hmembers.append (by decide))

theorem visible_compactItems : (items : List Json) →
    ∀ t ∈ (compactItems items).map String.toList, Visible t
  | [] => List.forall_mem_nil _
  | v :: items => List.forall_mem_cons.2 ⟨visible_compact v, visible_compactItems items⟩

theorem visible_compactMembers : (members : List (String × Json)) →
    ∀ t ∈ (compactMembers members).map String.toList, Visible t
  | [] => List.forall_mem_nil _
  | (key, v) :: members => by
    refine List.forall_mem_cons.2 ⟨?_, visible_compactMembers members⟩
    rw [toList_compactMember (key, v)]
    exact (visible_quote key).append (.cons (by decide) (visible_compact v))

end

end DesignTokens.Json
