import DesignTokens.Proofs.Json.Front
import DesignTokens.Proofs.Pattern.Occurrences

/-!
# Lines of a printed object

Only the members of the object itself stand behind exactly two blanks: what is inside of them stands
further to the right, and a bracket is no quote. So a line of a printed object that begins like a
member is the first line of that member, whatever texts the values have.
-/

namespace DesignTokens

/-! ## Texts and lines -/

theorem Pattern.Apart.append {s t : List Char} (h : Apart s t) (rest : List Char) :
    Apart s (t ++ rest) :=
  ⟨not_prefix_of_apart h rest, fun ht => h.2 ((List.prefix_append t rest).trans ht)⟩

theorem Pattern.Apart.blanks {s : List Char} {c d : Char} (h : c ≠ d) (n : Nat)
    (rest : List Char) :
    Apart (List.replicate n ' ' ++ c :: s) (List.replicate n ' ' ++ d :: rest) := by
  constructor
  · rw [List.prefix_append_right_inj, List.cons_prefix_cons]
    exact fun hcd => h hcd.1
  · rw [List.prefix_append_right_inj, List.cons_prefix_cons]
    exact fun hcd => h hcd.1.symm

/-- What stands behind a line feed of the text is apart from `s`. -/
def FeedsApart (s t : List Char) : Prop :=
  ∀ a b, t = a ++ '\n' :: b → Pattern.Apart s b

namespace FeedsApart

variable {s t t' : List Char}

theorem of_not_mem (h : '\n' ∉ t) : FeedsApart s t := by
  rintro a b rfl
  exact absurd (List.mem_append_right a List.mem_cons_self) h

theorem cons (hs : Pattern.Apart s t) (h : FeedsApart s t) : FeedsApart s ('\n' :: t) := by
  intro a b heq
  cases a with
  | nil =>
    cases heq
    exact hs
  | cons c a => exact h a b (List.cons.inj heq).2

theorem append (h : FeedsApart s t) (h' : FeedsApart s t') : FeedsApart s (t ++ t') := by
  intro a b heq
  obtain ⟨u, -, hu⟩ | ⟨u, hu, hb⟩ := List.append_eq_append_iff.1 heq
  · exact h' u b hu
  · cases u with
    | nil => exact h' [] b hb.symm
    | cons c u =>
      obtain ⟨rfl, rfl⟩ := List.cons.inj hb
      exact (h a u hu).append t'

end FeedsApart

-- A line is the first one, or it stands behind a line feed.
theorem lines_cases (t : List Char) : ∃ first later, t.splitOn '\n' = first :: later ∧ first <+: t ∧
    ∀ l ∈ later, ∃ a b, t = a ++ '\n' :: b ∧ l <+: b := by
  induction t with
  | nil => exact ⟨[], [], rfl, List.prefix_rfl, fun l hl => absurd hl List.not_mem_nil⟩
  | cons c t ih =>
    obtain ⟨first, later, hsplit, hfirst, hlater⟩ := ih
    have hmore : ∀ l ∈ later, ∃ a b, c :: t = a ++ '\n' :: b ∧ l <+: b := fun l hl =>
      let ⟨a, b, ht, hb⟩ := hlater l hl
      ⟨c :: a, b, congrArg (c :: ·) ht, hb⟩
    rw [List.splitOn_cons_eq_if_modifyHead, hsplit]
    split
    · rename_i hc
      refine ⟨[], first :: later, rfl, List.nil_prefix, fun l hl => ?_⟩
      rcases List.mem_cons.1 hl with rfl | hl
      · exact ⟨[], t, by rw [eq_of_beq hc]; rfl, hfirst⟩
      · exact hmore l hl
    · exact ⟨c :: first, later, rfl, List.cons_prefix_cons.2 ⟨rfl, hfirst⟩, hmore⟩

/-! ## Printed values -/

namespace Json

theorem toList_indent (depth : Nat) : (indent depth).toList = List.replicate (2 * depth) ' ' :=
  String.toList_ofList

section Depth

variable {s : List Char} {k depth : Nat}

open FeedsApart

theorem apart_deeper (h : k < depth) (rest : List Char) :
    Pattern.Apart ((indent k).toList ++ '"' :: s) ((indent depth).toList ++ rest) := by
  have hblanks : (indent depth).toList =
      (indent k).toList ++ ' ' :: List.replicate (2 * depth - 2 * k - 1) ' ' := by
    rw [toList_indent, toList_indent, ← List.replicate_succ, ← List.replicate_add]
    congr 1
    omega
  rw [hblanks, List.append_assoc, toList_indent]
  exact .blanks (by decide) _ _

theorem apart_closing {c : Char} (hc : '"' ≠ c) (h : k ≤ depth) (rest : List Char) :
    Pattern.Apart ((indent k).toList ++ '"' :: s) ((indent depth).toList ++ c :: rest) := by
  rcases Nat.lt_or_eq_of_le h with h | rfl
  · exact apart_deeper h _
  · rw [toList_indent]
    exact .blanks hc _ _

theorem feedsApart_closing {c : Char} (hc : '"' ≠ c) (hfeed : '\n' ≠ c) (h : k ≤ depth) :
    FeedsApart ((indent k).toList ++ '"' :: s) (closing (indent depth).toList c []) := by
  refine .cons (apart_closing hc h []) (.of_not_mem ?_)
  rw [toList_indent, List.mem_append, List.mem_singleton, List.mem_replicate]
  rintro (⟨-, hblank⟩ | heq)
  · exact absurd hblank (by decide)
  · exact hfeed heq

theorem feedsApart_intercalate {s : List Char} {ts : List (List Char)} (hne : ts ≠ [])
    (h : ∀ t ∈ ts, FeedsApart s ('\n' :: t)) :
    FeedsApart s ('\n' :: separator.intercalate ts) := by
  induction ts with
  | nil => exact absurd rfl hne
  | cons t ts ih =>
    cases ts with
    | nil =>
      rw [List.intercalate_singleton]
      exact h t List.mem_cons_self
    | cons u ts =>
      rw [List.intercalate_cons_cons]
      have hrest := ih (List.cons_ne_nil u ts) fun v hv => h v (List.mem_cons_of_mem t hv)
      have hcomma : FeedsApart s [','] := .of_not_mem (by decide)
      have happend := ((h t List.mem_cons_self).append hcomma).append hrest
      simpa [separator] using happend

-- A part on a line of its own.
theorem feedsApart_part (h : k < depth) {before t : List Char} (hbefore : '\n' ∉ before)
    (ht : FeedsApart ((indent k).toList ++ '"' :: s) t) :
    FeedsApart ((indent k).toList ++ '"' :: s)
      ('\n' :: ((indent depth).toList ++ (before ++ t))) := by
  have hindent : '\n' ∉ (indent depth).toList := by
    rw [toList_indent]
    exact fun hc => absurd (List.mem_replicate.1 hc).2 (by decide)
  exact .cons (apart_deeper h _) ((of_not_mem hindent).append ((of_not_mem hbefore).append ht))

mutual

-- What is inside of a value stands further to the right than the value, and so may its end.
theorem feedsApart_spread {depth : Nat} (h : k ≤ depth) : (v : Json) →
    FeedsApart ((indent k).toList ++ '"' :: s) (spread depth v).toList
  | null | bool _ | integer _ | number _ | string _ => by
    simp only [spread]
    exact of_not_mem (visible_atomText _).newline_not_mem
  | array [] | object [] => by
    rw [spread]
    exact of_not_mem (by decide)
  | array (v :: items) => by
    have hitems := feedsApart_intercalate (by simp [spreadItems])
      (feedsApart_spreadItems (Nat.lt_succ_of_le h) (v :: items))
    rw [toList_spread_array]
    exact (of_not_mem (t := ['[']) (by decide)).append
      (hitems.append (feedsApart_closing (by decide) (by decide) h))
  | object (m :: members) => by
    have hmembers := feedsApart_intercalate (by simp [spreadMembers])
      (feedsApart_spreadMembers (Nat.lt_succ_of_le h) (m :: members))
    rw [toList_spread_object]
    exact (of_not_mem (t := ['\x7b']) (by decide)).append
      (hmembers.append (feedsApart_closing (by decide) (by decide) h))

theorem feedsApart_spreadItems {depth : Nat} (h : k < depth) : (items : List Json) →
    ∀ t ∈ (spreadItems depth items).map String.toList,
      FeedsApart ((indent k).toList ++ '"' :: s) ('\n' :: t)
  | [] => fun t ht => absurd ht List.not_mem_nil
  | v :: items => by
    rw [spreadItems, List.map_cons, String.toList_append, List.forall_mem_cons]
    exact ⟨feedsApart_part h List.not_mem_nil (feedsApart_spread (Nat.le_of_lt h) v),
      feedsApart_spreadItems h items⟩

theorem feedsApart_spreadMembers {depth : Nat} (h : k < depth) :
    (members : List (String × Json)) →
      ∀ t ∈ (spreadMembers depth members).map String.toList,
        FeedsApart ((indent k).toList ++ '"' :: s) ('\n' :: t)
  | [] => fun t ht => absurd ht List.not_mem_nil
  | (key, v) :: members => by
    have hkey : '\n' ∉ (quote key).toList ++ ": ".toList := by
      rw [List.mem_append, not_or]
      exact ⟨newline_not_mem_quote key, by decide⟩
    rw [spreadMembers, List.map_cons, List.forall_mem_cons]
    refine ⟨?_, feedsApart_spreadMembers h members⟩
    simp only [String.toList_append, List.append_assoc]
    rw [← List.append_assoc (quote key).toList]
    exact feedsApart_part h hkey (feedsApart_spread (Nat.le_of_lt h) v)

end

end Depth

/-! ## The lines of an object -/

section Members

variable {s : List Char} {members : List (String × Json)}
  (hkeys : ∀ m ∈ members,
    Pattern.Apart ((indent 1).toList ++ '"' :: s) ((indent 1).toList ++ (quote m.1).toList))
include hkeys

theorem feedsApart_members : ∀ t ∈ (spreadMembers 1 members).map String.toList,
    FeedsApart ((indent 1).toList ++ '"' :: s) ('\n' :: t) := by
  induction members with
  | nil => exact fun t ht => absurd ht List.not_mem_nil
  | cons m members ih =>
    rw [List.forall_mem_cons] at hkeys
    rw [spreadMembers, List.map_cons, List.forall_mem_cons]
    refine ⟨?_, ih hkeys.2⟩
    have hkey : '\n' ∉ (indent 1).toList ++ (quote m.1).toList ++ ": ".toList := by
      simp only [List.mem_append, not_or]
      exact ⟨⟨by decide, newline_not_mem_quote m.1⟩, by decide⟩
    simp only [String.toList_append]
    refine .cons ?_ ((FeedsApart.of_not_mem hkey).append (feedsApart_spread (Nat.le_refl 1) m.2))
    rw [List.append_assoc]
    exact hkeys.1.append _

theorem feedsApart_object :
    FeedsApart ((indent 1).toList ++ '"' :: s) (spread 0 (object members)).toList := by
  cases members with
  | nil =>
    rw [spread]
    exact .of_not_mem (by decide)
  | cons m members =>
    have hmembers := feedsApart_intercalate (by simp [spreadMembers]) (feedsApart_members hkeys)
    have hblank : ' ' ≠ '\x7d' := by decide
    rw [toList_spread_object]
    -- the bracket stands at the very start of its line
    have hbrace : FeedsApart ((indent 1).toList ++ '"' :: s) ['\x7b'] := .of_not_mem (by decide)
    refine hbrace.append (hmembers.append (.cons ?_ ?_))
    · exact .blanks hblank 0 []
    · exact .of_not_mem (by decide)

/-- **No line of an object begins like a member that it does not have.** -/
theorem not_prefix_of_mem_lines {l : List Char}
    (hl : l ∈ (object members).pretty.toList.splitOn '\n') :
    ¬ (indent 1).toList ++ '"' :: s <+: l := by
  intro hs
  have hsplit : (object members).pretty.toList.splitOn '\n' =
      (spread 0 (object members)).toList.splitOn '\n' ++ [[]] := by
    rw [pretty, String.toList_append]
    exact List.splitOn_append_cons_self _ []
  obtain ⟨first, later, hlines, hfirst, hlater⟩ := lines_cases (spread 0 (object members)).toList
  rw [hsplit, hlines, List.mem_append, List.mem_cons, List.mem_singleton] at hl
  rcases hl with (rfl | hl) | rfl
  · -- the first line begins with the bracket
    have hopen : ∃ rest, (spread 0 (object members)).toList = '\x7b' :: rest := by
      cases members with
      | nil => exact ⟨['\x7d'], by rw [spread]; rfl⟩
      | cons m members => exact ⟨_, toList_spread_object 0 m members⟩
    obtain ⟨rest, hrest⟩ := hopen
    have hblank := (List.cons_prefix_cons.1 (hrest ▸ hs.trans hfirst)).1
    exact absurd hblank (by decide)
  · obtain ⟨a, b, hab, hb⟩ := hlater l hl
    exact (feedsApart_object hkeys a b hab).1 (hs.trans hb)
  · exact absurd (List.prefix_nil.1 hs) (by simp)

end Members

end Json

end DesignTokens
