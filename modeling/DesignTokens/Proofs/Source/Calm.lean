import DesignTokens.Proofs.Rule.Getter
import Mathlib.Data.List.Chain

/-!
# Where no getter starts

A getter starts with a keyword and the word `get` between two spaces. Behind its name no `g` follows
a space again, so no other getter starts before the end of the line, whatever the name is. That no
getter starts inside of the keyword and the word behind it is checked for all keywords at once.
-/

namespace DesignTokens

/-! ## Calm text -/

/-- Two characters that are not a space and a `g`. -/
def CalmPair (a b : Char) : Prop := ¬ (a = ' ' ∧ b = 'g')

instance : DecidableRel CalmPair := fun a b => inferInstanceAs (Decidable (¬ (a = ' ' ∧ b = 'g')))

/-- No `g` follows a space, not even if there is one in front of the text. -/
def Calm (t : List Char) : Prop := (' ' :: t).IsChain CalmPair

instance (t : List Char) : Decidable (Calm t) :=
  inferInstanceAs (Decidable ((' ' :: t).IsChain CalmPair))

theorem isChain_of_not_mem {t : List Char} (h : ' ' ∉ t) : t.IsChain CalmPair := by
  induction t with
  | nil => exact .nil
  | cons a t ih =>
    rw [List.mem_cons, not_or] at h
    cases t with
    | nil => exact .singleton a
    | cons b t => exact .cons_cons (fun hab => h.1 hab.1.symm) (ih h.2)

theorem calm_of_not_mem {t : List Char} (h : ' ' ∉ t) (hg : 'g' ∉ t.head?) : Calm t := by
  cases t with
  | nil => exact .singleton ' '
  | cons a t => exact .cons_cons (fun ha => hg (by rw [ha.2]; rfl)) (isChain_of_not_mem h)

theorem calm_append {t u : List Char} (ht : Calm t) (hu : Calm u) : Calm (t ++ u) := by
  unfold Calm
  rw [← List.cons_append, List.isChain_append]
  refine ⟨ht, hu.of_cons, ?_⟩
  -- a `g` at the start of the second text would follow the space in front of it
  intro a _ b hb hab
  cases u with
  | nil => cases hb
  | cons c u =>
    cases hb
    exact hu.rel ⟨rfl, hab.2⟩

-- Behind a character other than a space, any text without spaces may follow.
theorem calm_append_of_not_mem {t u : List Char} (ht : Calm t)
    (hl : (' ' :: t).getLast? ≠ some ' ') (hu : ' ' ∉ u) : Calm (t ++ u) := by
  unfold Calm
  rw [← List.cons_append, List.isChain_append]
  refine ⟨ht, isChain_of_not_mem hu, ?_⟩
  intro a ha b _ hab
  rw [hab.1] at ha
  exact hl ha

theorem calm_flatMap {α : Type} {f : α → List Char} (h : ∀ a, Calm (f a)) (l : List α) :
    Calm (l.flatMap f) := by
  induction l with
  | nil => exact .singleton ' '
  | cons a l ih => exact calm_append (h a) ih

/-! ## Keywords -/

namespace Pattern

theorem prefix_of_prefix_append_cons {l t rest : List Char} {c : Char} (hc : c ∉ l)
    (h : l <+: t ++ c :: rest) : l <+: t := by
  have ht : t ++ [c] <+: t ++ c :: rest := ⟨rest, by rw [List.append_assoc]; rfl⟩
  rcases List.prefix_or_prefix_of_prefix h ht with hl | hl
  · rcases List.prefix_concat_iff.1 hl with rfl | hl
    · exact absurd (List.mem_append_right t List.mem_cons_self) hc
    · exact hl
  · exact absurd (hl.subset (List.mem_append_right t List.mem_cons_self)) hc

theorem infix_lead (keyword : List Char) : [' ', 'g'] <:+: lead keyword :=
  ⟨keyword, "et ".toList, by rw [lead, List.append_assoc]; rfl⟩

theorem not_infix_of_calm {name t : List Char} (hname : ' ' ∉ name) (ht : Calm t) :
    ¬ [' ', 'g'] <:+: name ++ t := by
  intro h
  have hchain : (name ++ t).IsChain CalmPair := by
    rw [List.isChain_append]
    refine ⟨isChain_of_not_mem hname, ht.of_cons, ?_⟩
    intro a ha b _ hab
    rw [hab.1] at ha
    exact hname (List.mem_of_mem_getLast? ha)
  have hpair : [' ', 'g'].IsChain CalmPair := List.IsChain.infix hchain h
  exact hpair.rel ⟨rfl, rfl⟩

-- A match starts with a fixed text, which stands nowhere in front of a character that it does not
-- have.
theorem clear_of_absent {l t : List Char} {c : Char} (hc : c ∉ l) (h : ¬ l <:+: t) (p : Pattern)
    (rest : List Char) : Clear (preceded l p) (t ++ [c]) rest := by
  intro k hlen
  apply noWay_preceded
  intro hl
  have hle : k ≤ t.length := by
    rw [List.length_append, List.length_singleton] at hlen
    omega
  rw [List.drop_append_of_le_length hle, List.append_assoc] at hl
  exact h ((prefix_of_prefix_append_cons hc hl).isInfix.trans (List.drop_suffix k t).isInfix)

-- No getter starts behind the name of another one before a character that ends it, such as a line
-- feed.
theorem clear_of_calm {keyword : String} {c : Char} (hk : c ∉ lead keyword.toList)
    (value : Pattern) {name t : List Char} (hname : ' ' ∉ name) (ht : Calm t)
    (rest : List Char) : Clear (getter keyword value) (name ++ t ++ [c]) rest :=
  clear_of_absent hk
    (fun h => not_infix_of_calm hname ht ((infix_lead keyword.toList).trans h)) _ rest

/-- The words that getters start with. -/
def keywords : List String :=
  ["Color", "LinearGradient", "double", "TextStyle", "List<BoxShadow>", "Duration", "Curve"]

-- A getter starts neither inside of a keyword and the word behind it nor at another keyword.
theorem apart_lead {keyword other : String} (hk : keyword ∈ keywords) (ho : other ∈ keywords)
    {k : Nat} (hlt : k < (lead other.toList).length) (hne : k ≠ 0 ∨ keyword ≠ other) :
    Apart (lead keyword.toList) ((lead other.toList).drop k) := by
  have hall : ∀ keyword ∈ keywords, ∀ other ∈ keywords, ∀ k < (lead other.toList).length,
      (k ≠ 0 ∨ keyword ≠ other) → Apart (lead keyword.toList) ((lead other.toList).drop k) := by
    decide +kernel
  exact hall keyword hk other ho k hlt hne

theorem not_mem_lead {keyword : String} (hk : keyword ∈ keywords) :
    '\n' ∉ lead keyword.toList := by
  have hall : ∀ keyword ∈ keywords, '\n' ∉ lead keyword.toList := by
    decide +kernel
  exact hall keyword hk

end Pattern

end DesignTokens
