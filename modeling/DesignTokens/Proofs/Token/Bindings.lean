import DesignTokens.Token.Table
import Mathlib.Data.List.Induction
import Mathlib.Data.List.Nodup

/-!
# Tables of many bindings

A table that is filled by one binding after the other has the names in the order of their first
binding, and behind each name the value of its last one. Nothing else of the bindings matters.
-/

namespace DesignTokens

namespace TokenTable

variable {α : Type}

/-- The table that some bindings amount to, one after the other. -/
def ofBindings (bs : List (String × α)) : TokenTable α :=
  bs.foldl (fun t b => t.insert b.1 b.2) empty

/-- The value that a name is bound to last. -/
def lastBinding (name : String) (bs : List (String × α)) : Option α :=
  (bs.reverse.find? fun b => b.1 = name).map (·.2)

theorem ofBindings_concat (bs : List (String × α)) (b : String × α) :
    ofBindings (bs ++ [b]) = (ofBindings bs).insert b.1 b.2 := by
  rw [ofBindings, List.foldl_append]
  rfl

theorem lastBinding_append (name : String) (bs cs : List (String × α)) :
    lastBinding name (bs ++ cs) = (lastBinding name cs).or (lastBinding name bs) := by
  rw [lastBinding, List.reverse_append, List.find?_append, Option.map_or]
  rfl

theorem lastBinding_singleton (name : String) (b : String × α) :
    lastBinding name [b] = if b.1 = name then some b.2 else none := by
  by_cases h : b.1 = name <;> simp [lastBinding, h]

theorem lastBinding_eq_none_iff {name : String} {bs : List (String × α)} :
    lastBinding name bs = none ↔ name ∉ bs.map (·.1) := by
  rw [lastBinding, Option.map_eq_none_iff, List.find?_eq_none]
  simp only [List.mem_reverse, decide_eq_true_eq, List.mem_map, not_exists, not_and]

theorem lastBinding_map {β : Type} (f : α → β) (name : String) (bs : List (String × α)) :
    lastBinding name (bs.map fun b => (b.1, f b.2)) = (lastBinding name bs).map f := by
  rw [lastBinding, ← List.map_reverse, List.find?_map, Option.map_map, lastBinding, Option.map_map]
  rfl

/-! ## Names and values -/

/-- **Behind a name stands the value of its last binding.** -/
theorem get?_ofBindings (bs : List (String × α)) (name : String) :
    (ofBindings bs).get? name = lastBinding name bs := by
  induction bs using List.reverseRecOn with
  | nil => rfl
  | append_singleton bs b ih =>
    rw [ofBindings_concat, get?_insert, lastBinding_append, lastBinding_singleton, ih]
    by_cases h : b.1 = name
    · rw [if_pos h, if_pos h.symm, Option.some_or]
    · rw [if_neg h, if_neg (Ne.symm h), Option.none_or]

/-- **The names stand in the order of their first binding, each once.** -/
theorem names_ofBindings (bs : List (String × α)) :
    (ofBindings bs).names = (bs.map (·.1)).eraseDups := by
  induction bs using List.reverseRecOn with
  | nil => rfl
  | append_singleton bs b ih =>
    rw [ofBindings_concat, names_insert, ih, List.map_append, List.eraseDups_append]
    by_cases h : b.1 ∈ bs.map (·.1)
    · rw [if_pos (List.mem_eraseDups.2 h)]
      simp [List.removeAll, List.mem_map.1 h]
    · rw [if_neg (fun hm => h (List.mem_eraseDups.1 hm))]
      have hkeep : (List.map (·.1) [b]).removeAll (bs.map (·.1)) = [b.1] := by
        simpa [List.removeAll] using h
      rw [hkeep]
      rfl

theorem nodup_names_ofBindings (bs : List (String × α)) : (ofBindings bs).names.Nodup := by
  induction bs using List.reverseRecOn with
  | nil => exact List.nodup_nil
  | append_singleton bs b ih =>
    rw [ofBindings_concat]
    exact names_nodup_insert ih b.1 b.2

theorem mem_insertIn {name : String} {value : α} {es : List (String × α)} {e : String × α}
    (h : e ∈ insertIn name value es) : e = (name, value) ∨ e ∈ es := by
  induction es with
  | nil => exact .inl (List.mem_singleton.1 h)
  | cons d es ih =>
    rcases d with ⟨n, v⟩
    simp only [insertIn] at h
    split at h
    · rename_i hn
      rcases List.mem_cons.1 h with rfl | h
      · exact .inl (by rw [hn])
      · exact .inr (List.mem_cons_of_mem _ h)
    · rcases List.mem_cons.1 h with rfl | h
      · exact .inr List.mem_cons_self
      · exact (ih h).imp_right (List.mem_cons_of_mem _)

-- An entry is one of the bindings.
theorem mem_of_mem_ofBindings {bs : List (String × α)} {e : String × α}
    (h : e ∈ (ofBindings bs).entries) : e ∈ bs := by
  induction bs using List.reverseRecOn with
  | nil => cases h
  | append_singleton bs b ih =>
    rw [ofBindings_concat] at h
    rcases mem_insertIn h with rfl | h
    · exact List.mem_append_right bs List.mem_cons_self
    · exact List.mem_append_left [b] (ih h)

-- The entries of a table are its names with their values.
theorem mem_entries_iff {t : TokenTable α} (h : t.names.Nodup) {name : String} {value : α} :
    (name, value) ∈ t.entries ↔ t.get? name = some value := by
  rcases t with ⟨es⟩
  induction es with
  | nil => simp [get?]
  | cons e es ih =>
    rcases e with ⟨n, v⟩
    rcases List.nodup_cons.1 h with ⟨hn, hes⟩
    have ih := ih hes
    rw [get?, List.find?_cons]
    by_cases he : n = name
    · subst he
      have hnot : (n, value) ∉ es := fun hm => hn (List.mem_map.2 ⟨_, hm, rfl⟩)
      simp [hnot, eq_comm]
    · simp only [he, decide_false]
      rw [List.mem_cons, Prod.mk.injEq, ih]
      simp [Ne.symm he, get?]

/-- Tables that bind the same names to the same values differ in the order of the names at most. -/
theorem perm_entries_of_get?_eq {t u : TokenTable α} (ht : t.names.Nodup) (hu : u.names.Nodup)
    (h : ∀ name, t.get? name = u.get? name) : t.entries.Perm u.entries := by
  refine (List.perm_ext_iff_of_nodup (List.Nodup.of_map _ ht) (List.Nodup.of_map _ hu)).2 fun e => ?_
  rw [mem_entries_iff ht, mem_entries_iff hu, h]

end TokenTable

end DesignTokens
