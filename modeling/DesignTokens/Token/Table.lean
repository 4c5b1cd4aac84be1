/-!
# Token tables

A table binds names to values. A name that is bound again keeps its place and takes the new value,
so the names stand in the order of their first binding.
-/

namespace DesignTokens

/-- Bindings of names, each name once. -/
structure TokenTable (α : Type) where
  entries : List (String × α)
deriving DecidableEq, Repr

namespace TokenTable

variable {α : Type}

/-- A table without bindings. -/
def empty : TokenTable α := ⟨[]⟩

/-- Binds a name in a list of bindings. -/
def insertIn (name : String) (value : α) : List (String × α) → List (String × α)
  | [] => [(name, value)]
  | (n, v) :: rest =>
    if n = name then (n, value) :: rest else (n, v) :: insertIn name value rest

/-- Binds a name. -/
def insert (t : TokenTable α) (name : String) (value : α) : TokenTable α :=
  ⟨insertIn name value t.entries⟩

def get? (t : TokenTable α) (name : String) : Option α :=
  (t.entries.find? fun e => e.1 = name).map (·.2)

def contains (t : TokenTable α) (name : String) : Bool :=
  t.entries.any fun e => e.1 = name

/-- The names in the order of their first binding. -/
def names (t : TokenTable α) : List String :=
  t.entries.map (·.1)

/-- The number of names. -/
def size (t : TokenTable α) : Nat :=
  t.entries.length

/-- Whether no name is bound. -/
def isEmpty (t : TokenTable α) : Bool :=
  t.entries.isEmpty

/-! ## What a binding does -/

theorem find?_insertIn (name other : String) (value : α) (es : List (String × α)) :
    ((insertIn name value es).find? fun e => e.1 = other).map (·.2) =
      if other = name then some value else (es.find? fun e => e.1 = other).map (·.2) := by
  induction es with
  | nil =>
    by_cases h : name = other
    · simp [insertIn, h]
    · simp [insertIn, h, Ne.symm h]
  | cons e rest ih =>
    obtain ⟨n, v⟩ := e
    by_cases hn : n = name
    · subst hn
      by_cases ho : n = other
      · simp [insertIn, ho]
      · simp [insertIn, ho, Ne.symm ho]
    · by_cases ho : n = other
      · subst ho
        simp [insertIn, hn]
      · simp [insertIn, hn, ho, ih]

/-- The name has the new value, every other name its old one. -/
theorem get?_insert (t : TokenTable α) (name other : String) (value : α) :
    (t.insert name value).get? other = if other = name then some value else t.get? other :=
  find?_insertIn name other value t.entries

theorem names_insertIn (name : String) (value : α) (es : List (String × α)) :
    (insertIn name value es).map (·.1) =
      if name ∈ es.map (·.1) then es.map (·.1) else es.map (·.1) ++ [name] := by
  induction es with
  | nil => simp [insertIn]
  | cons e rest ih =>
    obtain ⟨n, v⟩ := e
    by_cases hn : n = name
    · simp [insertIn, hn]
    · simp only [insertIn, hn, if_false, List.map_cons, ih, List.mem_cons, Ne.symm hn, false_or]
      split <;> simp

/-- A new name goes to the end, a bound one keeps its place. -/
theorem names_insert (t : TokenTable α) (name : String) (value : α) :
    (t.insert name value).names = if name ∈ t.names then t.names else t.names ++ [name] :=
  names_insertIn name value t.entries

/-- Binding keeps the names distinct. -/
theorem names_nodup_insert {t : TokenTable α} (h : t.names.Nodup) (name : String) (value : α) :
    (t.insert name value).names.Nodup := by
  rw [names_insert]
  split
  · exact h
  · rename_i hn
    refine List.nodup_append.2 ⟨h, by simp, ?_⟩
    intro a ha b hb
    rw [List.mem_singleton.1 hb]
    exact fun hab => hn (hab ▸ ha)

end TokenTable

end DesignTokens
