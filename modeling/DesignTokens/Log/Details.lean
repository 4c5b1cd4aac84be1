/-!
# Details

The details of an event are texts under keys. Whatever order they come in, they are kept in the
order of their keys, and of two texts under one key the later one is kept.
-/

namespace DesignTokens

/-- Texts under keys, in the order of the keys and each key once. -/
@[ext]
structure Details where
  pairs : List (String × String)
  increasing : pairs.Pairwise fun x y => x.1 < y.1

namespace Details

/-- Puts a text under a key, in place of the one that was there. -/
def insertPair (key value : String) : List (String × String) → List (String × String)
  | [] => [(key, value)]
  | (k, v) :: rest =>
    if key < k then (key, value) :: (k, v) :: rest
    else if key = k then (key, value) :: rest
    else (k, v) :: insertPair key value rest

theorem key_of_mem_insertPair {key value : String} {pairs : List (String × String)}
    {x : String × String} (h : x ∈ insertPair key value pairs) : x.1 = key ∨ x ∈ pairs := by
  induction pairs with
  | nil => exact .inl (List.mem_singleton.1 h ▸ rfl)
  | cons y pairs ih =>
    rw [insertPair] at h
    split at h
    · rcases List.mem_cons.1 h with rfl | h
      · exact .inl rfl
      · exact .inr h
    · split at h
      · rcases List.mem_cons.1 h with rfl | h
        · exact .inl rfl
        · exact .inr (List.mem_cons_of_mem _ h)
      · rcases List.mem_cons.1 h with rfl | h
        · exact .inr List.mem_cons_self
        · exact (ih h).imp_right (List.mem_cons_of_mem _)

theorem increasing_insertPair (key value : String) {pairs : List (String × String)}
    (h : pairs.Pairwise fun x y => x.1 < y.1) :
    (insertPair key value pairs).Pairwise fun x y => x.1 < y.1 := by
  induction pairs with
  | nil => exact List.pairwise_singleton ..
  | cons y pairs ih =>
    obtain ⟨hy, hpairs⟩ := List.pairwise_cons.1 h
    rw [insertPair]
    split
    · rename_i hlt
      refine List.pairwise_cons.2 ⟨fun x hx => ?_, h⟩
      rcases List.mem_cons.1 hx with rfl | hx
      · exact hlt
      · exact String.lt_trans hlt (hy x hx)
    · rename_i hnot
      split
      · rename_i heq
        exact List.pairwise_cons.2 ⟨fun x hx => heq ▸ hy x hx, hpairs⟩
      · rename_i hne
        refine List.pairwise_cons.2 ⟨fun x hx => ?_, ih hpairs⟩
        rcases key_of_mem_insertPair hx with hkey | hx
        · rw [hkey]
          exact Std.lt_of_le_of_ne (String.not_lt.1 hnot) (Ne.symm hne)
        · exact hy x hx

def empty : Details := ⟨[], .nil⟩

/-- The same details with a text under a key. -/
def insert (key value : String) (d : Details) : Details :=
  ⟨insertPair key value d.pairs, increasing_insertPair key value d.increasing⟩

/-- Puts texts under keys one after the other. -/
def insertAll (pairs : List (String × String)) (d : Details) : Details :=
  pairs.foldl (fun d (k, v) => d.insert k v) d

/-- Pairs stand for the details that they give one after the other. -/
instance : Coe (List (String × String)) Details where
  coe pairs := empty.insertAll pairs

def isEmpty (d : Details) : Bool := d.pairs.isEmpty

theorem isEmpty_iff {d : Details} : d.isEmpty = true ↔ d = empty :=
  ⟨fun h => Details.ext (List.isEmpty_iff.1 h), fun h => h ▸ rfl⟩

def lookup (d : Details) (key : String) : Option String := d.pairs.lookup key

theorem lookup_insert (key value : String) (d : Details) :
    (d.insert key value).lookup key = some value := by
  show (insertPair key value d.pairs).lookup key = some value
  induction d.pairs with
  | nil => simp [insertPair]
  | cons x pairs ih =>
    rw [insertPair]
    split
    · exact List.lookup_cons_self
    · split
      · exact List.lookup_cons_self
      · rename_i hne
        rw [List.lookup_cons, beq_false_of_ne hne]
        exact ih

def map {α : Type} (d : Details) (f : String × String → α) : List α := d.pairs.map f

/-- The details that a test lets through. -/
def filter (d : Details) (p : String × String → Bool) : Details :=
  ⟨d.pairs.filter p, d.increasing.filter p⟩

end Details

end DesignTokens
