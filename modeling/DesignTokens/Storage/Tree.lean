/-!
# Trees of files

A directory holds entries under names: directories, files and symbolic links. A place is the list
of the names that lead to it. Putting something at a place is seen at that place and at no other.
-/

namespace DesignTokens

/-- What a file holds. -/
inductive FileContents where
  | text (s : String)
  /-- Bytes that are no UTF-8 text. -/
  | binary (bytes : List UInt8)
deriving DecidableEq, Repr

/-- The number of bytes of a file. -/
def FileContents.size : FileContents → Nat
  | text s => s.utf8ByteSize
  | binary bytes => bytes.length

/-- What a name in a directory stands for. -/
inductive Node where
  | directory (entries : List (String × Node))
  | file (c : FileContents)
  | link (target : String)

/-- What there is at a place, without what is below it. -/
inductive Kind where
  | directory
  | file (c : FileContents)
  | link (target : String)
deriving DecidableEq, Repr

/-- What a node is, without what is below it. -/
def Node.kind : Node → Kind
  | directory _ => .directory
  | file c => .file c
  | link target => .link target

/-- The entries of a directory. -/
abbrev Listing := List (String × Node)

namespace Listing

def get? (es : Listing) (name : String) : Option Node :=
  (es.find? fun e => e.1 = name).map (·.2)

/-- Gives a name a new meaning, in its place or at the end. -/
def set (name : String) (n : Node) : Listing → Listing
  | [] => [(name, n)]
  | (k, old) :: rest => if k = name then (k, n) :: rest else (k, old) :: set name n rest

/-- Puts something at a place whose directory is there. -/
def put : List String → Node → Listing → Listing
  | [], _, es => es
  | [name], n, es => es.set name n
  | name :: rest, n, es => match es.get? name with
    | some (.directory inner) => es.set name (.directory (put rest n inner))
    | _ => es

/-- Takes away what is at a place, and all that is below it. -/
def erase : List String → Listing → Listing
  | [], es => es
  | [name], es => es.filter fun e => e.1 ≠ name
  | name :: rest, es => match es.get? name with
    | some (.directory inner) => es.set name (.directory (erase rest inner))
    | _ => es

def look : List String → Listing → Option Kind
  | [], _ => some .directory
  | name :: rest, es => match es.get? name with
    | some (.directory inner) => look rest inner
    | some n => if rest = [] then some n.kind else none
    | none => none

/-! ## Laws -/

theorem get?_set (name other : String) (n : Node) (es : Listing) :
    (es.set name n).get? other = if other = name then some n else es.get? other := by
  unfold get?
  induction es with
  | nil =>
    by_cases h : name = other
    · simp [set, h]
    · simp [set, h, Ne.symm h]
  | cons e rest ih =>
    obtain ⟨k, old⟩ := e
    by_cases hk : k = name
    · subst hk
      by_cases ho : k = other
      · simp [set, ho]
      · simp [set, ho, Ne.symm ho]
    · by_cases ho : k = other
      · subst ho
        simp [set, hk]
      · simpa [set, hk, ho] using ih

theorem look_nil {names : List String} (h : names ≠ []) : look names [] = none := by
  cases names with
  | nil => exact absurd rfl h
  | cons name rest => rfl

theorem look_of_directory {es inner : Listing} {name : String}
    (h : es.get? name = some (.directory inner)) (rest : List String) :
    look (name :: rest) es = look rest inner := by
  simp [look, h]

theorem exists_directory {es : Listing} {name : String} (rest : List String) {next : String}
    {k : Kind} (h : look (name :: next :: rest) es = some k) :
    ∃ inner, es.get? name = some (.directory inner) := by
  cases hget : es.get? name with
  | none => simp [look, hget] at h
  | some m => cases m <;> simp [look, hget] at h ⊢

theorem exists_directory_of_look {es : Listing} {name : String}
    (h : look [name] es = some .directory) : ∃ inner, es.get? name = some (.directory inner) := by
  cases hget : es.get? name with
  | none => simp [look, hget] at h
  | some m => cases m <;> simp [look, hget, Node.kind] at h ⊢

theorem look_below_leaf {es : Listing} {name : String}
    (h : look [name] es ≠ some .directory) (next : String) (rest : List String) :
    look (name :: next :: rest) es = none := by
  cases hlook : look (name :: next :: rest) es with
  | none => rfl
  | some k =>
    obtain ⟨inner, hinner⟩ := exists_directory rest hlook
    exact absurd (look_of_directory hinner []) h

/-- **What is put at a place is seen there, and nowhere else.** The directory of the place must be
there; no directory may be there already; and a directory that is put is empty. -/
theorem look_put {n : Node} (hn : ∀ es, n = .directory es → es = []) (names : List String)
    (hne : names ≠ []) (es : Listing) (hparent : look names.dropLast es = some .directory)
    (hold : look names es ≠ some .directory) (other : List String) :
    look other (put names n es) = if other = names then some n.kind else look other es := by
  induction names generalizing es other with
  | nil => exact absurd rfl hne
  | cons name rest ih =>
    cases other with
    | nil => simp [look]
    | cons o os =>
      cases rest with
      | nil =>
        by_cases ho : o = name
        · subst ho
          cases os with
          | nil => cases n <;> simp [put, look, get?_set, Node.kind]
          | cons p ps =>
            rw [look_below_leaf hold p ps]
            cases n with
            | directory inner =>
              obtain rfl := hn inner rfl
              rw [put, look_of_directory (by rw [get?_set, if_pos rfl]),
                look_nil (List.cons_ne_nil p ps)]
              simp
            | file c => simp [put, look, get?_set]
            | link t => simp [put, look, get?_set]
        · simp [put, look, get?_set, ho]
      | cons next rest =>
        rw [List.dropLast_cons_of_ne_nil (List.cons_ne_nil next rest)] at hparent
        obtain ⟨inner, hget⟩ : ∃ inner, es.get? name = some (.directory inner) := by
          cases hd : (next :: rest).dropLast with
          | nil => exact exists_directory_of_look (hd ▸ hparent)
          | cons a as => exact exists_directory as (hd ▸ hparent)
        rw [look_of_directory hget] at hparent hold
        have hput : put (name :: next :: rest) n es =
            es.set name (.directory (put (next :: rest) n inner)) := by
          simp [put, hget]
        rw [hput]
        by_cases ho : o = name
        · subst ho
          rw [look_of_directory (by rw [get?_set, if_pos rfl]), look_of_directory hget,
            ih (List.cons_ne_nil next rest) inner hparent hold os]
          simp
        · simp [look, get?_set, ho]

end Listing

/-! ## All places -/

mutual

def Node.placesOf (names : List String) : Node → List (List String × Kind)
  | .directory entries => Node.placesOfAll names entries
  | _ => []

/-- The places of the entries of a directory, and those below them. -/
def Node.placesOfAll (names : List String) : List (String × Node) → List (List String × Kind)
  | [] => []
  | (name, n) :: rest =>
    (names ++ [name], n.kind) :: (Node.placesOf (names ++ [name]) n ++ Node.placesOfAll names rest)

end

/-- The places below a directory. -/
def Listing.places (es : Listing) : List (List String × Kind) :=
  Node.placesOfAll [] es

end DesignTokens
