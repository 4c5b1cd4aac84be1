import DesignTokens.Storage.FileSystem
import Mathlib.Data.List.Forall2

/-!
# Hosts that treat files as systems promise to

A write replaces the whole file that its path leads to, or nothing; making directories adds
directories; all other questions change no file. File systems keep this promise. That a write
changes no way to another file rests on the walk: a way goes through directories and links, and
listings that have these in common lead every path to one place.
-/

namespace DesignTokens

/-! ## What is seen of a host -/

/-- What can be seen of the files of a host. -/
structure FileView (σ : Type) where
  Place : Type
  look : σ → Place → Option Kind
  /-- The place of the file that a path leads to, if there can be one and it is in sight. -/
  leadsTo : σ → String → Option Place

namespace FileView

variable {σ : Type} (v : FileView σ)

/-- Nothing has happened. -/
structure Same (s s' : σ) : Prop where
  look : v.look s' = v.look s
  leadsTo : v.leadsTo s' = v.leadsTo s

/-- Directories have been made where there was nothing, and nothing else has happened. -/
def OnlyDirectories (s s' : σ) : Prop :=
  ∀ place, v.look s' place = v.look s place ∨
    v.look s place = none ∧ v.look s' place = some .directory

variable {v} {s₁ s₂ s₃ : σ}

theorem Same.refl (s : σ) : v.Same s s := ⟨rfl, rfl⟩

theorem Same.trans (h : v.Same s₁ s₂) (h' : v.Same s₂ s₃) : v.Same s₁ s₃ :=
  ⟨h'.look.trans h.look, h'.leadsTo.trans h.leadsTo⟩

theorem OnlyDirectories.of_look (h : v.look s₂ = v.look s₁) : v.OnlyDirectories s₁ s₂ :=
  fun place => .inl (congrFun h place)

theorem OnlyDirectories.trans (h : v.OnlyDirectories s₁ s₂) (h' : v.OnlyDirectories s₂ s₃) :
    v.OnlyDirectories s₁ s₃ := by
  intro place
  rcases h' place with hsame | ⟨hnone, hdir⟩
  · rw [hsame]
    exact h place
  · refine .inr ⟨?_, hdir⟩
    rcases h place with hsame | ⟨hnone', -⟩
    · rw [← hsame, hnone]
    · exact hnone'

end FileView

/-- A host that treats files as systems promise to. -/
structure Host.Obeys {σ : Type} (host : Host (StateM σ)) (v : FileView σ) : Prop where
  examine : ∀ path s, v.Same s (host.examine path s).2
  readText : ∀ path s, v.Same s (host.readText path s).2
  now : ∀ s, v.Same s (host.now s).2
  clock : ∀ s, v.Same s (host.clock s).2
  makeDirectories : ∀ path s, v.OnlyDirectories s (host.makeDirectories path s).2
  /-- A write replaces the whole file that the path leads to, and touches no other place, -/
  written : ∀ path text s, (host.writeText path text s).1 = .ok () → ∀ place,
    (v.leadsTo s path = some place →
      v.look (host.writeText path text s).2 place = some (.file (.text text))) ∧
    (v.leadsTo s path ≠ some place →
      v.look (host.writeText path text s).2 place = v.look s place)
  /-- or it is refused and touches none. -/
  refused : ∀ path text s e, (host.writeText path text s).1 = .error e →
    v.look (host.writeText path text s).2 = v.look s
  /-- A file is on the way to no other place. -/
  ways : ∀ path text s, v.leadsTo (host.writeText path text s).2 = v.leadsTo s

/-! ## What a change of the tree does to other places -/

namespace Listing

/-- What can lie on the way to other places; files cannot. -/
def way? : Option Kind → Option Kind
  | none | some (.file _) => none
  | some .directory => some .directory
  | some (.link target) => some (.link target)

/-- Two listings with the same directories and the same links. Two dots are no name. -/
def SameWays (es es' : Listing) : Prop :=
  ∀ place, ".." ∉ place → way? (look place es') = way? (look place es)

theorem look_put_of_head {name : String} (rest : List String) (n : Node) (es : Listing)
    {other : List String} (h : other.head? ≠ some name) :
    look other (put (name :: rest) n es) = look other es := by
  cases other with
  | nil => simp [look]
  | cons o os =>
    have hne : o ≠ name := fun heq => h (congrArg some heq)
    have hset (m : Node) : look (o :: os) (es.set name m) = look (o :: os) es := by
      simp [look, get?_set, hne]
    cases rest with
    | nil => exact hset n
    | cons next rest =>
      rw [put]
      split
      · exact hset _
      · rfl
      · exact List.cons_ne_nil next rest

theorem sameWays_cons {es es' : Listing} (h : SameWays es es') {name : String}
    (hname : name ≠ "..") {inner inner' : Listing} (hi : es.get? name = some (.directory inner))
    (hi' : es'.get? name = some (.directory inner')) : SameWays inner inner' := by
  intro place hplace
  have := h (name :: place) (by simp [hplace, Ne.symm hname])
  rwa [look_of_directory hi, look_of_directory hi'] at this

/-- What two listings with the same ways have under one name. -/
inductive SameEntry : Option Node → Option Node → Prop
  | directory {inner inner' : Listing} (h : SameWays inner inner') :
      SameEntry (some (.directory inner)) (some (.directory inner'))
  | link {target : String} : SameEntry (some (.link target)) (some (.link target))
  | leaf {n n' : Option Node} (h : n = none ∨ ∃ c, n = some (.file c))
      (h' : n' = none ∨ ∃ c, n' = some (.file c)) : SameEntry n n'

theorem SameWays.entry {es es' : Listing} (h : SameWays es es') {name : String}
    (hname : name ≠ "..") : SameEntry (es.get? name) (es'.get? name) := by
  have hlook := h [name] (by simpa using Ne.symm hname)
  have hone (es : Listing) : look [name] es = (es.get? name).map Node.kind := by
    simp only [look]
    split
    · rename_i heq; rw [heq]; rfl
    · rename_i heq; rw [heq]; rfl
    · rename_i heq; rw [heq]; rfl
  rw [hone, hone] at hlook
  rcases hn : es.get? name with _ | (inner | c | target) <;>
    rcases hn' : es'.get? name with _ | (inner' | c' | target') <;>
    rw [hn, hn'] at hlook
  case some.directory.some.directory => exact .directory (sameWays_cons h hname hn hn')
  case some.link.some.link =>
    cases hlook
    exact .link
  case none.none => exact .leaf (.inl rfl) (.inl rfl)
  case none.some.file => exact .leaf (.inl rfl) (.inr ⟨_, rfl⟩)
  case some.file.none => exact .leaf (.inr ⟨_, rfl⟩) (.inl rfl)
  case some.file.some.file => exact .leaf (.inr ⟨_, rfl⟩) (.inr ⟨_, rfl⟩)
  all_goals cases hlook

end Listing

/-! ## Ways that stay the same -/

/-- Where a way ends that a file can be written at. -/
def Arrival.target? : Arrival → Option (List String)
  | .file s name _ | .vacant s name => some (s.placeOf name)
  | .directory _ => none

namespace Spot

/-- Two spots at one place in listings with the same ways. -/
structure SameWays (s s' : Spot) : Prop where
  names : s'.names = s.names
  above : List.Forall₂ Listing.SameWays s.above s'.above
  here : Listing.SameWays s.here s'.here

theorem SameWays.rfl {s : Spot} : SameWays s s :=
  ⟨Eq.refl _, List.forall₂_same.2 fun _ _ _ _ => Eq.refl _, fun _ _ => Eq.refl _⟩

theorem SameWays.up {s s' : Spot} (h : SameWays s s') : SameWays s.up s'.up := by
  obtain ⟨names, above, here⟩ := s
  obtain ⟨names', above', here'⟩ := s'
  obtain ⟨rfl, habove, hhere⟩ := h
  cases habove with
  | nil =>
    cases names' <;> exact .rfl
  | cons hfirst hrest =>
    cases names' with
    | nil => exact .rfl
    | cons name names => exact ⟨Eq.refl _, hrest, hfirst⟩

theorem SameWays.down {s s' : Spot} (h : SameWays s s') (name : String) {inner inner' : Listing}
    (hinner : Listing.SameWays inner inner') : SameWays (s.down name inner) (s'.down name inner') :=
  ⟨congrArg (name :: ·) h.names, .cons h.here h.above, hinner⟩

theorem SameWays.placeOf {s s' : Spot} (h : SameWays s s') (name : String) :
    s'.placeOf name = s.placeOf name := by
  rw [Spot.placeOf, Spot.placeOf, h.names]

end Spot

/-- Where a way leads, if a file can be written there. -/
def goal (w : Except HostError Arrival) : Option (List String) :=
  w.toOption.bind Arrival.target?

theorem goal_walkWith {making : Bool} {follow : Spot → List String → Except HostError Arrival}
    (hfollow : ∀ s s' steps, s.SameWays s' → goal (follow s' steps) = goal (follow s steps))
    {s s' : Spot} (h : s.SameWays s') (steps : List String) :
    goal (walkWith making follow s' steps) = goal (walkWith making follow s steps) := by
  induction steps generalizing s s' with
  | nil => rfl
  | cons step rest ih =>
    rw [walkWith, walkWith]
    split
    · rfl
    · split
      · exact ih h
      · split
        · exact ih h.up
        · rename_i hdots
          split
          · rfl
          · have hentry := h.here.entry hdots
            generalize s.here.get? step = n at hentry
            generalize s'.here.get? step = n' at hentry
            cases hentry with
            | directory hinner => exact ih (h.down step hinner)
            | link =>
              refine hfollow _ _ _ ?_
              split
              · exact .rfl
              · exact h
            | leaf hn hn' =>
              rcases hn with rfl | ⟨c, rfl⟩ <;> rcases hn' with rfl | ⟨c', rfl⟩ <;>
                by_cases hrest : rest = [] <;>
                simp [hrest, goal, Except.toOption, Arrival.target?, h.placeOf]

theorem goal_walk {making : Bool} (links : Nat) {s s' : Spot} (h : s.SameWays s')
    (steps : List String) :
    goal (walk making links s' steps) = goal (walk making links s steps) := by
  induction links generalizing s s' steps with
  | zero => exact goal_walkWith (fun _ _ _ _ => rfl) h steps
  | succ links ih => exact goal_walkWith (fun s s' steps h => ih h steps) h steps

/-! ## Where ways end -/

namespace Spot

/-- A spot that a way has come to without leaving the tree. -/
inductive Inside (top : Listing) : Spot → Prop
  | start : Inside top (.start top)
  | down {s : Spot} {name : String} {inner : Listing} (hs : Inside top s) (hname : name ≠ "..")
      (h : s.here.get? name = some (.directory inner)) : Inside top (s.down name inner)

/-- A spot above the tree, where nothing is known. -/
structure Outside (s : Spot) : Prop where
  names : s.names.getLast? = some ".."
  above : s.above = []
  here : s.here = []

def Known (top : Listing) (s : Spot) : Prop := Inside top s ∨ Outside s

variable {top : Listing} {s : Spot} {name : String}

theorem Inside.look_append (h : Inside top s) (rest : List String) :
    Listing.look (s.names.reverse ++ rest) top = Listing.look rest s.here := by
  induction h generalizing rest with
  | start => rfl
  | @down s name inner _ _ hget ih =>
    rw [Spot.down, List.reverse_cons, List.append_assoc, ih]
    exact Listing.look_of_directory hget rest

theorem Inside.not_mem_names (h : Inside top s) : ".." ∉ s.names := by
  induction h with
  | start => exact List.not_mem_nil
  | down _ hname _ ih => exact List.not_mem_cons_of_ne_of_not_mem (Ne.symm hname) ih

theorem Outside.root : Outside .root := ⟨rfl, rfl, rfl⟩

theorem Outside.up (h : Outside s) : Outside s.up := by
  obtain ⟨names, above, here⟩ := s
  obtain ⟨hnames, rfl, rfl⟩ := h
  refine ⟨?_, by cases names <;> rfl, by cases names <;> rfl⟩
  cases names with
  | nil => cases hnames
  | cons last before => exact (List.getLast?_cons_cons ..).trans hnames

theorem Known.up (h : Known top s) : Known top s.up := by
  rcases h with (_ | ⟨hs, _, _⟩) | houtside
  · exact .inr ⟨rfl, rfl, rfl⟩
  · exact .inl hs
  · exact .inr houtside.up

theorem Known.down (h : Known top s) (hname : name ≠ "..") {inner : Listing}
    (hget : s.here.get? name = some (.directory inner)) : Known top (s.down name inner) := by
  rcases h with hinside | houtside
  · exact .inl (.down hinside hname hget)
  · rw [houtside.here] at hget
    cases hget

theorem Inside.look_placeOf (h : Inside top s) (name : String) :
    Listing.look (s.placeOf name) top = Listing.look [name] s.here := by
  rw [placeOf, List.reverse_cons, h.look_append]

theorem Inside.head?_placeOf (h : Inside top s) (hname : name ≠ "..") :
    (s.placeOf name).head? ≠ some ".." := by
  intro hhead
  have hmem : ".." ∈ name :: s.names := List.mem_reverse.1 (List.mem_of_head? hhead)
  rcases List.mem_cons.1 hmem with heq | hmem
  · exact hname heq.symm
  · exact h.not_mem_names hmem

theorem Outside.head?_placeOf (h : Outside s) (name : String) :
    (s.placeOf name).head? = some ".." := by
  rw [placeOf, List.head?_reverse, List.getLast?_cons, h.names]
  rfl

theorem Known.look_placeOf (h : Known top s) (hsight : (s.placeOf name).head? ≠ some "..") :
    Listing.look (s.placeOf name) top = Listing.look [name] s.here := by
  rcases h with hinside | houtside
  · exact hinside.look_placeOf name
  · exact absurd (houtside.head?_placeOf name) hsight

/-- What is put at a spot is seen there, and nowhere else below the top. -/
theorem Known.look_put (h : Known top s)
    (hfree : Listing.look [name] s.here ≠ some .directory) {n : Node}
    (hn : ∀ es, n = .directory es → es = []) {other : List String}
    (hother : other.head? ≠ some "..") :
    Listing.look other (top.put (s.placeOf name) n) =
      if other = s.placeOf name then some n.kind else Listing.look other top := by
  rcases h with hinside | houtside
  · have hne : s.placeOf name ≠ [] := by simp [placeOf]
    have hparent : Listing.look (s.placeOf name).dropLast top = some .directory := by
      have hbefore : (s.placeOf name).dropLast = s.names.reverse ++ [] := by simp [placeOf]
      rw [hbefore, hinside.look_append]
      rfl
    rw [← hinside.look_placeOf name] at hfree
    exact Listing.look_put hn _ hne top hparent hfree other
  · have hhead := houtside.head?_placeOf name
    have hne : other ≠ s.placeOf name := fun heq => hother (heq ▸ hhead)
    rw [if_neg hne]
    obtain ⟨rest, hrest⟩ := List.head?_eq_some_iff.1 hhead
    rw [hrest]
    exact Listing.look_put_of_head rest n top hother

end Spot

/-- A way has come to a spot, and what it has found there is there. -/
def Arrival.Known (top : Listing) : Arrival → Prop
  | .directory s => s.Known top
  | .file s name c => s.Known top ∧ name ≠ ".." ∧ s.here.get? name = some (.file c)
  | .vacant s name => s.Known top ∧ name ≠ ".." ∧ s.here.get? name = none

theorem known_walkWith {top : Listing} {making : Bool}
    {follow : Spot → List String → Except HostError Arrival}
    (hfollow : ∀ s steps a, s.Known top → follow s steps = .ok a → a.Known top)
    {s : Spot} (h : s.Known top) (steps : List String) {a : Arrival}
    (ha : walkWith making follow s steps = .ok a) : a.Known top := by
  induction steps generalizing s with
  | nil =>
    cases ha
    exact h
  | cons step rest ih =>
    rw [walkWith] at ha
    split at ha
    · cases ha
    · split at ha
      · exact ih h ha
      · split at ha
        · exact ih h.up ha
        · rename_i hdots
          split at ha
          · cases ha
          · split at ha
            · rename_i hnone
              split at ha
              · cases ha
                exact ⟨h, hdots, hnone⟩
              · cases ha
            · rename_i hdir
              exact ih (h.down hdots hdir) ha
            · rename_i hfile
              split at ha
              · cases ha
                exact ⟨h, hdots, hfile⟩
              · cases ha
            · refine hfollow _ _ _ ?_ ha
              split
              · exact .inr .root
              · exact h

theorem known_walk {top : Listing} {making : Bool} (links : Nat) {s : Spot} (h : s.Known top)
    (steps : List String) {a : Arrival} (ha : walk making links s steps = .ok a) : a.Known top := by
  induction links generalizing s steps a with
  | zero =>
    refine known_walkWith (fun _ _ _ _ hend => ?_) h steps ha
    cases hend
  | succ links ih => exact known_walkWith (fun s steps a h ha => ih h steps ha) h steps ha

/-! ## A file system as it is seen -/

namespace FileSystem

/-- A place below the working directory. -/
abbrev Sight := { names : List String // names.head? ≠ some ".." }

def sighted (names : List String) : Option Sight :=
  if h : names.head? ≠ some ".." then some ⟨names, h⟩ else none

/-- What can be seen of a file system from its working directory. -/
def view : FileView FileSystem where
  Place := Sight
  look fs place := fs.look place.1
  leadsTo fs path := (goal (fs.resolve true path)).bind sighted

variable {fs fs' : FileSystem}

theorem known_resolve {making : Bool} {path : String} {a : Arrival}
    (h : fs.resolve making path = .ok a) : a.Known fs.top := by
  unfold resolve at h
  cases haccept : fs.accept path with
  | error e =>
    rw [haccept] at h
    cases h
  | ok inner =>
    rw [haccept] at h
    exact known_walk linkLimit (.inl .start) (Path.steps inner) h

theorem goal_resolve (hbase : fs'.base = fs.base) (hways : fs.top.SameWays fs'.top)
    (making : Bool) (path : String) :
    goal (fs'.resolve making path) = goal (fs.resolve making path) := by
  have haccept : fs'.accept path = fs.accept path := by
    cases fs
    cases fs'
    cases hbase
    rfl
  have hstart : (Spot.start fs.top).SameWays (.start fs'.top) := ⟨rfl, .nil, hways⟩
  unfold resolve
  rw [haccept]
  cases fs.accept path with
  | error e => rfl
  | ok inner => exact goal_walk linkLimit hstart (Path.steps inner)

/-! ### Writing -/

theorem writePlace_eq_ok_iff {path : String} {place : List String} :
    fs.writePlace path = .ok place ↔ goal (fs.resolve true path) = some place := by
  rw [writePlace]
  cases fs.resolve true path with
  | error e => simp [goal, Except.toOption]
  | ok a => cases a <;> simp [goal, Except.toOption, Arrival.target?]

theorem exists_spot {making : Bool} {path : String} {place : List String}
    (h : goal (fs.resolve making path) = some place) :
    ∃ (s : Spot) (name : String), place = s.placeOf name ∧ s.Known fs.top ∧ name ≠ ".." ∧
      Listing.way? (Listing.look [name] s.here) = none := by
  cases ha : fs.resolve making path with
  | error e =>
    rw [ha] at h
    cases h
  | ok a =>
    rw [ha] at h
    have hknown := known_resolve ha
    cases a with
    | directory s => cases h
    | file s name c =>
      cases h
      obtain ⟨hs, hname, hget⟩ := hknown
      exact ⟨s, name, rfl, hs, hname, by simp [Listing.look, hget, Node.kind, Listing.way?]⟩
    | vacant s name =>
      cases h
      obtain ⟨hs, hname, hget⟩ := hknown
      exact ⟨s, name, rfl, hs, hname, by simp [Listing.look, hget, Listing.way?]⟩

variable {path : String} {place : List String}

/-- A file that is written at the end of a path is seen there, and nowhere else. -/
theorem look_put_goal (h : goal (fs.resolve true path) = some place) (c : FileContents)
    {other : List String} (hother : other.head? ≠ some "..") :
    (fs.put place (.file c)).look other =
      if other = place then some (.file c) else fs.look other := by
  obtain ⟨s, name, rfl, hs, -, hway⟩ := exists_spot h
  refine hs.look_put (fun hdir => ?_) (n := .file c) (fun _ heq => by cases heq) hother
  rw [hdir] at hway
  cases hway

/-- A file that is written changes no way. -/
theorem sameWays_put_goal (h : goal (fs.resolve true path) = some place) (c : FileContents) :
    fs.top.SameWays (fs.put place (.file c)).top := by
  intro other hdots
  have hother : other.head? ≠ some ".." := fun hhead => hdots (List.mem_of_head? hhead)
  have hlook : Listing.look other (fs.put place (.file c)).top = _ := look_put_goal h c hother
  rw [hlook]
  split
  · rename_i heq
    obtain ⟨s, name, rfl, hs, -, hway⟩ := exists_spot h
    rw [heq, hs.look_placeOf (heq ▸ hother), hway]
    rfl
  · rfl

/-! ### Making directories -/

theorem known_parentOf {names : List String} {s : Spot} {last : String}
    (h : fs.parentOf names = .ok (s, last)) : s.Known fs.top := by
  unfold parentOf at h
  split at h
  · cases h
  · split at h
    · rename_i hwalk
      cases h
      exact known_walk linkLimit (.inl .start) _ hwalk
    all_goals cases h

theorem exists_of_makeDirectory {names : List String} (h : fs.makeDirectory names = .ok fs') :
    ∃ (s : Spot) (last : String), s.Known fs.top ∧ s.here.get? last = none ∧
      fs' = fs.put (s.placeOf last) (.directory []) := by
  unfold makeDirectory at h
  split at h
  · cases h
  · rename_i s last hspot
    split at h
    · cases h
    · split at h
      · cases h
      · split at h
        · cases h
        · rename_i hfree
          cases h
          rw [Bool.not_eq_true, Option.isSome_eq_false_iff, Option.isNone_iff_eq_none] at hfree
          exact ⟨s, last, known_parentOf hspot, hfree, rfl⟩

theorem onlyDirectories_makeDirectory {names : List String}
    (h : fs.makeDirectory names = .ok fs') : view.OnlyDirectories fs fs' := by
  obtain ⟨s, last, hs, hfree, rfl⟩ := exists_of_makeDirectory h
  have hlook : Listing.look [last] s.here = none := by simp [Listing.look, hfree]
  have hvacant : Listing.look [last] s.here ≠ some .directory := by simp [hlook]
  intro place
  have hput := hs.look_put hvacant (n := .directory []) (fun es heq => by cases heq; rfl) place.2
  by_cases heq : place.1 = s.placeOf last
  · rw [if_pos heq] at hput
    have hbefore : Listing.look (s.placeOf last) fs.top = _ := hs.look_placeOf (heq ▸ place.2)
    rw [hlook, ← heq] at hbefore
    exact .inr ⟨hbefore, hput⟩
  · rw [if_neg heq] at hput
    exact .inl hput

theorem onlyDirectories_ensureDirectory (names : List String) :
    view.OnlyDirectories fs (fs.ensureDirectory names).2 := by
  rw [ensureDirectory]
  split
  · rename_i hmade
    exact onlyDirectories_makeDirectory hmade
  · split <;> exact .of_look rfl

theorem onlyDirectories_behind {way : Except HostError Unit × FileSystem}
    (h : view.OnlyDirectories fs way.2) (names : List String) :
    view.OnlyDirectories fs (match way with
      | (.ok (), fs) => fs.ensureDirectory names
      | (.error e, fs) => (.error e, fs)).2 := by
  rcases way with ⟨_ | _, fs₁⟩
  · exact h
  · exact h.trans (onlyDirectories_ensureDirectory names)

theorem onlyDirectories_makeWay (names : List String) :
    view.OnlyDirectories fs (fs.makeWay names).2 := by
  induction names with
  | nil => exact .of_look rfl
  | cons last before ih =>
    simp only [makeWay]
    split
    · exact onlyDirectories_behind ih _
    · exact onlyDirectories_ensureDirectory _

theorem onlyDirectories_makeDirectories (path : String) :
    view.OnlyDirectories fs (fs.makeDirectories path).2 := by
  unfold makeDirectories
  split
  · exact .of_look rfl
  · split
    · exact .of_look rfl
    · simp only
      split
      · exact .of_look rfl
      · split
        · exact onlyDirectories_behind (onlyDirectories_makeWay _) _
        · exact onlyDirectories_ensureDirectory _

/-! ### The host -/

theorem sighted_eq_some_iff {names : List String} {place : Sight} :
    sighted names = some place ↔ names = place.1 := by
  unfold sighted
  split
  · rw [Option.some_inj, Subtype.ext_iff]
  · rename_i hhead
    exact iff_of_false nofun fun heq => hhead (heq ▸ place.2)

/-- A write puts a file at the end of its path, or is refused. -/
theorem writeText_cases (now : Instant) (path text : String) (fs : FileSystem) :
    (∃ place, goal (fs.resolve true path) = some place ∧
      (host now).writeText path text fs = (.ok (), fs.put place (.file (.text text)))) ∨
        ∃ e, (host now).writeText path text fs = (.error e, fs) := by
  cases hplace : fs.writePlace path with
  | ok place =>
    refine .inl ⟨place, writePlace_eq_ok_iff.1 hplace, ?_⟩
    simp only [host, write, hplace]
  | error e =>
    refine .inr ⟨e, ?_⟩
    simp only [host, write, hplace]

/-- **The files of a working directory are treated as systems promise to.** -/
theorem obeys_host (now : Instant) : (host now).Obeys view where
  examine _ _ := .refl _
  readText _ _ := .refl _
  now _ := .refl _
  clock _ := .refl _
  makeDirectories path _ := onlyDirectories_makeDirectories path
  written path text fs hok place := by
    rcases writeText_cases now path text fs with ⟨names, hgoal, hwrite⟩ | ⟨e, hwrite⟩
    · have hlook := look_put_goal hgoal (.text text) place.2
      have hleads : view.leadsTo fs path = some place ↔ names = place.1 := by
        show (goal (fs.resolve true path)).bind sighted = _ ↔ _
        rw [hgoal]
        exact sighted_eq_some_iff
      rw [hwrite]
      refine ⟨fun hsome => ?_, fun hsome => ?_⟩
      · rw [if_pos (hleads.1 hsome).symm] at hlook
        exact hlook
      · rw [if_neg fun heq => hsome (hleads.2 heq.symm)] at hlook
        exact hlook
    · rw [hwrite] at hok
      cases hok
  refused path text fs e herror := by
    rcases writeText_cases now path text fs with ⟨names, hgoal, hwrite⟩ | ⟨e', hwrite⟩
    · rw [hwrite] at herror
      cases herror
    · rw [hwrite]
  ways path text fs := by
    rcases writeText_cases now path text fs with ⟨names, hgoal, hwrite⟩ | ⟨e, hwrite⟩
    · rw [hwrite]
      have hbase : (fs.put names (.file (.text text))).base = fs.base := rfl
      have hsame := goal_resolve hbase (sameWays_put_goal hgoal (.text text)) true
      exact funext fun other => congrArg (Option.bind · sighted) (hsame other)
    · rw [hwrite]

end FileSystem

end DesignTokens
