import DesignTokens.Proofs.Storage.View

/-!
# Reading what was written

A path that a file can be written at leads to the same place when it is read: what is asked of such
a path beyond that is only that it ends in a name. So a text that stands at the place of a path is
what is read there.
-/

namespace DesignTokens

/-- A host that reads at a path what it shows at the place of the path. -/
def Host.Reads {σ : Type} (host : Host (StateM σ)) (v : FileView σ) : Prop :=
  ∀ s path place text, v.leadsTo s path = some place →
    v.look s place = some (.file (.text text)) → (host.readText path s).1 = .ok text

/-! ## Ways that are made and ways that are found -/

theorem walkWith_of_making {follow follow' : Spot → List String → Except HostError Arrival}
    (hfollow : ∀ s steps a, follow s steps = .ok a → follow' s steps = .ok a) {s : Spot}
    {steps : List String} {a : Arrival} (h : walkWith true follow s steps = .ok a) :
    walkWith false follow' s steps = .ok a := by
  induction steps generalizing s with
  | nil => exact h
  | cons step rest ih =>
    rw [walkWith] at h ⊢
    rw [if_neg (fun hmaking => Bool.false_ne_true hmaking.1)]
    split at h
    · cases h
    · by_cases hidle : Path.isIdle step = true
      · rw [if_pos hidle] at h ⊢
        exact ih h
      · rw [if_neg hidle] at h ⊢
        by_cases hup : step = ".."
        · rw [if_pos hup] at h ⊢
          exact ih h
        · rw [if_neg hup] at h ⊢
          by_cases hlong : Path.nameBytes < step.utf8ByteSize
          · rw [if_pos hlong] at h
            cases h
          · rw [if_neg hlong] at h ⊢
            cases hget : s.here.get? step with
            | none =>
              rw [hget] at h
              exact h
            | some n =>
              rw [hget] at h
              cases n with
              | directory inner => exact ih h
              | file c => exact h
              | link target => exact hfollow _ _ _ h

theorem walk_of_making (links : Nat) {s : Spot} {steps : List String} {a : Arrival}
    (h : walk true links s steps = .ok a) : walk false links s steps = .ok a := by
  induction links generalizing s steps a with
  | zero => exact walkWith_of_making (fun _ _ _ hend => hend) h
  | succ links ih => exact walkWith_of_making (fun _ _ _ hlink => ih hlink) h

namespace FileSystem

variable {fs : FileSystem}

theorem resolve_of_making {path : String} {a : Arrival} (h : fs.resolve true path = .ok a) :
    fs.resolve false path = .ok a := by
  unfold resolve at h ⊢
  cases haccept : fs.accept path with
  | error e =>
    rw [haccept] at h
    cases h
  | ok inner =>
    rw [haccept] at h
    have hwalk : fs.walk true (Path.steps inner) = .ok a := h
    exact walk_of_making linkLimit hwalk

/-- **File systems read at a path what is seen at its place.** -/
theorem reads_host (now : Instant) : (host now).Reads view := by
  intro fs path place text hplace hlook
  show fs.readText path = .ok text
  obtain ⟨names, hgoal, hsighted⟩ := Option.bind_eq_some_iff.1 hplace
  have hsight := sighted_eq_some_iff.1 hsighted
  obtain ⟨a, harrives, htarget⟩ := Option.bind_eq_some_iff.1 hgoal
  have hresolve : fs.resolve true path = .ok a := by
    cases hway : fs.resolve true path with
    | error e =>
      rw [hway] at harrives
      cases harrives
    | ok b =>
      rw [hway] at harrives
      cases harrives
      rfl
  have hknown := known_resolve hresolve
  have hthere (s : Spot) (name : String) (hs : s.Known fs.top) (heq : s.placeOf name = place.1) :
      Listing.look [name] s.here = some (.file (.text text)) := by
    rw [← hs.look_placeOf (heq ▸ place.2), heq]
    exact hlook
  cases a with
  | directory s => cases htarget
  | vacant s name =>
    obtain ⟨hs, -, hget⟩ := hknown
    cases htarget
    have hnone := hthere s name hs hsight
    simp [Listing.look, hget] at hnone
  | file s name c =>
    obtain ⟨hs, -, hget⟩ := hknown
    cases htarget
    have hfile := hthere s name hs hsight
    simp only [Listing.look, hget, if_true, Node.kind, Option.some.injEq, Kind.file.injEq] at hfile
    rw [readText, read, resolve_of_making hresolve, hfile]

end FileSystem

end DesignTokens
