import DesignTokens.Document.Registry
import Mathlib.Data.List.Nodup

/-!
# Registrations

Adapters are offered to a registry one after the other. Each one is taken behind the others, unless
its id or its file name is taken; the refusal says which of the two, and leaves the registry alone.
So ids and file names stay distinct, and the registry ends with the adapters that a greedy choice
keeps.
-/

namespace DesignTokens

/-- Adapters that cannot both be in a registry. -/
def Adapter.clashes (a b : Adapter) : Bool :=
  b.id = a.id || b.fileName = a.fileName

namespace Registry

def fileNames (r : Registry) : List String :=
  r.adapters.map (·.fileName)

/-- The registry behind a registration, and the refusal if there is one. -/
def offer (r : Registry) (a : Adapter) : Registry × Option ExportError :=
  match r.register a with
  | .ok r' => (r', none)
  | .error e => (r, some e)

/-- The registry behind a sequence of registrations, whatever their answers are. -/
def offerAll (r : Registry) (offered : List Adapter) : Registry :=
  offered.foldl (fun r a => (r.offer a).1) r

/-- The adapters that are kept, behind some that are held, if each one is kept that clashes with no
adapter before it that is held or kept. -/
def greedy (held : List Adapter) : List Adapter → List Adapter
  | [] => []
  | a :: offered =>
    if held.any a.clashes then greedy held offered else a :: greedy (held ++ [a]) offered

theorem greedy_sublist (held offered : List Adapter) : (greedy held offered).Sublist offered := by
  induction offered generalizing held with
  | nil => exact .slnil
  | cons a offered ih =>
    rw [greedy]
    split
    · exact (ih held).cons _
    · exact (ih _).cons_cons _

/-! ## One registration -/

variable {r : Registry} {a : Adapter}

/-- What one registration can come to. -/
inductive Offered (r : Registry) (a : Adapter) : Registry × Option ExportError → Prop where
  | taken (hid : a.id ∉ r.ids) (hname : a.fileName ∉ r.fileNames) :
    Offered r a (⟨r.adapters ++ [a]⟩, none)
  | duplicateAdapter (hid : a.id ∈ r.ids) : Offered r a (r, some (.duplicateAdapter a.id))
  | duplicateFileName {b : Adapter} (hid : a.id ∉ r.ids) (hb : b ∈ r.adapters)
    (hname : b.fileName = a.fileName) :
    Offered r a (r, some (.duplicateFileName a.id a.fileName b.id))

theorem any_id_iff : (r.adapters.any fun b => b.id = a.id) = true ↔ a.id ∈ r.ids := by
  simp [ids]

theorem offered_offer (r : Registry) (a : Adapter) : Offered r a (r.offer a) := by
  unfold offer register refusal?
  by_cases hid : a.id ∈ r.ids
  · rw [if_pos (any_id_iff.2 hid)]
    exact .duplicateAdapter hid
  · rw [if_neg (mt any_id_iff.1 hid)]
    cases hfind : r.adapters.find? fun b => b.fileName = a.fileName with
    | some b =>
      exact .duplicateFileName hid (List.mem_of_find?_eq_some hfind)
        (by simpa using List.find?_some hfind)
    | none =>
      refine .taken hid fun hname => ?_
      obtain ⟨b, hb, hsame⟩ := List.mem_map.1 hname
      exact List.find?_eq_none.1 hfind b hb (decide_eq_true hsame)

theorem offer_of_register {r' : Registry} (h : r.register a = .ok r') :
    r.offer a = (r', none) := by
  rw [offer, h]

theorem any_clashes_iff :
    r.adapters.any a.clashes = true ↔ a.id ∈ r.ids ∨ a.fileName ∈ r.fileNames := by
  simp only [Adapter.clashes, ids, fileNames, List.any_eq_true, List.mem_map, Bool.or_eq_true,
    decide_eq_true_eq, and_or_left, exists_or]

theorem adapters_offer (r : Registry) (a : Adapter) :
    (r.offer a).1.adapters
      = if r.adapters.any a.clashes then r.adapters else r.adapters ++ [a] := by
  have h := r.offered_offer a
  generalize r.offer a = x at h
  cases h with
  | taken hid hname => rw [if_neg (mt any_clashes_iff.1 (not_or_intro hid hname))]
  | duplicateAdapter hid => rw [if_pos (any_clashes_iff.2 (.inl hid))]
  | duplicateFileName _ hb hname =>
    rw [if_pos (any_clashes_iff.2 (.inr (List.mem_map.2 ⟨_, hb, hname⟩)))]

/-! ## Distinct adapters -/

/-- No id and no file name is there twice. -/
structure Distinct (r : Registry) : Prop where
  ids : r.ids.Nodup
  fileNames : r.fileNames.Nodup

theorem distinct_empty : Distinct empty := ⟨List.nodup_nil, List.nodup_nil⟩

theorem distinct_standard (withOverview : Bool) : (standard withOverview).Distinct := by
  cases withOverview <;> exact ⟨by decide, by decide⟩

namespace Distinct

theorem offer (h : r.Distinct) (a : Adapter) : (r.offer a).1.Distinct := by
  have hoffered := r.offered_offer a
  generalize r.offer a = x at hoffered
  cases hoffered with
  | taken hid hname =>
    constructor
    · rw [Registry.ids, List.map_append]
      exact h.ids.append (List.nodup_singleton _) (List.disjoint_singleton.2 hid)
    · rw [Registry.fileNames, List.map_append]
      exact h.fileNames.append (List.nodup_singleton _) (List.disjoint_singleton.2 hname)
  | duplicateAdapter => exact h
  | duplicateFileName => exact h

theorem offerAll (h : r.Distinct) (offered : List Adapter) : (r.offerAll offered).Distinct := by
  induction offered generalizing r with
  | nil => exact h
  | cons a offered ih => exact ih (h.offer a)

end Distinct

/-! ## What registrations come to -/

theorem adapters_offerAll (r : Registry) (offered : List Adapter) :
    (r.offerAll offered).adapters = r.adapters ++ greedy r.adapters offered := by
  induction offered generalizing r with
  | nil => rw [greedy, List.append_nil]; rfl
  | cons a offered ih =>
    show ((r.offer a).1.offerAll offered).adapters = _
    rw [ih, adapters_offer, greedy]
    split
    · rfl
    · rw [List.append_assoc, List.singleton_append]

/-- How a registry answers a registration. -/
structure Answers (r : Registry) (a : Adapter) (x : Registry × Option ExportError) : Prop where
  /-- The adapter is taken behind the others, or an error comes back and nothing has changed. -/
  atomic : (x.2 = none ∧ x.1.adapters = r.adapters ++ [a]) ∨
    ∃ e, x.2 = some e ∧ x.1.adapters = r.adapters ∧ x.1.manifest = r.manifest
  duplicateAdapter : x.2 = some (.duplicateAdapter a.id) ↔ a.id ∈ r.ids
  duplicateFileName : (∃ existing, x.2 = some (.duplicateFileName a.id a.fileName existing)) ↔
    a.id ∉ r.ids ∧ a.fileName ∈ r.fileNames
  /-- The error for a file name points to the one adapter that has it. -/
  existing : ∀ id, x.2 = some (.duplicateFileName a.id a.fileName id) →
    ∃ b ∈ r.adapters, b.fileName = a.fileName ∧ b.id = id ∧
      ∀ c ∈ r.adapters, c.fileName = a.fileName → c = b
  /-- There are no other errors. -/
  errors : ∀ e, x.2 = some e →
    e = .duplicateAdapter a.id ∨ ∃ existing, e = .duplicateFileName a.id a.fileName existing

theorem Offered.answers {x : Registry × Option ExportError} (h : Offered r a x)
    (hdistinct : r.Distinct) : Answers r a x := by
  cases h with
  | taken hid hname =>
    exact
      { atomic := .inl ⟨rfl, rfl⟩
        duplicateAdapter := iff_of_false nofun hid
        duplicateFileName := iff_of_false nofun fun h => hname h.2
        existing := nofun
        errors := nofun }
  | duplicateAdapter hid =>
    exact
      { atomic := .inr ⟨_, rfl, rfl, rfl⟩
        duplicateAdapter := iff_of_true rfl hid
        duplicateFileName := iff_of_false nofun fun h => h.1 hid
        existing := nofun
        errors := fun _ h => .inl (Option.some.inj h).symm }
  | @duplicateFileName b hid hb hname =>
    exact
      { atomic := .inr ⟨_, rfl, rfl, rfl⟩
        duplicateAdapter := iff_of_false nofun hid
        duplicateFileName := iff_of_true ⟨_, rfl⟩ ⟨hid, List.mem_map.2 ⟨b, hb, hname⟩⟩
        existing := by
          rintro id h
          cases h
          refine ⟨b, hb, hname, rfl, fun c hc hsame => ?_⟩
          exact List.inj_on_of_nodup_map hdistinct.fileNames hc hb (hsame.trans hname.symm)
        errors := fun _ h => .inr ⟨b.id, (Option.some.inj h).symm⟩ }

/-- What holds behind a sequence of registrations: adapters are distinct, the next registration is
answered as it should be, and what is there are the adapters that a greedy choice keeps. -/
structure Registrations (start : Registry) (offered : List Adapter) : Prop where
  distinct : (start.offerAll offered).Distinct
  answers : ∀ a, Answers (start.offerAll offered) a ((start.offerAll offered).offer a)
  kept : (greedy start.adapters offered).Sublist offered
  adapters : (start.offerAll offered).adapters = start.adapters ++ greedy start.adapters offered
  manifest : (start.offerAll offered).manifest
    = start.manifest ++ (greedy start.adapters offered).map Adapter.manifestEntry

theorem Distinct.registrations (h : r.Distinct) (offered : List Adapter) :
    Registrations r offered where
  distinct := h.offerAll offered
  answers a := (offered_offer _ a).answers (h.offerAll offered)
  kept := greedy_sublist r.adapters offered
  adapters := adapters_offerAll r offered
  manifest := by rw [manifest, adapters_offerAll, List.map_append]; rfl

/-- **However adapters are offered to an empty or a standard registry, those are kept that clash
with none before them.** -/
theorem registered_greedily (offered : List Adapter) :
    Registrations empty offered ∧
      ∀ withOverview, Registrations (standard withOverview) offered :=
  ⟨distinct_empty.registrations offered,
    fun withOverview => (distinct_standard withOverview).registrations offered⟩

end Registry

end DesignTokens
