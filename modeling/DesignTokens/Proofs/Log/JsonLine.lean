import DesignTokens.CommandLine.Command
import DesignTokens.Proofs.Document.Stamp
import DesignTokens.Proofs.Json.Compact

/-!
# Lines of a structured log

A structured log has one line for each event, and whoever reads the line as JSON learns what the
event was, whatever texts its message and its details hold. What the event lacks is left out. Of
its time the whole seconds are shown, and of a time before the epoch nothing.
-/

namespace DesignTokens

/-! ## Members -/

namespace Json

theorem get?_object_texts (d : Details) (key : String) :
    (object (d.map fun (k, text) => (k, string text))).get? key = (d.lookup key).map string := by
  rw [Details.map, Details.lookup]
  induction d.pairs with
  | nil => rfl
  | cons x pairs ih =>
    obtain ⟨k, text⟩ := x
    rw [get?, List.map_cons, List.find?_cons, List.lookup_cons]
    by_cases h : k = key
    · rw [beq_iff_eq.2 h, beq_iff_eq.2 h.symm]
      rfl
    · rw [beq_eq_false_iff_ne.2 h, beq_eq_false_iff_ne.2 (Ne.symm h)]
      exact ih

theorem ofNat_injective : Function.Injective ofNat := fun n n' h => by
  exact_mod_cast integer.inj h

theorem texts_injective : Function.Injective fun d : Details =>
    d.map fun (key, text) => (key, string text) := by
  intro d d' h
  refine Details.ext (List.map_injective_iff.2 ?_ h)
  rintro ⟨key, text⟩ ⟨key', text'⟩ h
  cases h
  rfl

theorem representable_ofNat {n : Nat} (h : n < 2 ^ 64) : (ofNat n).Representable :=
  .integer (by omega) (by exact_mod_cast h)

end Json

theorem LogLevel.label_injective : Function.Injective LogLevel.label := by
  intro l l'
  cases l <;> cases l' <;> decide

namespace LogEvent

variable (e : LogEvent)

/-- What a structured log says about an event. -/
structure Shows (v : Json) : Prop where
  isObject : v = .object v.members
  /-- No key is given twice. -/
  keys : (v.members.map Prod.fst).Nodup
  timestamp : v.get? "timestamp" = some (.integer (if e.time < 0 then 0 else e.time / 1000))
  level : v.get? "level" = some (.string e.level.label)
  code : v.get? "code" = some (.string e.code.text)
  message : v.get? "message" = some (.string e.message)
  category : v.get? "category" = some (.string e.code.category)
  severity : v.get? "severity" = some (.string e.code.severity.label)
  problem : v.get? "error_metadata" = if e.isError then some e.errorJson else none
  line : v.get? "line" = e.line.map Json.ofNat
  context : v.get? "context" = if e.details.isEmpty then none
    else some (.object (e.details.map fun (key, text) => (key, .string text)))
  /-- The details are found under their keys, and nothing else is. -/
  texts : ∀ context, v.get? "context" = some context →
    ∀ key, context.get? key = (e.details.lookup key).map .string

/-- Every key that a line can have, in the order of the line. -/
def jsonKeys : List String :=
  ["timestamp", "level", "code", "message", "category", "severity", "error_metadata", "line",
    "context"]

-- Whether there is a member depends on the level, the line and the details alone.
theorem keys_toJson : (e.toJson.members.map Prod.fst).Sublist jsonKeys := by
  rcases e with ⟨time, _ | _ | _ | _, code, message, _ | n, _ | ⟨d, ds⟩, hd⟩ <;>
    exact of_decide_eq_true rfl

theorem get?_problem :
    e.toJson.get? "error_metadata" = if e.isError then some e.errorJson else none := by
  rcases e with ⟨time, _ | _ | _ | _, code, message, _ | n, _ | ⟨d, ds⟩, hd⟩ <;> rfl

theorem get?_line : e.toJson.get? "line" = e.line.map Json.ofNat := by
  rcases e with ⟨time, _ | _ | _ | _, code, message, _ | n, _ | ⟨d, ds⟩, hd⟩ <;> rfl

theorem get?_context : e.toJson.get? "context" = if e.details.isEmpty then none
    else some (.object (e.details.map fun (key, text) => (key, .string text))) := by
  rcases e with ⟨time, _ | _ | _ | _, code, message, _ | n, _ | ⟨d, ds⟩, hd⟩ <;> rfl

theorem seconds_eq : (e.seconds : Int) = if e.time < 0 then 0 else e.time / 1000 := by
  unfold seconds
  split <;> omega

theorem shows_toJson : e.Shows e.toJson where
  isObject := rfl
  keys := e.keys_toJson.nodup (by decide)
  timestamp := congrArg (fun n => some (Json.integer n)) e.seconds_eq
  level := rfl
  code := rfl
  message := rfl
  category := rfl
  severity := rfl
  problem := e.get?_problem
  line := e.get?_line
  context := e.get?_context
  texts := by
    intro context hcontext key
    rw [e.get?_context] at hcontext
    split at hcontext
    · cases hcontext
    · cases hcontext
      exact Json.get?_object_texts e.details key

/-! ## Reading a line -/

theorem representable_errorJson : e.errorJson.Representable := by
  refine .object ?_
  simp only [List.forall_mem_cons]
  exact ⟨.bool, .bool, .string, .string, List.forall_mem_nil _⟩

theorem representable_toJson (hline : ∀ n ∈ e.line, n < 2 ^ 64) (htime : e.time < 1000 * 2 ^ 64) :
    e.toJson.Representable := by
  have hseconds : (Json.ofNat e.seconds).Representable := by
    refine Json.representable_ofNat ?_
    unfold seconds
    omega
  refine .object ?_
  simp only [List.forall_mem_append, List.forall_mem_cons]
  refine ⟨⟨⟨⟨hseconds, .string, .string, .string, .string, .string, List.forall_mem_nil _⟩, ?_⟩,
    ?_⟩, ?_⟩
  · split
    · exact List.forall_mem_singleton.2 e.representable_errorJson
    · exact List.forall_mem_nil _
  · split
    · rename_i n hn
      exact List.forall_mem_singleton.2 (Json.representable_ofNat (hline n hn))
    · exact List.forall_mem_nil _
  · split
    · exact List.forall_mem_nil _
    · refine List.forall_mem_singleton.2 (.object fun m hm => ?_)
      obtain ⟨d, -, rfl⟩ := List.mem_map.1 hm
      exact .string

theorem read_jsonLine (hline : ∀ n ∈ e.line, n < 2 ^ 64) (htime : e.time < 1000 * 2 ^ 64) :
    Json.read e.jsonLine = some e.toJson :=
  Json.read_compact (e.representable_toJson hline htime)

theorem visible_jsonLine : Json.Visible e.jsonLine.toList :=
  Json.visible_compact e.toJson

/-- **The line of an event has no character below the space, and as JSON it shows the event.** The
line of the source is a word of 64 bits, and so are the seconds. -/
theorem shows_jsonLine (hline : ∀ n ∈ e.line, n < 2 ^ 64) (htime : e.time < 1000 * 2 ^ 64) :
    Json.Visible e.jsonLine.toList ∧ ∃ v, Json.read e.jsonLine = some v ∧ e.Shows v :=
  ⟨e.visible_jsonLine, e.toJson, e.read_jsonLine hline htime, e.shows_toJson⟩

/-- An error before the epoch, whose texts have line breaks, quotes and a control character. -/
def beforeEpoch : LogEvent :=
  ⟨-1500, .error, .sourceNotText, "not \"text\":\r\n\x1b\\é", some 3, [("file\n", "a\tb")]⟩

theorem shows_jsonLine_beforeEpoch :
    (∀ n ∈ beforeEpoch.line, n < 2 ^ 64) ∧ beforeEpoch.time < 1000 * 2 ^ 64 ∧
      Json.Visible beforeEpoch.jsonLine.toList ∧
        ∃ v, Json.read beforeEpoch.jsonLine = some v ∧ beforeEpoch.Shows v := by
  have hline : ∀ n ∈ beforeEpoch.line, n < 2 ^ 64 := by
    intro n hn
    cases hn
    decide
  exact ⟨hline, by decide, shows_jsonLine beforeEpoch hline (by decide)⟩

/-! ## What a line tells -/

variable {e} {e' : LogEvent} {v : Json}

/-- Events that a line shows are alike in all but the milliseconds. -/
theorem Shows.unique (h : e.Shows v) (h' : e'.Shows v) : e.seconds = e'.seconds ∧
    e.level = e'.level ∧ e.code = e'.code ∧ e.message = e'.message ∧ e.line = e'.line ∧
      e.details = e'.details := by
  have htime := Option.some.inj (h.timestamp.symm.trans h'.timestamp)
  have hlevel := Option.some.inj (h.level.symm.trans h'.level)
  have hcode := Option.some.inj (h.code.symm.trans h'.code)
  have hmessage := Option.some.inj (h.message.symm.trans h'.message)
  have hline := h.line.symm.trans h'.line
  have hcontext := h.context.symm.trans h'.context
  refine ⟨?_, LogLevel.label_injective (Json.string.inj hlevel), ?_, Json.string.inj hmessage,
    Option.map_injective Json.ofNat_injective hline, ?_⟩
  · rw [← seconds_eq, ← seconds_eq] at htime
    exact_mod_cast Json.integer.inj htime
  · exact congrArg LogCode.mk (Json.string.inj hcode)
  · split at hcontext
    · split at hcontext
      · rename_i hnil hnil'
        rw [Details.isEmpty_iff.1 hnil, Details.isEmpty_iff.1 hnil']
      · cases hcontext
    · split at hcontext
      · cases hcontext
      · exact Json.texts_injective (Json.object.inj (Option.some.inj hcontext))

end LogEvent

/-! ## The log -/

/-- **A structured log has a line for each of its events and no other**, but for the empty text
behind the last line feed. -/
theorem linesOf_logText {l : LogPreferences} (hstructured : l.structured = true)
    (complaints : Bool) (events : List LogEvent) :
    linesOf (CommandLine.logText l complaints events) =
      ((passing l.minimum events).filter fun e => e.level.isComplaint == complaints).map
        (·.jsonLine.toList) ++ [[]] := by
  have hjson : CommandLine.eventLine l.structured = LogEvent.jsonLine := by
    rw [hstructured]
    rfl
  rw [CommandLine.logText, CommandLine.linesText, linesOf_join, hjson, flatMap_linesOf,
    List.map_map]
  · rfl
  · intro s hs
    obtain ⟨e, -, rfl⟩ := List.mem_map.1 hs
    exact e.visible_jsonLine.newline_not_mem

end DesignTokens
