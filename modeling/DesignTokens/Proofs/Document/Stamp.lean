import DesignTokens.Proofs.Document.Accord
import DesignTokens.Proofs.Json.Lines

/-!
# The stamp

Three of the documents show the instant of the run, each of them on one line. Two runs over the same
source at two instants agree about everything else, whatever the source and the names in the
preferences look like: a name can pretend to be a stamp, but then it does so in both runs.
-/

namespace DesignTokens

/-! ## Instants -/

namespace Instant

theorem newline_not_mem_padded (width n : Nat) : '\n' ∉ (padded width n).toList := by
  rw [padded, String.toList_ofList, List.mem_append, not_or]
  exact ⟨fun h => absurd (isAsciiDigit_of_mem_zeros h) (by decide),
    Json.newline_not_mem_toDigits n⟩

theorem newline_not_mem_yearText (year : Int) : '\n' ∉ (yearText year).toList := by
  have hpadded := newline_not_mem_padded 4 year.natAbs
  unfold yearText
  repeat' split
  all_goals simp [hpadded]

theorem newline_not_mem_text (t : Instant) : '\n' ∉ t.text.toList := by
  simp [text, newline_not_mem_yearText, newline_not_mem_padded]

/-- Instants of one second are shown alike, unless one of them lies in a leap second. -/
theorem text_eq_of_seconds_eq {t₁ t₂ : Instant} (h : t₁.seconds = t₂.seconds)
    (h₁ : t₁.isLeap = false) (h₂ : t₂.isLeap = false) : t₁.text = t₂.text := by
  simp only [text, day, secondOfDay, h, h₁, h₂]

end Instant

/-! ## Lines -/

/-- The lines of a text, without their line feeds. -/
def linesOf (text : String) : List (List Char) :=
  text.toList.splitOn '\n'

theorem linesOf_of_not_mem {text : String} (h : '\n' ∉ text.toList) :
    linesOf text = [text.toList] :=
  List.splitOn_eq_singleton h

theorem linesOf_append_line (s rest : String) : linesOf (s ++ "\n" ++ rest) =
    linesOf s ++ linesOf rest := by
  rw [linesOf, String.toList_append, String.toList_append, List.append_assoc]
  exact List.splitOn_append_cons_self ..

theorem linesOf_join_append (ss : List String) (rest : String) :
    linesOf (String.join (ss.map (· ++ "\n")) ++ rest) = ss.flatMap linesOf ++ linesOf rest := by
  induction ss with
  | nil =>
    rw [List.map_nil, String.join_nil, String.empty_append, List.flatMap_nil, List.nil_append]
  | cons s ss ih =>
    rw [List.map_cons, String.join_cons, String.append_assoc, linesOf_append_line, ih,
      List.flatMap_cons, List.append_assoc]

theorem linesOf_join (ss : List String) :
    linesOf (String.join (ss.map (· ++ "\n"))) = ss.flatMap linesOf ++ [[]] := by
  rw [← String.append_empty (s := String.join _), linesOf_join_append]
  rfl

theorem flatMap_linesOf {ss : List String} (h : ∀ s ∈ ss, '\n' ∉ s.toList) :
    ss.flatMap linesOf = ss.map String.toList := by
  induction ss with
  | nil => rfl
  | cons s ss ih =>
    rw [List.forall_mem_cons] at h
    rw [List.flatMap_cons, linesOf_of_not_mem h.1, ih h.2]
    rfl

-- The lines tell what the text is.
theorem linesOf_injective : Function.Injective linesOf := by
  intro text text' h
  have hchars := congrArg (['\n'].intercalate ·) h
  simp only [linesOf, List.intercalate_splitOn] at hchars
  exact String.toList_inj.1 hchars

/-- Two texts have the same lines but for one, which shows two instants. -/
structure DifferInStamp (line : Instant → String) (t₁ t₂ : Instant) (front back : List (List Char))
    (text₁ text₂ : String) : Prop where
  first : linesOf text₁ = front ++ (line t₁).toList :: back
  second : linesOf text₂ = front ++ (line t₂).toList :: back

/-! ## Documents with a stamp -/

/-- The line of a stamp in front of the maps and the tree. -/
def envelopeStamp (t : Instant) : String :=
  "  \"generatedAt\": " ++ Json.quote t.text ++ ","

/-- The line of a stamp in the overview. -/
def overviewStamp (t : Instant) : String :=
  "Generated at " ++ t.text ++ "."

theorem newline_not_mem_overviewStamp (t : Instant) : '\n' ∉ (overviewStamp t).toList := by
  simp only [overviewStamp, String.toList_append, List.mem_append, not_or]
  exact ⟨⟨by decide, t.newline_not_mem_text⟩, by decide⟩

/-- Two documents of one adapter whose stamps are the only difference. -/
inductive Document.Restamped (p : ExportPreferences) (t₁ t₂ : Instant) : Document → Document → Prop
  where
  | same {id fileName text : String} (hid : id ∈ ["json", "css", "flat"]) :
    Restamped p t₁ t₂ ⟨id, fileName, text⟩ ⟨id, fileName, text⟩
  /-- No other line begins like the one with the stamp. -/
  | envelope {id fileName text₁ text₂ : String} {front back : List (List Char)}
    (hid : id ∈ ["design-tool", "vendor"])
    (lines : DifferInStamp envelopeStamp t₁ t₂ front back text₁ text₂)
    (single : ∀ l ∈ front ++ back, ¬ "  \"generatedAt\": ".toList <+: l) :
    Restamped p t₁ t₂ ⟨id, fileName, text₁⟩ ⟨id, fileName, text₂⟩
  /-- No other line begins like the one with the stamp, unless a name or a path breaks a line. -/
  | overview {fileName text₁ text₂ : String} {front back : List (List Char)}
    (lines : DifferInStamp overviewStamp t₁ t₂ front back text₁ text₂)
    (single : (∀ s ∈ [p.documentName, p.schemaVersion, p.sourcePath], '\n' ∉ s.toList) →
      ∀ l ∈ front ++ back, ¬ "Generated at ".toList <+: l) :
    Restamped p t₁ t₂ ⟨"readme", fileName, text₁⟩ ⟨"readme", fileName, text₂⟩

namespace DocumentContext

def stampedAt (ctx : DocumentContext) (t : Instant) : DocumentContext :=
  { ctx with generatedAt := some t }

def unstamped (ctx : DocumentContext) : DocumentContext :=
  { ctx with generatedAt := none }

end DocumentContext

/-! ## Envelopes -/

def envelopeLine (e : String × String) : String :=
  "  \"" ++ e.1 ++ "\": " ++ Json.quote e.2 ++ ","

theorem newline_not_mem_envelopeLine {e : String × String} (h : '\n' ∉ e.1.toList) :
    '\n' ∉ (envelopeLine e).toList := by
  simp only [envelopeLine, String.toList_append, List.mem_append, not_or]
  exact ⟨⟨⟨⟨by decide, h⟩, by decide⟩, Json.newline_not_mem_quote e.2⟩, by decide⟩

theorem linesOf_envelope (ctx : DocumentContext) (m : String × Json)
    (members : List (String × Json)) :
    linesOf (Json.object (envelopeMembers ctx ++ m :: members)).pretty =
      "\x7b".toList :: ((envelopeTexts ctx).map (String.toList ∘ envelopeLine)
        ++ (linesOf (Json.object (m :: members)).pretty).tail) := by
  obtain ⟨body, hbody⟩ := Json.exists_body m members
  have hplain : linesOf (Json.object (m :: members)).pretty = "\x7b".toList :: linesOf body := by
    have htext : (Json.object (m :: members)).pretty =
        String.join (["\x7b"].map (· ++ "\n")) ++ body := hbody []
    rw [htext, linesOf_join_append]
    rfl
  have htext : (Json.object (envelopeMembers ctx ++ m :: members)).pretty =
      String.join (("\x7b" :: (envelopeTexts ctx).map envelopeLine).map (· ++ "\n")) ++ body := by
    rw [hbody, envelopeMembers_eq_texts, spreadMembers_texts (quote_key_envelope ctx), List.map_map,
      List.map_cons, List.map_map, String.join_cons]
    refine congrArg (fun ls => "\x7b\n" ++ String.join ls ++ body)
      (List.map_congr_left fun e _ => ?_)
    have hcomma (line : String) : line ++ ",\n" = line ++ "," ++ "\n" := by
      rw [String.append_assoc]
      rfl
    exact hcomma _
  have hfeed : ∀ e ∈ envelopeTexts ctx, '\n' ∉ e.1.toList := fun e he hmem => by
    have hquote := Json.newline_not_mem_quote e.1
    rw [quote_key_envelope ctx e he, String.toList_append, String.toList_append] at hquote
    exact hquote (List.mem_append_left _ (List.mem_append_right _ hmem))
  rw [htext, linesOf_join_append, hplain, List.tail_cons, flatMap_linesOf, List.map_cons,
    List.map_map, List.cons_append]
  rw [List.forall_mem_cons, List.forall_mem_map]
  exact ⟨by decide, fun e he => newline_not_mem_envelopeLine (hfeed e he)⟩

theorem exists_envelope_lines (ctx : DocumentContext) (t₁ t₂ : Instant) (m : String × Json)
    (members : List (String × Json))
    (hkeys : ∀ key ∈ (m :: members).map (·.1), Pattern.Apart "  \"generatedAt\": ".toList
      ((Json.indent 1).toList ++ (Json.quote key).toList)) :
    ∃ front back,
      DifferInStamp envelopeStamp t₁ t₂ front back
        (Json.object (envelopeMembers (ctx.stampedAt t₁) ++ m :: members)).pretty
        (Json.object (envelopeMembers (ctx.stampedAt t₂) ++ m :: members)).pretty ∧
      ∀ l ∈ front ++ back, ¬ "  \"generatedAt\": ".toList <+: l := by
  refine ⟨["\x7b".toList, (envelopeLine ("version", ctx.schemaVersion)).toList,
    (envelopeLine ("name", ctx.documentName)).toList],
    (linesOf (Json.object (m :: members)).pretty).tail,
    ⟨linesOf_envelope _ m members, linesOf_envelope _ m members⟩, ?_⟩
  have hstart : (Json.indent 1).toList ++ '"' :: "generatedAt\": ".toList =
      "  \"generatedAt\": ".toList := by decide
  have hfront (key value : String) (hkey : Pattern.Apart "  \"generatedAt\": ".toList
      ("  \"" ++ key ++ "\": ").toList) :
      ¬ "  \"generatedAt\": ".toList <+: (envelopeLine (key, value)).toList := by
    rw [envelopeLine, String.append_assoc, String.toList_append]
    exact (hkey.append _).1
  intro l hl
  simp only [List.mem_append, List.mem_cons, List.not_mem_nil, or_false] at hl
  rcases hl with (rfl | rfl | rfl) | hl
  · decide
  · exact hfront _ _ (by decide)
  · exact hfront _ _ (by decide)
  · rw [← hstart] at hkeys ⊢
    exact Json.not_prefix_of_mem_lines (fun e he => hkeys e.1 (List.mem_map_of_mem he))
      (List.mem_of_mem_tail hl)

/-! ## The overview -/

namespace Overview

/-- A line that is not broken and does not begin like the one with the stamp. -/
def Ordinary (s : String) : Prop :=
  '\n' ∉ s.toList ∧ ¬ "Generated at ".toList <+: s.toList

instance (s : String) : Decidable (Ordinary s) :=
  inferInstanceAs (Decidable (_ ∧ _))

theorem Ordinary.append {start rest : String}
    (hapart : Pattern.Apart "Generated at ".toList start.toList)
    (hstart : '\n' ∉ start.toList) (hrest : '\n' ∉ rest.toList) : Ordinary (start ++ rest) := by
  rw [Ordinary, String.toList_append, List.mem_append, not_or]
  exact ⟨⟨hstart, hrest⟩, (hapart.append _).1⟩

/-- The stamp is one more line, behind the name and the version. -/
theorem exists_lines_stampedAt (m : TokenModel) (ctx : DocumentContext) :
    ∃ front back, lines m ctx.unstamped = front ++ back ∧
      ∀ t, lines m (ctx.stampedAt t) = front ++ overviewStamp t :: back := by
  refine ⟨["# " ++ ctx.documentName, "", "Schema version `" ++ ctx.schemaVersion ++ "`."],
    (lines m ctx.unstamped).drop 3, rfl, fun t => rfl⟩

theorem ordinary_of_mem_lines {m : TokenModel} {ctx : DocumentContext}
    (hstamp : ctx.generatedAt = none)
    (hmanifest : ∀ e ∈ ctx.manifest, '\n' ∉ e.fileName.toList ∧ '\n' ∉ e.description.toList)
    (h : ∀ s ∈ [ctx.documentName, ctx.schemaVersion, ctx.source], '\n' ∉ s.toList) :
    ∀ s ∈ lines m ctx, Ordinary s := by
  simp only [List.forall_mem_cons, List.not_mem_nil, false_implies, implies_true, and_true] at h
  obtain ⟨hname, hversion, hsource⟩ := h
  simp only [lines, hstamp, List.append_nil, List.forall_mem_append, List.forall_mem_cons,
    List.forall_mem_map, List.not_mem_nil, false_implies, implies_true, and_true,
    String.append_assoc]
  have hcategory (c : Category) : '\n' ∉ c.title.toList := by cases c <;> decide
  have hnumber := Json.newline_not_mem_toDigits
  refine ⟨⟨⟨⟨⟨⟨?name, by decide, ?version⟩, by decide⟩, fun e he => ?file⟩, by decide⟩,
    fun count _ => ?count⟩, ?total, by decide, by decide, by decide, by decide, ?command, by decide⟩
  case name => exact .append (by decide) (by decide) hname
  case version => exact .append (by decide) (by decide) (by simp [hversion])
  case file => exact .append (by decide) (by decide) (by simp [hmanifest e he])
  case count => exact .append (by decide) (by decide) (by simp [hcategory, hnumber])
  case total => exact .append (by decide) (by decide) (by simp [hnumber])
  case command =>
    split
    · decide
    · exact .append (by decide) (by decide) hsource

end Overview

/-! ## The documents of a job -/

namespace ExportJob

/-- A job whose documents show a given instant, if they show one. -/
def stampedAt (job : ExportJob) (t : Instant) : ExportJob :=
  { job with fixedTime := some t }

theorem context_stampedAt {job : ExportJob} (h : job.preferences.embedTimestamp = true)
    (t now : Instant) : (job.stampedAt t).context now = (job.context now).stampedAt t := by
  have hstamp : (job.stampedAt t).stamp now = some t := if_pos h
  rw [context, hstamp]
  rfl

theorem context_stampedAt_of_not_embedded {job : ExportJob}
    (h : job.preferences.embedTimestamp = false) (t now : Instant) :
    (job.stampedAt t).context now = (job.context now).unstamped := by
  have hstamp : (job.stampedAt t).stamp now = none := if_neg (by rw [stampedAt, h]; decide)
  rw [context, hstamp]
  rfl

-- What holds of every adapter holds of the documents.
theorem forall₂_documents {r : Document → Document → Prop} {as : List Adapter} {m : TokenModel}
    {ctx ctx' : DocumentContext}
    (h : ∀ a ∈ as, ∃ d d', a.produce m ctx = .ok d ∧ a.produce m ctx' = .ok d' ∧ r d d') :
    List.Forall₂ r (documents as m ctx) (documents as m ctx') := by
  induction as with
  | nil => exact .nil
  | cons a as ih =>
    rw [List.forall_mem_cons] at h
    obtain ⟨⟨d, d', hd, hd', hr⟩, hrest⟩ := h
    rw [documents_cons_ok hd, documents_cons_ok hd']
    exact .cons hr (ih hrest)

theorem failures_standardAdapters (withOverview : Bool) (m : TokenModel) (ctx : DocumentContext) :
    failures (Registry.standardAdapters withOverview) m ctx = [] := by
  cases withOverview <;> rfl

theorem newline_not_mem_manifest (withOverview : Bool) :
    ∀ e ∈ (Registry.standard withOverview).manifest,
      '\n' ∉ e.fileName.toList ∧ '\n' ∉ e.description.toList := by
  cases withOverview <;> decide +kernel

variable {job : ExportJob} {withOverview : Bool} (hregistry : job.registry = .standard withOverview)
include hregistry

theorem restamped_overview (m : TokenModel) (now t₁ t₂ : Instant) :
    ∃ d₁ d₂, Overview.adapter.produce m ((job.context now).stampedAt t₁) = .ok d₁ ∧
      Overview.adapter.produce m ((job.context now).stampedAt t₂) = .ok d₂ ∧
        d₁.Restamped job.preferences t₁ t₂ d₂ := by
  obtain ⟨front, back, hplain, hlines⟩ := Overview.exists_lines_stampedAt m (job.context now)
  have htext (t : Instant) : linesOf (String.join
      ((Overview.lines m ((job.context now).stampedAt t)).map (· ++ "\n"))) =
        front.flatMap linesOf ++ (overviewStamp t).toList :: (back.flatMap linesOf ++ [[]]) := by
    rw [hlines, linesOf_join, List.flatMap_append, List.flatMap_cons,
      linesOf_of_not_mem (newline_not_mem_overviewStamp t)]
    simp only [List.append_assoc, List.cons_append, List.nil_append]
  refine ⟨_, _, rfl, rfl, .overview ⟨htext t₁, htext t₂⟩ fun hfeed l hl => ?_⟩
  have hmanifest : (job.context now).manifest = (Registry.standard withOverview).manifest := by
    rw [context, hregistry]
  have hordinary : ∀ s ∈ Overview.lines m (job.context now).unstamped, Overview.Ordinary s :=
    Overview.ordinary_of_mem_lines rfl
      (fun e he => newline_not_mem_manifest withOverview e (hmanifest ▸ he)) hfeed
  rw [← List.append_assoc, ← List.flatMap_append, ← hplain,
    flatMap_linesOf fun s hs => (hordinary s hs).1] at hl
  rcases List.mem_append.1 hl with hl | hl
  · obtain ⟨s, hs, rfl⟩ := List.mem_map.1 hl
    exact (hordinary s hs).2
  · rw [List.mem_singleton.1 hl]
    decide

theorem restamped_of_mem {a : Adapter} (ha : a ∈ job.registry.adapters) (m : TokenModel)
    (now t₁ t₂ : Instant) :
    ∃ d₁ d₂, a.produce m ((job.context now).stampedAt t₁) = .ok d₁ ∧
      a.produce m ((job.context now).stampedAt t₂) = .ok d₂ ∧
        d₁.Restamped job.preferences t₁ t₂ d₂ := by
  have hall : ∀ a ∈ Registry.standardAdapters withOverview, a = completeAdapter ∨
      a = Stylesheet.adapter ∨ a = designToolAdapter ∨ a = flatAdapter ∨ a = vendorAdapter ∨
        a = Overview.adapter := by
    cases withOverview <;> simp [Registry.standardAdapters]
  rw [hregistry] at ha
  rcases hall a ha with rfl | rfl | rfl | rfl | rfl | rfl
  · exact ⟨_, _, rfl, rfl, .same (by decide)⟩
  · exact ⟨_, _, rfl, rfl, .same (by decide)⟩
  · obtain ⟨front, back, hlines, hsingle⟩ := exists_envelope_lines (job.context now) t₁ t₂
      ("tokens", typedTree m) [] (show ∀ key ∈ ["tokens"], _ by decide)
    exact ⟨_, _, rfl, rfl, .envelope (by decide) hlines hsingle⟩
  · exact ⟨_, _, rfl, rfl, .same (by decide)⟩
  · obtain ⟨front, back, hlines, hsingle⟩ := exists_envelope_lines (job.context now) t₁ t₂
      ("colors", .object (m.scalarColors.map fun e => (e.1, .string e.2)))
      [("spacing", .object (m.spacingNumbers.map fun e => (e.1, .number e.2)))]
      (show ∀ key ∈ ["colors", "spacing"], _ by decide)
    exact ⟨_, _, rfl, rfl, .envelope (by decide) hlines hsingle⟩
  · exact restamped_overview hregistry m now t₁ t₂

theorem failures_render_standard (source : String) (now : Instant) :
    (job.render source now).failures = [] := by
  cases hmodel : (job.library.extract source).build.model.isEmpty with
  | true => exact (render_of_isEmpty hmodel now).2
  | false =>
    rw [(render_of_not_isEmpty hmodel now).2, hregistry]
    exact failures_standardAdapters withOverview _ _

theorem documents_stampedAt (h : job.preferences.embedTimestamp = true) (source : String)
    (t₁ t₂ now₁ now₂ : Instant) :
    List.Forall₂ (Document.Restamped job.preferences t₁ t₂)
      ((job.stampedAt t₁).render source now₁).documents
      ((job.stampedAt t₂).render source now₂).documents := by
  cases hmodel : (job.library.extract source).build.model.isEmpty with
  | true =>
    rw [(@render_of_isEmpty (job.stampedAt t₁) source hmodel now₁).1,
      (@render_of_isEmpty (job.stampedAt t₂) source hmodel now₂).1]
    exact .nil
  | false =>
    rw [(@render_of_not_isEmpty (job.stampedAt t₁) source hmodel now₁).1,
      (@render_of_not_isEmpty (job.stampedAt t₂) source hmodel now₂).1,
      context_stampedAt h, context_stampedAt h]
    exact forall₂_documents fun a ha => restamped_of_mem hregistry ha _ now₁ t₁ t₂

omit hregistry in
theorem documents_stampedAt_of_not_embedded (h : job.preferences.embedTimestamp = false)
    (source : String) (t₁ t₂ now₁ now₂ : Instant) :
    ((job.stampedAt t₁).render source now₁).documents =
      ((job.stampedAt t₂).render source now₂).documents := by
  have hcontext : (job.stampedAt t₁).context now₁ = (job.stampedAt t₂).context now₂ :=
    (context_stampedAt_of_not_embedded h t₁ now₁).trans
      (context_stampedAt_of_not_embedded h t₂ now₂).symm
  unfold render
  rw [hcontext]
  rfl

end ExportJob

/-! ## Two instants -/

/-- Two renderings of a source whose stamps are the only difference. -/
structure Rendering.Restamped (p : ExportPreferences) (t₁ t₂ : Instant) (r₁ r₂ : Rendering) :
    Prop where
  model : r₁.model = r₂.model
  warnings : r₁.warnings = r₂.warnings
  metrics : r₁.metrics = r₂.metrics
  failures : r₁.failures = r₂.failures
  unstamped : p.embedTimestamp = false → r₁.documents = r₂.documents
  stamped : p.embedTimestamp = true →
    List.Forall₂ (Document.Restamped p t₁ t₂) r₁.documents r₂.documents
  sameSecond : t₁.seconds = t₂.seconds → t₁.isLeap = false → t₂.isLeap = false →
    r₁.documents = r₂.documents

theorem DifferInStamp.eq {line : Instant → String} {t₁ t₂ : Instant}
    {front back : List (List Char)} {text₁ text₂ : String}
    (h : DifferInStamp line t₁ t₂ front back text₁ text₂) (hline : line t₁ = line t₂) :
    text₁ = text₂ :=
  linesOf_injective (by rw [h.first, h.second, hline])

theorem Document.Restamped.eq {p : ExportPreferences} {t₁ t₂ : Instant} {d₁ d₂ : Document}
    (h : d₁.Restamped p t₁ t₂ d₂) (ht : t₁.text = t₂.text) : d₁ = d₂ := by
  have henvelope : envelopeStamp t₁ = envelopeStamp t₂ :=
    congrArg (fun text => "  \"generatedAt\": " ++ Json.quote text ++ ",") ht
  have hoverview : overviewStamp t₁ = overviewStamp t₂ :=
    congrArg (fun text => "Generated at " ++ text ++ ".") ht
  cases h with
  | same => rfl
  | envelope _ lines => exact congrArg (Document.mk _ _) (lines.eq henvelope)
  | overview lines => exact congrArg (Document.mk _ _) (lines.eq hoverview)

namespace ExportJob

theorem restamped_render {job : ExportJob} {withOverview : Bool}
    (hregistry : job.registry = .standard withOverview) (source : String)
    (t₁ t₂ now₁ now₂ : Instant) :
    Rendering.Restamped job.preferences t₁ t₂ ((job.stampedAt t₁).render source now₁)
      ((job.stampedAt t₂).render source now₂) where
  model := rfl
  warnings := rfl
  metrics := rfl
  failures := by
    have hnone (t now : Instant) : ((job.stampedAt t).render source now).failures = [] :=
      @failures_render_standard (job.stampedAt t) withOverview hregistry source now
    rw [hnone, hnone]
  unstamped h := documents_stampedAt_of_not_embedded h source t₁ t₂ now₁ now₂
  stamped h := documents_stampedAt hregistry h source t₁ t₂ now₁ now₂
  sameSecond hsecond h₁ h₂ := by
    have htext := Instant.text_eq_of_seconds_eq hsecond h₁ h₂
    cases hembed : job.preferences.embedTimestamp with
    | false => exact documents_stampedAt_of_not_embedded hembed source t₁ t₂ now₁ now₂
    | true =>
      have hdocuments := documents_stampedAt hregistry hembed source t₁ t₂ now₁ now₂
      rw [← List.forall₂_eq_eq_eq]
      exact hdocuments.imp fun d₁ d₂ h => h.eq htext

/-- **The instant of a run is shown in the stamps and nowhere else.** -/
theorem render_at_two_instants (p : ExportPreferences) (source : String)
    (t₁ t₂ now₁ now₂ : Instant) :
    Rendering.Restamped p t₁ t₂ (((standard p).stampedAt t₁).render source now₁)
      (((standard p).stampedAt t₂).render source now₂) :=
  @restamped_render (standard p) p.generateReadme rfl source t₁ t₂ now₁ now₂

end ExportJob

end DesignTokens
