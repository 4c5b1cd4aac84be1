import DesignTokens.Proofs.Extract.Admissible
import DesignTokens.Proofs.Source.Detail
import DesignTokens.Proofs.Source.Scan

/-!
# From getters to a source and back

A list of getters is printed as a source, and this source is scanned and built. What comes out is
what the getters declare: their hits, no warnings, and in each category the names in the order of
their first binding with the values of their last one.
-/

namespace DesignTokens

namespace Getter

/-! ## The effects of a getter -/

theorem body_hit (d : Getter) (line : Nat) : (d.hit line).body = d.core := String.toList_ofList

/-- The effects of a hit that only binds. -/
def binds (bs : List (String × TokenValue)) : List Effect :=
  bs.map fun b => .bind b.1 b.2

theorem effects_gradient (n : Word) (first : HexColor) (others : List HexColor) (line : Nat) :
    (hit (.gradient n first others) line).effects =
      binds (bindings (.gradient n first others)) := by
  have hstops : Detail.findAll Detail.gradientStop (hit (.gradient n first others) line).body =
      (first :: others).map HexColor.chars := by
    rw [body_hit]
    exact Detail.findAll_gradientStop first others
  have hread : Capture.readColor ∘ HexColor.chars = some ∘ HexColor.value :=
    funext Capture.readColor_hex
  -- every stop can be read, so none is left to complain about
  have hmalformed : ((first :: others).map HexColor.chars).filter
      (fun s => (Capture.readColor s).isNone) = [] := by
    rw [List.filter_eq_nil_iff]
    intro s hs
    rcases List.mem_map.1 hs with ⟨x, -, rfl⟩
    rw [Capture.readColor_hex]
    exact Bool.false_ne_true
  show Hit.gradientEffects _ = _
  rw [Hit.gradientEffects, hstops, hmalformed, List.filterMap_map, hread, ← List.filterMap_map,
    List.filterMap_some]
  rfl

-- A number of a part is bound.
theorem bindOrWarn_number (h : Hit) (suffix : String) (l : Literal) (code : LogCode)
    (message : String) (raw : List Char) :
    h.bindOrWarn suffix ((Capture.readNumber l.chars).map .number) code message raw =
      .bind (h.name ++ suffix) (.number l.value) := by
  rw [Capture.readNumber_literal]
  rfl

theorem effects_textStyle (n : Word) (body : StyleBody) (line : Nat) :
    (hit (.textStyle n body) line).effects = binds (bindings (.textStyle n body)) := by
  rw [Hit.effects_textStyle rfl]
  simp only [body_hit, core, body.find?_fontSize, body.find?_fontWeight]
  cases body with
  | size l =>
    simp only [StyleBody.size?, StyleBody.weight?, Option.map_some, Option.map_none,
      Option.toList_some, Option.toList_none, List.map_cons, List.map_nil, bindOrWarn_number]
    rfl
  | weight w =>
    simp only [StyleBody.size?, StyleBody.weight?, Option.map_some, Option.map_none,
      Option.toList_some, Option.toList_none, List.map_cons, List.map_nil, String.ofList_toList]
    rfl
  | both l w =>
    simp only [StyleBody.size?, StyleBody.weight?, Option.map_some, Option.toList_some,
      List.map_cons, List.map_nil, bindOrWarn_number, String.ofList_toList]
    rfl

section Parts

variable {α β : Type} {read : List Char → Option β} {chars : α → List Char} {value : α → β}

theorem bind_readable (hread : ∀ a, read (chars a) = some (value a)) (part : Option α) :
    (part.map chars).bind read = part.map value := by
  cases part with
  | none => rfl
  | some a => exact hread a

-- There is nothing to complain about a part that can be read.
theorem partWarning_readable (hread : ∀ a, read (chars a) = some (value a)) (h : Hit)
    (part : Option α) (code : LogCode) (message : String) :
    h.partWarning read (part.map chars) code message = [] := by
  cases part with
  | none => rfl
  | some a =>
    show (if (read (chars a)).isSome then _ else _) = _
    rw [hread a]
    rfl

end Parts

theorem effects_shadow (n : Word) (body : ShadowBody) (line : Nat) :
    (hit (.shadow n body) line).effects = binds (bindings (.shadow n body)) := by
  have hpair (o : SignedLiteral × SignedLiteral) := Capture.readOffset_pair o.1 o.2
  show Hit.shadowEffects _ = _
  simp only [Hit.shadowEffects, body_hit, core, body.find?_blurRadius, body.find?_offset,
    body.find?_alpha, partWarning_readable Capture.readNumber_literal, partWarning_readable hpair,
    bind_readable Capture.readNumber_literal, bind_readable hpair]
  rfl

/-- **The hit of a getter binds what the getter declares and nothing else.** -/
theorem effects_hit (d : Getter) (line : Nat) : (d.hit line).effects = binds d.bindings := by
  have hbody := d.body_hit line
  cases d with
  | color n x =>
    have hshape : (hit (.color n x) line).shape = .hex := by
      show (if x.alpha = [] then RuleDefinition.colorRgb else .colorArgb).shape = .hex
      split <;> rfl
    have hread : Capture.readColor (hit (.color n x) line).body = some x.value := by
      rw [hbody]
      exact Capture.readColor_hex x
    simp only [Hit.effects, hshape, hread, Option.map_some, Hit.bindOrWarn, String.append_empty]
    rfl
  | gradient n first others => exact effects_gradient n first others line
  | number n l =>
    have hshape : (hit (.number n l) line).shape = .numeric := by
      show (if startsWithAny typographyStarts n.text then RuleDefinition.fontScale
        else if startsWithAny borderStarts n.text then .borderScale else .spacingScale).shape = _
      split
      · rfl
      · split <;> rfl
    have hread : Capture.readNumber (hit (.number n l) line).body = some l.value := by
      rw [hbody]
      exact Capture.readNumber_literal l
    simp only [Hit.effects, hshape, hread, Option.map_some, Hit.bindOrWarn, String.append_empty]
    rfl
  | textStyle n body => exact effects_textStyle n body line
  | shadow n body => exact effects_shadow n body line
  | duration n ms =>
    have hread : Capture.readMilliseconds (hit (.duration n ms) line).body =
        some (Nat.ofDigitChars 10 ms.digits 0) := by
      rw [hbody]
      exact Capture.readMilliseconds_digits ms
    show [Hit.bindOrWarn _ _ _ _ _ _] = _
    rw [hread]
    rfl
  | curve n w =>
    show [Effect.bind (n.text ++ "_curve")
      (.symbol (String.ofList (hit (.curve n w) line).body))] = _
    rw [hbody]
    show [Effect.bind _ (.symbol (String.ofList w.text.toList))] = _
    rw [String.ofList_toList]
    rfl

theorem bindings_hit (d : Getter) (line : Nat) : (d.hit line).bindings = d.bindings := by
  rw [Hit.bindings, effects_hit, binds, List.filterMap_map]
  exact List.filterMap_some

theorem warnings_hit (d : Getter) (line : Nat) : (d.hit line).warnings = [] := by
  rw [Hit.warnings, effects_hit, binds, List.filterMap_map]
  exact List.filterMap_eq_nil_iff.2 fun _ _ => rfl

/-! ## The build of a printed source -/

theorem exists_of_mem_hitsFrom {first : Nat} {ds : List Getter} {h : Hit}
    (hm : h ∈ hitsFrom first ds) : ∃ d ∈ ds, ∃ line, h = d.hit line := by
  induction ds generalizing first with
  | nil => cases hm
  | cons d ds ih =>
    rcases List.mem_cons.1 hm with rfl | hm
    · exact ⟨d, List.mem_cons_self, first, rfl⟩
    · rcases ih hm with ⟨d', hd', hline⟩
      exact ⟨d', List.mem_cons_of_mem d hd', hline⟩

theorem warnings_hits (ds : List Getter) : (hits ds).flatMap Hit.warnings = [] := by
  rw [List.flatMap_eq_nil_iff]
  intro h hm
  rcases List.mem_flatMap.1 hm with ⟨r, -, hm⟩
  rcases exists_of_mem_hitsFrom (List.mem_filter.1 hm).1 with ⟨d, -, line, rfl⟩
  exact d.warnings_hit line

-- A standard rule is known by its id.
theorem id_eq_id_iff {r : RuleDefinition} (hr : r ∈ RuleDefinition.standard) (d : Getter) :
    d.definition.id = r.id ↔ d.definition = r := by
  have hdefs : RuleDefinition.standard = RuleDefinition.standardGetters.map (·.definition) := rfl
  rw [hdefs] at hr
  rcases List.mem_map.1 hr with ⟨g, hg, rfl⟩
  constructor
  · intro hid
    have heq : d.rule = g := List.inj_on_of_nodup_map nodup_ids d.rule_mem hg hid
    exact congrArg (·.definition) heq
  · intro hdef
    rw [hdef]

-- The hits of a rule bind what its getters declare, in the category of the rule.
theorem bindingsIn_filter {r : RuleDefinition} (hr : r ∈ RuleDefinition.standard) (c : Category)
    (first : Nat) (ds : List Getter) :
    bindingsIn c ((hitsFrom first ds).filter fun h => h.rule = r.id) =
      if r.category = c then (ds.filter fun d => d.definition = r).flatMap bindings else [] := by
  induction ds generalizing first with
  | nil => simp [hitsFrom, bindingsIn]
  | cons d ds ih =>
    have hid : (d.hit first).rule = r.id ↔ d.definition = r := id_eq_id_iff hr d
    rw [hitsFrom]
    by_cases hd : d.definition = r
    · have hcategory : (d.hit first).category = r.category := congrArg (·.category) hd
      rw [List.filter_cons_of_pos (by simpa using hid.2 hd), bindingsIn_cons, ih, hcategory,
        bindings_hit, List.filter_cons_of_pos (by simpa using hd)]
      split <;> rfl
    · rw [List.filter_cons_of_neg (by simpa [hid] using hd), ih,
        List.filter_cons_of_neg (by simpa using hd)]

theorem bindingsIn_hits (c : Category) (ds : List Getter) :
    bindingsIn c (hits ds) = declared c ds := by
  -- rules of other categories add nothing
  have hother (rs : List RuleDefinition) (f : RuleDefinition → List (String × TokenValue)) :
      (rs.flatMap fun r => if r.category = c then f r else []) =
        (rs.filter fun r => r.category = c).flatMap f := by
    induction rs with
    | nil => rfl
    | cons r rs ih =>
      rw [List.flatMap_cons, ih, List.filter_cons]
      by_cases hc : r.category = c
      · rw [if_pos hc, if_pos (decide_eq_true hc), List.flatMap_cons]
      · rw [if_neg hc, if_neg (by simpa using hc), List.nil_append]
  rw [bindingsIn, hits, List.filter_flatMap, List.flatMap_assoc, declared,
    List.flatMap_assoc, ← hother]
  exact List.flatMap_congr fun r hr => bindingsIn_filter hr c 1 ds

/-- **Printing getters and extracting them from the source gives back what they declare.** The scan
has their hits, sorted by rules and with their lines, and drops nothing; the build has no warnings,
and in each category the names that the getters bind, in the order of their first binding, with the
values of their last one. -/
theorem extract_print {ds : List Getter} (h : ds.length ≤ hitLimit) :
    (Library.standard.scan (print ds)).hits = hits ds ∧
      (Library.standard.scan (print ds)).metrics.dropped = 0 ∧
      (Library.standard.extract (print ds)).build.warnings = [] ∧
      ∀ c, ((Library.standard.extract (print ds)).build.model.table c).names =
          ((declared c ds).map (·.1)).eraseDups ∧
        ∀ name, (Library.standard.extract (print ds)).build.model.get? c name =
          TokenTable.lastBinding name (declared c ds) := by
  -- the tables are made of the hits alone, and these are known
  have hhits := hits_scan_print h
  have hwarnings : (Library.standard.extract (print ds)).build.warnings =
      (Library.standard.scan (print ds)).hits.flatMap Hit.warnings := Build.warnings_ofHits _
  have htable (c : Category) :
      (Library.standard.extract (print ds)).build.model.table c = .ofBindings (declared c ds) := by
    rw [Library.table_model_extract, hhits, bindingsIn_hits]
  refine ⟨hhits, dropped_scan_print h, ?_, fun c => ⟨?_, fun name => ?_⟩⟩
  · rw [hwarnings, hhits, warnings_hits]
  · rw [htable, TokenTable.names_ofBindings]
  · rw [TokenModel.get?, htable, TokenTable.get?_ofBindings]

/-! ## A small source -/

/-- A getter of each kind, and one that binds a name again. -/
def sample : List Getter :=
  [.number (.of "gap" (by decide)) (.of ['8'] [] (by decide +kernel)),
    .color (.of "brand" (by decide))
      ⟨['F', 'f'], "336699".toList, by decide, by decide, List.all_eq_true.1 (by decide)⟩,
    .gradient (.of "fade" (by decide))
      ⟨[], "336699".toList, by decide, by decide, List.all_eq_true.1 (by decide)⟩
      [⟨['8', '0'], "abcdef".toList, by decide, by decide, List.all_eq_true.1 (by decide)⟩],
    .textStyle (.of "body" (by decide))
      (.both (.of ['1', '4'] [] (by decide +kernel)) (.of "w500" (by decide))),
    .shadow (.of "card" (by decide))
      ⟨none, some (⟨false, .of ['0'] [] (by decide +kernel)⟩,
        ⟨true, .of ['2'] [] (by decide +kernel)⟩), none⟩,
    .duration (.of "fast" (by decide))
      ⟨"150".toList, by decide, List.all_eq_true.1 (by decide), by decide⟩,
    .curve (.of "ease" (by decide)) (.of "easeIn" (by decide)),
    .number (.of "gap" (by decide)) (.of ['1', '2'] ['5'] (by decide +kernel))]

example : print (sample.drop 5) =
    "Duration get fast => const Duration(milliseconds: 150);
Curve get ease => Curves.easeIn;
double get gap => 12.5;
" := by
  decide +kernel

theorem extract_print_sample :
    sample.length ≤ hitLimit ∧
      (Library.standard.extract (print sample)).build.warnings = [] ∧
      ((Library.standard.extract (print sample)).build.model.table .colors).names =
        ["brand", "fade_gradient"] ∧
      (Library.standard.extract (print sample)).build.model.get? .spacing "gap" =
        some (.number (digitsValue ['1', '2'] ['5'])) := by
  have hlength : sample.length ≤ hitLimit := by decide
  rcases extract_print hlength with ⟨-, -, hwarnings, htables⟩
  refine ⟨hlength, hwarnings, ?_, ?_⟩
  · rw [(htables .colors).1]
    decide +kernel
  · rw [(htables .spacing).2]
    decide +kernel

end Getter

end DesignTokens
