import DesignTokens.Extract.Hit

/-!
# Scans

A scan applies every rule of a library to a source: the categories in canonical order, the rules
of a category in the order of their definition. All rules look up their lines in one table, which
is made from the source beforehand. Hits, counts and notices are read off what the rules found.
-/

namespace DesignTokens

/-- What one rule found in a source. -/
structure RuleScan (P : Type := Pattern) where
  rule : Rule P
  findings : List Finding

namespace RuleScan

variable {P : Type}

/-- The hits of a rule in source order. -/
def hits (s : RuleScan P) : List Hit :=
  s.findings.filterMap Finding.hit?

/-- What there is to say about a rule, in source order. -/
def notices (s : RuleScan P) : List Notice :=
  s.findings.filterMap (Finding.notice? s.rule.id)

end RuleScan

/-- What the rules of a library found in a source, in scan order. -/
structure Scan (P : Type := Pattern) where
  byRule : List (RuleScan P)

structure ScanMetrics where
  /-- The number of hits of each category, in canonical order. -/
  perCategory : List (Category × Nat)
  /-- The ids of the rules with a hit, in scan order. -/
  matchedRules : List String
  guardedOut : Nat
  dropped : Nat
deriving DecidableEq, Repr

namespace ScanMetrics

/-- The counts before any scan. -/
def none : ScanMetrics := ⟨[], [], 0, 0⟩

/-- The number of all hits. -/
def total (m : ScanMetrics) : Nat :=
  countTotal m.perCategory

end ScanMetrics

/-- Applies the rules of a library to a source. -/
def Library.scan {P : Type} [Matcher P] (lib : Library P) (source : String) : Scan P :=
  let chars := source.toList
  let lines := LineIndex.of chars
  ⟨Category.all.flatMap fun c => (lib.rulesFor c).map fun r => ⟨r, r.findings lines chars⟩⟩

namespace Scan

variable {P : Type}

/-- The hits in scan order. -/
def hits (s : Scan P) : List Hit :=
  s.byRule.flatMap RuleScan.hits

def hitsIn (s : Scan P) (c : Category) : List Hit :=
  (s.byRule.filter fun r => r.rule.category = c).flatMap RuleScan.hits

def metrics (s : Scan P) : ScanMetrics where
  perCategory := Category.all.map fun c => (c, (s.hitsIn c).length)
  matchedRules := (s.byRule.filter fun r => !r.hits.isEmpty).map (·.rule.id)
  guardedOut := (s.byRule.flatMap RuleScan.findings).countP Finding.isGuarded
  dropped := (s.byRule.flatMap RuleScan.findings).countP Finding.isDropped

/-- What there is to say about a scan: the rules' notices, then the counts. -/
def notices (s : Scan P) : List Notice :=
  let m := s.metrics
  s.byRule.flatMap RuleScan.notices
    ++ [.success .scanComplete "Source scan complete"
      [("hits", toString m.total), ("rules_matched", toString m.matchedRules.length),
       ("guarded_out", toString m.guardedOut)]]

end Scan

end DesignTokens
