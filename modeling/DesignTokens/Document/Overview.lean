import DesignTokens.Document.Basic

/-!
# The overview

A page for readers: what the documents of a run are, how many tokens each category has, and how to
make the documents again.
-/

namespace DesignTokens.Overview

def lines (m : TokenModel) (ctx : DocumentContext) : List String :=
  ["# " ++ ctx.documentName, "", "Schema version `" ++ ctx.schemaVersion ++ "`."]
    ++ (match ctx.generatedAt with
      | some t => ["Generated at " ++ t.text ++ "."]
      | none => [])
    ++ ["", "## Files", ""]
    ++ ctx.manifest.map (fun e => "- `" ++ e.fileName ++ "` - " ++ e.description)
    ++ ["", "## Tokens", "", "| Category | Count |", "|----------|-------|"]
    ++ m.counts.map (fun (c, n) => "| " ++ c.title ++ " | " ++ toString n ++ " |")
    ++ ["| **Total** | " ++ toString m.total ++ " |", "", "## Regenerating", "", "```bash",
      (if ctx.source.isEmpty then "export-tokens" else "export-tokens --source " ++ ctx.source),
      "```"]

def adapter : Adapter where
  id := "readme"
  fileName := "README.md"
  description := "This overview"
  render m ctx := .ok (String.join ((lines m ctx).map (· ++ "\n")))

end DesignTokens.Overview
