import DesignTokens.Text.Word
import DesignTokens.Text.Digit
import DesignTokens.Text.Blank
import DesignTokens.Number.Layout
import DesignTokens.Number.Literal
import DesignTokens.Pattern.Search
import DesignTokens.Pattern.Reader
import DesignTokens.Json.Printer
import DesignTokens.Json.Reader
import DesignTokens.Log.Collector
import DesignTokens.Log.Notice
import DesignTokens.Token.Model
import DesignTokens.Rule.Standard
import DesignTokens.Extract.Scan
import DesignTokens.Extract.Build
import DesignTokens.Document.Registry
import DesignTokens.Settings.File
import DesignTokens.Storage.FileSystem
import DesignTokens.Run.Export
import DesignTokens.Main
import DesignTokens.Proofs.Pattern.First
import DesignTokens.Proofs.Pattern.Occurrences
import DesignTokens.Proofs.Rule.Getter
import DesignTokens.Proofs.Rule.Library
import DesignTokens.Proofs.Extract.Fold
import DesignTokens.Proofs.Extract.Hits
import DesignTokens.Proofs.Number.PlainText
import DesignTokens.Proofs.Extract.Admissible
import DesignTokens.Proofs.Document.Stylesheet
import DesignTokens.Proofs.Document.FontSize
import DesignTokens.Proofs.Source.Calm
import DesignTokens.Proofs.Source.Getter
import DesignTokens.Proofs.Source.Line
import DesignTokens.Proofs.Source.Match
import DesignTokens.Proofs.Source.Scan
import DesignTokens.Proofs.Source.Read
import DesignTokens.Proofs.Source.Detail
import DesignTokens.Proofs.Source.RoundTrip
import DesignTokens.Proofs.Source.StyleArguments
import DesignTokens.Proofs.Extract.Sites
import DesignTokens.Proofs.Extract.WellTyped
import DesignTokens.Proofs.Extract.Account
import DesignTokens.Proofs.Extract.Origins
import DesignTokens.Proofs.Extract.Order
import DesignTokens.Proofs.Extract.Independence
import DesignTokens.Proofs.Extract.Once
import DesignTokens.Proofs.Number.DocumentText
import DesignTokens.Proofs.Number.LengthText
import DesignTokens.Proofs.Json.RoundTrip
import DesignTokens.Proofs.Json.Front
import DesignTokens.Proofs.Document.ReadBack
import DesignTokens.Proofs.Run.Agreement
import DesignTokens.Proofs.Document.Accord
import DesignTokens.Proofs.Log.Collected
import DesignTokens.Proofs.Run.Status
import DesignTokens.Proofs.Settings.Layers
import DesignTokens.Proofs.Log.ByFile
import DesignTokens.Proofs.Log.Nesting
import DesignTokens.Proofs.Document.Determined
import DesignTokens.Proofs.Storage.View
import DesignTokens.Proofs.Run.Traces
import DesignTokens.Proofs.Extract.Redeclared
import DesignTokens.Proofs.Document.Registration
import DesignTokens.Proofs.Storage.Reading
import DesignTokens.Proofs.Run.Halting
import DesignTokens.Proofs.Run.LastDocument
import DesignTokens.Proofs.Color.Channels
import DesignTokens.Proofs.Pattern.Break
import DesignTokens.Proofs.Extract.LineByLine
import DesignTokens.Proofs.Json.Lines
import DesignTokens.Proofs.Document.Stamp
import DesignTokens.Proofs.Number.Written
import DesignTokens.Proofs.Extract.OffsetText
import DesignTokens.Proofs.Number.Nearest
import DesignTokens.Proofs.Extract.DigitRuns
import DesignTokens.Proofs.Extract.Lines
import DesignTokens.Proofs.Log.Report
import DesignTokens.Proofs.Json.Compact
import DesignTokens.Proofs.Log.JsonLine
import DesignTokens.Proofs.Storage.SizeText
import DesignTokens.Proofs.Log.MessageCut
