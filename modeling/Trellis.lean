import Trellis.Proofs.LineFate
import Trellis.Proofs.MarkupTree
import Trellis.Proofs.Layout
import Trellis.Proofs.Extents
import Trellis.Proofs.ReportOrder
import Trellis.Proofs.TemplateSafety
import Trellis.Proofs.Composition
import Trellis.Main
import Trellis.Command.Run
import Trellis.Editor.Launch
import Trellis.Arguments
import Trellis.Text.Integer
import Trellis.Config
import Trellis.FileTree.Change
import Trellis.Toml.Read
import Trellis.Decimal.Shortest
import Trellis.Text.Utf8
import Trellis.Document.Listing
import Trellis.Editor.Session
import Trellis.Document.Read
import Trellis.Diagnostic.Distance
import Trellis.Statement.Read
import Trellis.Markup.Tree
import Trellis.Text.Case
import Trellis.Token
import Trellis.Value
import Trellis.Proofs.TrailingComment
import Trellis.Proofs.Notices
import Trellis.Proofs.StateOrder
import Trellis.Proofs.Building
import Trellis.Proofs.DashNotation
import Trellis.Proofs.BlockLines
import Trellis.Proofs.Watching
import Trellis.Proofs.Insertion
import Trellis.Proofs.MissingAwaits
import Trellis.Proofs.BareUses
import Trellis.Proofs.StringData
import Trellis.Proofs.CommentLines
import Trellis.Proofs.LocalNames
import Trellis.Proofs.AwaitKeyword
import Trellis.Proofs.AsyncFunctions
import Trellis.Proofs.StatementLines
import Trellis.Proofs.RouteReplay
import Trellis.Proofs.EndpointNames
import Trellis.Proofs.RouteParameters
import Trellis.Proofs.UrlTemplate
import Trellis.Proofs.ClientMethods
import Trellis.Proofs.QuotedTokens
import Trellis.Proofs.NameRuns
import Trellis.Proofs.ValuePlaces
import Trellis.Proofs.RewritingTwice
import Trellis.Proofs.DottedCalls
import Trellis.Proofs.LiteralValues
import Trellis.Proofs.SwappedQuotes
import Trellis.Proofs.ElementKinds
import Trellis.Proofs.SyntheticClasses
import Trellis.Proofs.EditDistance
import Trellis.Proofs.PortSpellings
import Trellis.Proofs.NodeVisits
import Trellis.Proofs.TemplateShape
import Trellis.Proofs.DeclaringLines
import Trellis.Proofs.DocumentOutline
import Trellis.Proofs.Suggestions
import Trellis.Proofs.Carets
import Trellis.Proofs.OutputPaths
import Trellis.Proofs.EmissionFrame
import Trellis.Proofs.BlockDepth
import Trellis.Proofs.TokenGaps
import Trellis.Proofs.Escaping
