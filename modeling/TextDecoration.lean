import TextDecoration.Buffer
import TextDecoration.CommandLine.Invocation
import TextDecoration.CommandLine.Session
import TextDecoration.Config.Reading
import TextDecoration.Decorator
import TextDecoration.Main
import TextDecoration.Painting
import TextDecoration.Registry
import TextDecoration.Token.Listing
import TextDecoration.Proofs.Pattern.Ways
import TextDecoration.Proofs.Pattern.Sweep
import TextDecoration.Proofs.Grammar.Search
import TextDecoration.Proofs.Token.Literal
import TextDecoration.Proofs.Grammar.Passes
import TextDecoration.Proofs.Grammar.Losslessness
import TextDecoration.Proofs.Grammar.Reachable
import TextDecoration.Proofs.Grammar.Canonical
import TextDecoration.Proofs.Range.Projection
import TextDecoration.Proofs.Grammar.Priority
import TextDecoration.Proofs.Grammar.Segments
import TextDecoration.Proofs.Grammar.Conformance
import TextDecoration.Proofs.Grammar.Neighbours
import TextDecoration.Proofs.Grammar.Parts
import TextDecoration.Proofs.Text.BlankLines
import TextDecoration.Proofs.Markdown.Emphasis
import TextDecoration.Proofs.Markdown.EmphasisedTokens
import TextDecoration.Proofs.Markdown.BlankLines
import TextDecoration.Proofs.Terminal.Basic
import TextDecoration.Proofs.Terminal.Styled
import TextDecoration.Proofs.Painting.Display
import TextDecoration.Proofs.CommandLine.Arguments
import TextDecoration.Proofs.CommandLine.Items
import TextDecoration.Proofs.Document.Ranges
import TextDecoration.Proofs.Painting.Page
import TextDecoration.Proofs.Text.Lines
import TextDecoration.Proofs.CommandLine.PaintedRun
import TextDecoration.Proofs.Grammar.Uniqueness
import TextDecoration.Proofs.Table.Values
import TextDecoration.Proofs.Builtin.Reachable
import TextDecoration.Proofs.Document.Edits
import TextDecoration.Proofs.Pattern.Advances
import TextDecoration.Proofs.Pattern.Ends
import TextDecoration.Proofs.Pattern.Preferred
import TextDecoration.Proofs.Grammar.Places
import TextDecoration.Proofs.Pattern.Endings
import TextDecoration.Proofs.Markdown.Delimiters
import TextDecoration.Proofs.Markdown.Escapes
import TextDecoration.Proofs.Markdown.Earliest
import TextDecoration.Proofs.Markdown.Edges
import TextDecoration.Proofs.Markdown.Marks
import TextDecoration.Proofs.Grammar.Nesting
import TextDecoration.Proofs.Markdown.Nesting
import TextDecoration.Proofs.Registry.Detection
import TextDecoration.Proofs.Document.LineFeeds
import TextDecoration.Proofs.CommandLine.Sessions
import TextDecoration.Proofs.CommandLine.Outcomes
import TextDecoration.Proofs.Grammar.FirstToken
import TextDecoration.Proofs.Painting.Cuts
import TextDecoration.Proofs.Table.Overlay
import TextDecoration.Proofs.Table.Placement
import TextDecoration.Proofs.Grammar.Composition
import TextDecoration.Proofs.Config.Anchored
import TextDecoration.Proofs.Grammar.Embedding
import TextDecoration.Proofs.Config.Layers
import TextDecoration.Proofs.Registry.Lookups
import TextDecoration.Proofs.Text.Spans
import TextDecoration.Proofs.Pattern.Literals
import TextDecoration.Proofs.Grammar.Fragments
import TextDecoration.Proofs.Grammar.FirstRule
import TextDecoration.Proofs.Grammar.LiteralRules
import TextDecoration.Proofs.Grammar.Calls
import TextDecoration.Proofs.Grammar.Words
import TextDecoration.Proofs.Builtin.Comments
import TextDecoration.Proofs.Table.Layers
import TextDecoration.Proofs.Text.LineEnds
import TextDecoration.Proofs.Text.Quoted
import TextDecoration.Proofs.Token.Listing
import TextDecoration.Proofs.Json.Reader
import TextDecoration.Proofs.Range.Json
import TextDecoration.Proofs.Toml.Keys
import TextDecoration.Proofs.Config.Fields
import TextDecoration.Proofs.Config.Documents
import TextDecoration.Proofs.Range.Policy
import TextDecoration.Proofs.Style.Merging
import TextDecoration.Proofs.Style.Resolution
import TextDecoration.Proofs.Text.ByteSlices
import TextDecoration.Proofs.Grammar.ByteCutting
