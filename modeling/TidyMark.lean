import TidyMark.CommandLine.Arguments
import TidyMark.CommandLine.Files
import TidyMark.CommandLine.Help
import TidyMark.CommandLine.Path
import TidyMark.CommandLine.Remarks
import TidyMark.CommandLine.Run
import TidyMark.CommandLine.RunError
import TidyMark.CommandLine.Settings
import TidyMark.CommandLine.Usage
import TidyMark.CommandLine.World
import TidyMark.Failure
import TidyMark.Html.Basic
import TidyMark.Html.Block
import TidyMark.Html.Escape
import TidyMark.Html.Inline
import TidyMark.Html.Note
import TidyMark.Html.Piece
import TidyMark.Main
import TidyMark.Markdown.Autolink
import TidyMark.Markdown.Basic
import TidyMark.Markdown.Blocks
import TidyMark.Markdown.Cursor
import TidyMark.Markdown.Document
import TidyMark.Markdown.Emphasis
import TidyMark.Markdown.Entity
import TidyMark.Markdown.EntityName
import TidyMark.Markdown.Footnotes
import TidyMark.Markdown.Frame
import TidyMark.Markdown.HtmlBlock
import TidyMark.Markdown.Inlines
import TidyMark.Markdown.LineStart
import TidyMark.Markdown.Plain
import TidyMark.Markdown.TableRow
import TidyMark.Markdown.Tag
import TidyMark.Markdown.Target
import TidyMark.Options
import TidyMark.Proofs.Addresses
import TidyMark.Proofs.AllOrNothing
import TidyMark.Proofs.Anchors
import TidyMark.Proofs.Backslashes
import TidyMark.Proofs.Backtick
import TidyMark.Proofs.BlockApart
import TidyMark.Proofs.BlockStart
import TidyMark.Proofs.Boundary
import TidyMark.Proofs.Braces
import TidyMark.Proofs.Bracket
import TidyMark.Proofs.Bytes
import TidyMark.Proofs.Calls
import TidyMark.Proofs.Calm
import TidyMark.Proofs.CalmWalk
import TidyMark.Proofs.Canvas
import TidyMark.Proofs.CellBars
import TidyMark.Proofs.CodeKept
import TidyMark.Proofs.CodeSpanKept
import TidyMark.Proofs.Condensed
import TidyMark.Proofs.Contents
import TidyMark.Proofs.Course
import TidyMark.Proofs.Cover
import TidyMark.Proofs.Crossing
import TidyMark.Proofs.Cut
import TidyMark.Proofs.DestinationBytes
import TidyMark.Proofs.DestinationKept
import TidyMark.Proofs.Enclosure
import TidyMark.Proofs.EscapedBrackets
import TidyMark.Proofs.Exposed
import TidyMark.Proofs.FenceKept
import TidyMark.Proofs.FenceLines
import TidyMark.Proofs.FenceScan
import TidyMark.Proofs.Findings
import TidyMark.Proofs.Flattener
import TidyMark.Proofs.Foremost
import TidyMark.Proofs.Formation
import TidyMark.Proofs.GivenTargets
import TidyMark.Proofs.Grammar
import TidyMark.Proofs.Grid
import TidyMark.Proofs.HeadingLine
import TidyMark.Proofs.History
import TidyMark.Proofs.Indentation
import TidyMark.Proofs.InlineKinds
import TidyMark.Proofs.InlineWalk
import TidyMark.Proofs.ItemMarkers
import TidyMark.Proofs.KeptLines
import TidyMark.Proofs.Levels
import TidyMark.Proofs.LineFeeds
import TidyMark.Proofs.LinkText
import TidyMark.Proofs.Literal
import TidyMark.Proofs.Maps
import TidyMark.Proofs.Marks
import TidyMark.Proofs.Nesting
import TidyMark.Proofs.Openers
import TidyMark.Proofs.Ordinals
import TidyMark.Proofs.Outline
import TidyMark.Proofs.Paragraph
import TidyMark.Proofs.Passage
import TidyMark.Proofs.PlainLine
import TidyMark.Proofs.Plan
import TidyMark.Proofs.Prose
import TidyMark.Proofs.QuotedLines
import TidyMark.Proofs.RawTags
import TidyMark.Proofs.ReadBack
import TidyMark.Proofs.Reexpansion
import TidyMark.Proofs.Reread
import TidyMark.Proofs.Resolution
import TidyMark.Proofs.Rewrite
import TidyMark.Proofs.Rounds
import TidyMark.Proofs.Run
import TidyMark.Proofs.Scan
import TidyMark.Proofs.Separated
import TidyMark.Proofs.Separation
import TidyMark.Proofs.Sheet
import TidyMark.Proofs.Siblings
import TidyMark.Proofs.SkippedParagraphs
import TidyMark.Proofs.SpanLines
import TidyMark.Proofs.Splice
import TidyMark.Proofs.Strictness
import TidyMark.Proofs.StrongRuns
import TidyMark.Proofs.TameBlocks
import TidyMark.Proofs.TameDocuments
import TidyMark.Proofs.Targets
import TidyMark.Proofs.TickPairs
import TidyMark.Proofs.Touched
import TidyMark.Proofs.Unclosed
import TidyMark.Proofs.Unescaped
import TidyMark.Proofs.Unfenced
import TidyMark.Proofs.Unlinked
import TidyMark.Proofs.Verbatim
import TidyMark.Proofs.Visits
import TidyMark.Proofs.Walk
import TidyMark.Proofs.Watch
import TidyMark.Proofs.Word
import TidyMark.Proofs.Writable
import TidyMark.Reflink.Basic
import TidyMark.Reflink.Bracket
import TidyMark.Reflink.CodeSpan
import TidyMark.Reflink.Definition
import TidyMark.Reflink.Destination
import TidyMark.Reflink.Expansion
import TidyMark.Reflink.Maps
import TidyMark.Reflink.Region
import TidyMark.Reflink.Rewrite
import TidyMark.Reflink.Separate
import TidyMark.Reflink.Table
import TidyMark.Render.Address
import TidyMark.Render.Basic
import TidyMark.Render.Block
import TidyMark.Render.Escape
import TidyMark.Render.Inline
import TidyMark.Render.Item
import TidyMark.Render.Layout
import TidyMark.Render.Report
import TidyMark.Render.Rule
import TidyMark.Render.Sight
import TidyMark.Render.Spacing
import TidyMark.Render.State
import TidyMark.Render.Table
import TidyMark.Render.Walk
import TidyMark.Text.Basic
import TidyMark.Text.Blank
import TidyMark.Text.Condense
import TidyMark.Text.Line
import TidyMark.Text.Utf8
import TidyMark.Tidy
import TidyMark.Token.Basic
import TidyMark.Token.Flattener
import TidyMark.Token.Kind
import TidyMark.Token.Stream
import TidyMark.Unicode.Alphabetic
import TidyMark.Unicode.CaseFold
import TidyMark.Unicode.Casing
import TidyMark.Unicode.Class
import TidyMark.Unicode.Fold
import TidyMark.Unicode.Lowercase
import TidyMark.Unicode.Mark
import TidyMark.Unicode.Number
import TidyMark.Unicode.Punctuation
import TidyMark.Unicode.Ranges
import TidyMark.Unicode.Run
