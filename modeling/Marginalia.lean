import Marginalia.Text.Blank
import Marginalia.Text.Line
import Marginalia.Text.Markup
import Marginalia.Text.Quoted
import Marginalia.Text.Utf8
import Marginalia.Text.Utf16
import Marginalia.Decimal.Notation
import Marginalia.Decimal.Real
import Marginalia.Json.Printer
import Marginalia.Json.Parser
import Marginalia.Json.Record
import Marginalia.Diff.Expansion
import Marginalia.Diff.Session
import Marginalia.Diff.Wire.Action
import Marginalia.Diff.Patch.Table
import Marginalia.Diff.Replay
import Marginalia.Xml.Prolog
import Marginalia.Xml.Parser
import Marginalia.Xml.Pretty
import Marginalia.Notebook
import Marginalia.Attachment.XmlView
import Marginalia.Audio.Time
import Marginalia.Audio.Review
import Marginalia.Files.Tree
import Marginalia.Files.Location
import Marginalia.Main
import Marginalia.Proofs.Diff.Rows
import Marginalia.Proofs.Diff.Answer
import Marginalia.Proofs.Diff.Run
import Marginalia.Proofs.Diff.Drag
import Marginalia.Proofs.Diff.Parsed
import Marginalia.Proofs.Diff.Block
import Marginalia.Proofs.Diff.Controls
import Marginalia.Proofs.Diff.Lines
import Marginalia.Proofs.Diff.AnswerOrder
import Marginalia.Proofs.Diff.Release
import Marginalia.Proofs.Diff.Layout
import Marginalia.Proofs.Diff.Sides
import Marginalia.Proofs.Diff.Numbering
import Marginalia.Proofs.Diff.Gaps
import Marginalia.Proofs.Notebook.Markup
import Marginalia.Proofs.Diff.Addressing
import Marginalia.Proofs.Diff.Report
import Marginalia.Proofs.Diff.Refusal
import Marginalia.Proofs.Attachment.Blocks
import Marginalia.Proofs.Attachment.Reloads
import Marginalia.Proofs.Attachment.SameLine
import Marginalia.Proofs.Audio.Regions
import Marginalia.Proofs.Audio.Drawings
import Marginalia.Proofs.Text.Collapse
import Marginalia.Proofs.Xml.Lexing
import Marginalia.Proofs.Xml.Tags
import Marginalia.Proofs.Xml.Entities
import Marginalia.Proofs.Xml.Passages
import Marginalia.Proofs.Xml.Printed
import Marginalia.Proofs.Xml.Sound
import Marginalia.Proofs.Xml.Slices
import Marginalia.Proofs.Xml.Heading
import Marginalia.Proofs.Xml.Prolog
import Marginalia.Proofs.Xml.RoundTrip
import Marginalia.Proofs.Diff.Placement
import Marginalia.Proofs.Diff.Restore
import Marginalia.Proofs.Diff.Highlight
import Marginalia.Proofs.Diff.Aside
import Marginalia.Proofs.Diff.Fields
import Marginalia.Proofs.Diff.Hover
import Marginalia.Proofs.Diff.BreaksOff
import Marginalia.Proofs.Diff.Totality
import Marginalia.Proofs.Json.Members
import Marginalia.Proofs.Json.Text
import Marginalia.Proofs.Diff.Wire
import Marginalia.Proofs.Attachment.Fields
import Marginalia.Proofs.CommandLine.Tables
import Marginalia.Proofs.Decimal.Digits
import Marginalia.Proofs.Text.Runs
import Marginalia.Proofs.Diff.Counting
import Marginalia.Proofs.Diff.Spans
import Marginalia.Proofs.Diff.Segments
import Marginalia.Proofs.Text.Utf8
import Marginalia.Proofs.Text.Utf16
import Marginalia.Proofs.Xml.Decoding
import Marginalia.Proofs.Audio.Groups
import Marginalia.Proofs.Xml.Outside
import Marginalia.Proofs.Decimal.Shortest
import Marginalia.Proofs.Decimal.Notation
import Marginalia.Proofs.Audio.Keys
import Marginalia.Proofs.Audio.Repeats
import Marginalia.Proofs.Diff.Extents
import Marginalia.Proofs.Diff.Reveals
import Marginalia.Proofs.Xml.Display
import Marginalia.Proofs.Audio.Labels
import Marginalia.Proofs.Attachment.Batches
import Marginalia.Proofs.Config.FirstFile
import Marginalia.Proofs.Xml.Declarations
