import StyleHoist.Advice
import StyleHoist.Command.Arguments
import StyleHoist.Command.Report
import StyleHoist.Command.Run
import StyleHoist.Comment.Basic
import StyleHoist.Comment.Restore
import StyleHoist.Comment.Strip
import StyleHoist.Decimal.Shortest
import StyleHoist.Extraction
import StyleHoist.Import.Basic
import StyleHoist.Import.Patch
import StyleHoist.Inspection
import StyleHoist.Json.Basic
import StyleHoist.Json.Lexical
import StyleHoist.Json.Print
import StyleHoist.Json.Read
import StyleHoist.Main
import StyleHoist.Notice
import StyleHoist.Path
import StyleHoist.Project.Files
import StyleHoist.Project.SettingsFile
import StyleHoist.Project.Tree
import StyleHoist.Proofs.Comment.Belonging
import StyleHoist.Proofs.Comment.Fixpoint
import StyleHoist.Proofs.Comment.Kept
import StyleHoist.Proofs.Comment.Lexer
import StyleHoist.Proofs.Comment.Notation
import StyleHoist.Proofs.Comment.Outline
import StyleHoist.Proofs.Comment.Quoting
import StyleHoist.Proofs.Comment.Rendered
import StyleHoist.Proofs.Comment.Scanning
import StyleHoist.Proofs.Comment.Stripped
import StyleHoist.Proofs.Comment.Stripping
import StyleHoist.Proofs.Comment.Surroundings
import StyleHoist.Proofs.Comment.Words
import StyleHoist.Proofs.Extraction.Advised
import StyleHoist.Proofs.Extraction.Association
import StyleHoist.Proofs.Extraction.Collision
import StyleHoist.Proofs.Extraction.Comments
import StyleHoist.Proofs.Extraction.Inspected
import StyleHoist.Proofs.Extraction.Literals
import StyleHoist.Proofs.Extraction.Meaning
import StyleHoist.Proofs.Extraction.Names
import StyleHoist.Proofs.Extraction.Numbering
import StyleHoist.Proofs.Extraction.ReadBack
import StyleHoist.Proofs.Extraction.Reported
import StyleHoist.Proofs.Extraction.Restored
import StyleHoist.Proofs.Extraction.Sources
import StyleHoist.Proofs.Extraction.Within
import StyleHoist.Proofs.Extraction.Written
import StyleHoist.Proofs.Import.Adding
import StyleHoist.Proofs.Import.Clause
import StyleHoist.Proofs.Import.Ending
import StyleHoist.Proofs.Import.Position
import StyleHoist.Proofs.Import.Scanning
import StyleHoist.Proofs.Import.Writing
import StyleHoist.Proofs.Json.Notation
import StyleHoist.Proofs.Json.Passing
import StyleHoist.Proofs.Json.Printed
import StyleHoist.Proofs.Project.Disk
import StyleHoist.Proofs.Project.History
import StyleHoist.Proofs.Registry.Appending
import StyleHoist.Proofs.Registry.Balance
import StyleHoist.Proofs.Registry.Bracing
import StyleHoist.Proofs.Registry.Bytes
import StyleHoist.Proofs.Registry.Commented
import StyleHoist.Proofs.Registry.Heading
import StyleHoist.Proofs.Registry.Layout
import StyleHoist.Proofs.Registry.Listing
import StyleHoist.Proofs.Registry.Literal
import StyleHoist.Proofs.Registry.Names
import StyleHoist.Proofs.Registry.NewEntry
import StyleHoist.Proofs.Registry.OneByOne
import StyleHoist.Proofs.Registry.Position
import StyleHoist.Proofs.Registry.Rescan
import StyleHoist.Proofs.Script.Beginning
import StyleHoist.Proofs.Script.Brackets
import StyleHoist.Proofs.Script.Lines
import StyleHoist.Proofs.Script.Literals
import StyleHoist.Proofs.Script.Placed
import StyleHoist.Proofs.Script.Placing
import StyleHoist.Proofs.Script.Rules.Items
import StyleHoist.Proofs.Script.Rules.Types
import StyleHoist.Proofs.Script.Rules.Values
import StyleHoist.Proofs.Script.Scanning
import StyleHoist.Proofs.Script.Tokens
import StyleHoist.Proofs.Settings.Decoding
import StyleHoist.Proofs.Settings.Members
import StyleHoist.Proofs.Style.Cursor
import StyleHoist.Proofs.Style.Dedenting
import StyleHoist.Proofs.Style.Lookup
import StyleHoist.Proofs.Style.Meaning
import StyleHoist.Proofs.Style.Placement
import StyleHoist.Proofs.Style.Sorting
import StyleHoist.Proofs.Text.Batch
import StyleHoist.Proofs.Text.Parts
import StyleHoist.Proofs.Text.Place
import StyleHoist.Proofs.Text.Positions
import StyleHoist.Proofs.Text.Sequential
import StyleHoist.Registry.Basic
import StyleHoist.Registry.Entry
import StyleHoist.Registry.Insertion
import StyleHoist.Registry.Scan
import StyleHoist.Script.File
import StyleHoist.Script.Grammar.Basic
import StyleHoist.Script.Grammar.Declaration
import StyleHoist.Script.Grammar.Function
import StyleHoist.Script.Grammar.Markup
import StyleHoist.Script.Grammar.Module
import StyleHoist.Script.Grammar.Parameter
import StyleHoist.Script.Grammar.Pattern
import StyleHoist.Script.Grammar.Statement
import StyleHoist.Script.Grammar.Type
import StyleHoist.Script.Grammar.Value
import StyleHoist.Script.Node
import StyleHoist.Script.Read
import StyleHoist.Script.Scan
import StyleHoist.Script.Source
import StyleHoist.Script.Token
import StyleHoist.Settings.Basic
import StyleHoist.Settings.Decode
import StyleHoist.Style.Body
import StyleHoist.Style.Shape
import StyleHoist.Style.Site
import StyleHoist.Style.Target
import StyleHoist.Text.Basic
import StyleHoist.Text.CharSet
import StyleHoist.Text.Edit
import StyleHoist.Text.Identifier
import StyleHoist.Text.Key
import StyleHoist.Text.LineIndex
import StyleHoist.Text.Lowercase
import StyleHoist.Text.Order
import StyleHoist.Text.Quoted
import StyleHoist.Text.Word
import StyleHoist.Tool.Answer
import StyleHoist.Tool.Call
