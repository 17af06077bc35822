import MigrationLint.Cli.Options
import MigrationLint.Cli.Run
import MigrationLint.Environment.Basic
import MigrationLint.Environment.File
import MigrationLint.Environment.Lines
import MigrationLint.Files.Access
import MigrationLint.Files.Error
import MigrationLint.Files.Listing
import MigrationLint.Files.Path
import MigrationLint.Files.Tree
import MigrationLint.Json.Basic
import MigrationLint.Json.Printer
import MigrationLint.Json.Quoted
import MigrationLint.Json.Reader
import MigrationLint.Main
import MigrationLint.Policy.Basic
import MigrationLint.Policy.File
import MigrationLint.Policy.Load
import MigrationLint.Policy.Name
import MigrationLint.Policy.Settings
import MigrationLint.Problem
import MigrationLint.Proofs.Characters
import MigrationLint.Proofs.Clauses
import MigrationLint.Proofs.Comments
import MigrationLint.Proofs.Faithful
import MigrationLint.Proofs.Heads
import MigrationLint.Proofs.Hidden
import MigrationLint.Proofs.Layouts
import MigrationLint.Proofs.Names
import MigrationLint.Proofs.Ordinary
import MigrationLint.Proofs.Readings
import MigrationLint.Proofs.Regions
import MigrationLint.Proofs.Seams
import MigrationLint.Proofs.Spaces
import MigrationLint.Proofs.Tails
import MigrationLint.Proofs.Verdict
import MigrationLint.Proofs.Words
import MigrationLint.Report.Basic
import MigrationLint.Report.Text
import MigrationLint.Scan.Directory
import MigrationLint.Scan.Error
import MigrationLint.Scan.Source
import MigrationLint.Sql.Check
import MigrationLint.Sql.Clause
import MigrationLint.Sql.Form
import MigrationLint.Sql.Name
import MigrationLint.Sql.Normal
import MigrationLint.Sql.Region
import MigrationLint.Sql.SchemaRef
import MigrationLint.Sql.Statement
import MigrationLint.Text.Alphanumeric
import MigrationLint.Text.Blank
import MigrationLint.Text.Cased
import MigrationLint.Text.Lower
import MigrationLint.Text.Pieces
import MigrationLint.Text.Ranges
import MigrationLint.Text.Word
import MigrationLint.Proofs.Ends
import MigrationLint.Proofs.Chains
import MigrationLint.Proofs.Inert
import MigrationLint.Proofs.References
import MigrationLint.Proofs.Spellings
import MigrationLint.Proofs.Mentions
import MigrationLint.Proofs.Written
import MigrationLint.Proofs.Relaxing
import MigrationLint.Proofs.Letters
import MigrationLint.Proofs.QuotedNames
import MigrationLint.Proofs.Literals
import MigrationLint.Proofs.Values
import MigrationLint.Proofs.Reports
import MigrationLint.Proofs.ReadNames
import MigrationLint.Proofs.Paths
import MigrationLint.Proofs.Sources
import MigrationLint.Proofs.Trees
import MigrationLint.Proofs.Runs
import MigrationLint.Proofs.LinkedWords
import MigrationLint.Proofs.Detection
import MigrationLint.Proofs.WordTexts
import MigrationLint.Proofs.Rendered
import MigrationLint.Proofs.Order
import MigrationLint.Proofs.Denials
import MigrationLint.Proofs.Repeats
import MigrationLint.Proofs.Gaps
import MigrationLint.Proofs.ForeignKeys
import MigrationLint.Proofs.Symbols
import MigrationLint.Proofs.DropLists
import MigrationLint.Proofs.SpacedDots
import MigrationLint.Proofs.LowerTexts
import MigrationLint.Proofs.Listings
import MigrationLint.Proofs.Lookups
import MigrationLint.Proofs.Directories
import MigrationLint.Proofs.Marks
import MigrationLint.Proofs.Trimming
import MigrationLint.Proofs.Resolution
import MigrationLint.Proofs.Totals
import MigrationLint.Proofs.PolicyFiles
import MigrationLint.Proofs.PlainLines
import MigrationLint.Proofs.Rewrites
import MigrationLint.Proofs.Precedence
import MigrationLint.Proofs.Padded
import MigrationLint.Proofs.CommaLists
import MigrationLint.Text.Bytes
import MigrationLint.Sql.ByteScan
import MigrationLint.Proofs.FoundNames
import MigrationLint.Proofs.Bytes
import MigrationLint.Proofs.ByteScans
