import JavaAtlas.Analysis
import JavaAtlas.CommandLine.Arguments
import JavaAtlas.CommandLine.Help
import JavaAtlas.CommandLine.Run
import JavaAtlas.Discovery
import JavaAtlas.Disk.Basic
import JavaAtlas.Disk.Path
import JavaAtlas.Java.AnnotationUse
import JavaAtlas.Java.Endpoint
import JavaAtlas.Java.EnumConstants
import JavaAtlas.Java.Extraction
import JavaAtlas.Java.Header
import JavaAtlas.Java.Method
import JavaAtlas.Java.Unit
import JavaAtlas.Json.Basic
import JavaAtlas.Json.Literal
import JavaAtlas.Json.Order
import JavaAtlas.Json.Printer
import JavaAtlas.Json.Reader
import JavaAtlas.Json.Shape
import JavaAtlas.Lexical.Boundary
import JavaAtlas.Lexical.Literal
import JavaAtlas.Lexical.Mask
import JavaAtlas.Lexical.Token
import JavaAtlas.Loose.Change
import JavaAtlas.Loose.Forest
import JavaAtlas.Loose.Model
import JavaAtlas.Loose.Page
import JavaAtlas.Loose.Resolve
import JavaAtlas.Loose.Summary
import JavaAtlas.Loose.Unit
import JavaAtlas.Main
import JavaAtlas.Model.Basic
import JavaAtlas.Model.Document
import JavaAtlas.Model.Forest
import JavaAtlas.Model.Resolve
import JavaAtlas.Number.Binary64
import JavaAtlas.Number.Shortest
import JavaAtlas.OrderedMap
import JavaAtlas.Pattern.Basic
import JavaAtlas.Pattern.Search
import JavaAtlas.Proofs.Actions
import JavaAtlas.Proofs.Coherence
import JavaAtlas.Proofs.Comments
import JavaAtlas.Proofs.Document
import JavaAtlas.Proofs.Forest
import JavaAtlas.Proofs.Links
import JavaAtlas.Proofs.Masking
import JavaAtlas.Proofs.Searching
import JavaAtlas.Proofs.Order
import JavaAtlas.Proofs.PlainText
import JavaAtlas.Proofs.Reachable
import JavaAtlas.Proofs.Reading
import JavaAtlas.Proofs.Relations
import JavaAtlas.Proofs.Resolution
import JavaAtlas.Proofs.Storage
import JavaAtlas.Proofs.Words
import JavaAtlas.Query.Analyze
import JavaAtlas.Query.Basic
import JavaAtlas.Query.Hierarchy
import JavaAtlas.Query.Report
import JavaAtlas.Query.Search
import JavaAtlas.Report.Files
import JavaAtlas.Report.Javadoc
import JavaAtlas.Report.Page
import JavaAtlas.Service.Call
import JavaAtlas.Service.Tool
import JavaAtlas.Settings
import JavaAtlas.Sorting.Adaptive
import JavaAtlas.Sorting.Border
import JavaAtlas.Sorting.Merge
import JavaAtlas.Sorting.Run
import JavaAtlas.Store.Basic
import JavaAtlas.Summary.Assistant
import JavaAtlas.Summary.Plain
import JavaAtlas.Text.Case
import JavaAtlas.Text.CaseTable
import JavaAtlas.Text.CharClass
import JavaAtlas.Text.Integer
import JavaAtlas.Text.Order
import JavaAtlas.Text.PrintTable
import JavaAtlas.Text.Quoted
import JavaAtlas.Text.Ranges
import JavaAtlas.Text.Utf8
import JavaAtlas.Text.WordTable
import JavaAtlas.Text.Words
import JavaAtlas.World
import JavaAtlas.Proofs.Marks
import JavaAtlas.Proofs.Declarations
import JavaAtlas.Proofs.Members
import JavaAtlas.Proofs.Preambles
import JavaAtlas.Proofs.RestSources
import JavaAtlas.Proofs.Ownership
import JavaAtlas.Proofs.Tables
import JavaAtlas.Proofs.Alike
import JavaAtlas.Proofs.MergeOrder
import JavaAtlas.Proofs.Merging
import JavaAtlas.Proofs.Growth
import JavaAtlas.Proofs.Paths
import JavaAtlas.Proofs.Effects
import JavaAtlas.Proofs.Pages
import JavaAtlas.Proofs.Listing
import JavaAtlas.Proofs.Deposits
import JavaAtlas.Proofs.Sessions
import JavaAtlas.Proofs.Answers
import JavaAtlas.Proofs.Damage
import JavaAtlas.Proofs.Slots
import JavaAtlas.Proofs.Figures
import JavaAtlas.Proofs.Twins
import JavaAtlas.Proofs.Sources
import JavaAtlas.Proofs.Writing
import JavaAtlas.Proofs.Entrances
import JavaAtlas.Proofs.Footprint
import JavaAtlas.Proofs.Notices
import JavaAtlas.Proofs.Lexing
import JavaAtlas.Proofs.Documentation
import JavaAtlas.Proofs.Automaton
import JavaAtlas.Proofs.Headings
import JavaAtlas.Proofs.TypeHeads
import JavaAtlas.Proofs.Quotations
import JavaAtlas.Proofs.Verbatim
import JavaAtlas.Proofs.Divisions
import JavaAtlas.Proofs.Enumerations
import JavaAtlas.Proofs.MarkedConstants
import JavaAtlas.Proofs.Indifference
import JavaAtlas.Proofs.Trimming
import JavaAtlas.Proofs.Lowering
import JavaAtlas.Proofs.Summaries
import JavaAtlas.Proofs.Replies
import JavaAtlas.Proofs.Ranking
import JavaAtlas.Proofs.Rows
import JavaAtlas.Proofs.Parts
import JavaAtlas.Proofs.ClassSources
import JavaAtlas.Proofs.Outcomes
import JavaAtlas.Proofs.Borders
import JavaAtlas.Proofs.RunMerging
import JavaAtlas.Proofs.AdaptiveSorting
import JavaAtlas.Proofs.Values
import JavaAtlas.Proofs.Enrolment
import JavaAtlas.Proofs.Descents
import JavaAtlas.Proofs.Rosters
import JavaAtlas.Proofs.Literals
import JavaAtlas.Proofs.Segments
import JavaAtlas.Proofs.Boundaries
import JavaAtlas.Proofs.Outlines
