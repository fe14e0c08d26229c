import PegFront.Cli.Arguments
import PegFront.Cli.Files
import PegFront.Cli.Report
import PegFront.Cli.Run
import PegFront.Cli.Scan
import PegFront.Cli.Usage
import PegFront.Cminor.Expressions
import PegFront.Cminor.Front
import PegFront.Cminor.Literals
import PegFront.Cminor.Statements
import PegFront.Cminor.Syntax
import PegFront.Cminor.Syntax.Names
import PegFront.Cminor.Syntax.Printer
import PegFront.Cminor.Syntax.Reader
import PegFront.Cminor.Units
import PegFront.Cminor.Value
import PegFront.Cminor.Words
import PegFront.Diagnostic
import PegFront.Dump
import PegFront.Error
import PegFront.Json.Basic
import PegFront.Json.Decode
import PegFront.Json.Reader
import PegFront.Json.Writer
import PegFront.Main
import PegFront.Number.Binary64
import PegFront.Number.Layout
import PegFront.Number.Shortest
import PegFront.Number.Words
import PegFront.Peg.CharSet
import PegFront.Peg.Documents
import PegFront.Peg.Domain
import PegFront.Peg.Engine
import PegFront.Peg.Lexical
import PegFront.Peg.Link
import PegFront.Peg.Match
import PegFront.Peg.Pattern
import PegFront.Peg.Printer
import PegFront.Peg.QualifiedName
import PegFront.Peg.Registry
import PegFront.Peg.Rule
import PegFront.Peg.Scanner
import PegFront.Peg.Script
import PegFront.Peg.Session
import PegFront.Peg.Stack
import PegFront.Peg.Trace
import PegFront.Source.Documents
import PegFront.Source.Lines
import PegFront.Source.Span
import PegFront.Styled
import PegFront.Text.Alphabetic
import PegFront.Text.Bytes
import PegFront.Text.CharClass
import PegFront.Text.CharWidth
import PegFront.Text.Emoji
import PegFront.Text.Joint
import PegFront.Text.Numeric
import PegFront.Text.Quoted
import PegFront.Text.Sorted
import PegFront.Text.Unprintable
import PegFront.Text.Wide
import PegFront.Text.Width
import PegFront.Text.ZeroWidth
import PegFront.Proofs.History
import PegFront.Proofs.Place
import PegFront.Proofs.Position
import PegFront.Proofs.Balance
import PegFront.Proofs.Sessions
import PegFront.Proofs.Faults
import PegFront.Proofs.Progress
import PegFront.Proofs.Signature
import PegFront.Proofs.Typing
import PegFront.Proofs.Cminor.Hooks
import PegFront.Proofs.Cminor.Parse
import PegFront.Proofs.Derivation
import PegFront.Proofs.Adequacy
import PegFront.Proofs.Shapes
import PegFront.Proofs.Cminor.Table
import PegFront.Proofs.Silence
import PegFront.Proofs.Cminor.Gaps
import PegFront.Proofs.Skipping
import PegFront.Proofs.Cminor.Blanks
import PegFront.Proofs.Cminor.Words
import PegFront.Proofs.Cminor.Literals
import PegFront.Proofs.Cminor.Operators
import PegFront.Proofs.Cminor.Reads
import PegFront.Proofs.Cminor.Levels
import PegFront.Proofs.Cminor.Completeness
import PegFront.Proofs.Cminor.Soundness
import PegFront.Proofs.Cminor.Expressions
import PegFront.Proofs.Cminor.Nesting
import PegFront.Proofs.Cminor.Spans
import PegFront.Proofs.Cminor.Types
import PegFront.Proofs.Cminor.Leading
import PegFront.Proofs.Cminor.Attempts
import PegFront.Proofs.Cminor.Steps
import PegFront.Proofs.Cminor.Statements
import PegFront.Proofs.Cminor.ExpressionStatements
import PegFront.Proofs.Displacement
import PegFront.Proofs.Cminor.Moving
import PegFront.Proofs.Cminor.Layouts
import PegFront.Proofs.Cminor.Rendering
import PegFront.Proofs.Cminor.Sentences
import PegFront.Proofs.Cminor.SentencesRead
import PegFront.Proofs.Cminor.SentencesSound
import PegFront.Proofs.Cminor.Blocks
import PegFront.Proofs.Registrations
import PegFront.Proofs.Dependencies
import PegFront.Proofs.Nodes
import PegFront.Proofs.Resolution
import PegFront.Proofs.WellFormed
import PegFront.Proofs.Relabelling
import PegFront.Proofs.Reordering
import PegFront.Proofs.Traces
import PegFront.Proofs.Cminor.Functions
import PegFront.Proofs.Cminor.UnitRendering
import PegFront.Proofs.Cminor.Outlines
import PegFront.Proofs.Invariants
import PegFront.Proofs.Lines
import PegFront.Proofs.Origins
import PegFront.Proofs.Frames
import PegFront.Proofs.Fuel
import PegFront.Proofs.Realization
import PegFront.Proofs.Regrouping
import PegFront.Proofs.Endings
import PegFront.Proofs.Lists
import PegFront.Proofs.Cminor.Substatements
import PegFront.Proofs.Cminor.Numerals
import PegFront.Proofs.Cminor.Quotes
import PegFront.Proofs.Raises
import PegFront.Proofs.Cminor.Integers
import PegFront.Proofs.CharSets
import PegFront.Proofs.Comments
import PegFront.Proofs.Cminor.Identifiers
import PegFront.Proofs.Failures
import PegFront.Proofs.Legible
import PegFront.Proofs.Cminor.PrefixForm
import PegFront.Proofs.GrammarWords
import PegFront.Proofs.GrammarForms
import PegFront.Proofs.GrammarText
import PegFront.Proofs.LineTexts
import PegFront.Proofs.Snippets
import PegFront.Proofs.Cminor.Keywords
