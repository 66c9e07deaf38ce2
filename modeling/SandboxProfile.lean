import SandboxProfile.Text.Letter
import SandboxProfile.Text.Escaped
import SandboxProfile.Source.Document
import SandboxProfile.Diagnostic.Collector
import SandboxProfile.Json.Printer
import SandboxProfile.Json.Reader
import SandboxProfile.Json.Shape
import SandboxProfile.Token.Trivia
import SandboxProfile.Token.Fault
import SandboxProfile.Token.Basic
import SandboxProfile.Token.Symbol
import SandboxProfile.Token.Literal
import SandboxProfile.Token.Lexer
import SandboxProfile.Tree.Profile
import SandboxProfile.Reading.Fault
import SandboxProfile.Token.Forest
import SandboxProfile.Reading.Basic
import SandboxProfile.Reading.Expr
import SandboxProfile.Reading.Filter
import SandboxProfile.Reading.Declaration
import SandboxProfile.Reading.Profile
import SandboxProfile.Wire.Node
import SandboxProfile.Wire.Profile
import SandboxProfile.Wire.Decoding
import SandboxProfile.Wire.Encoding
import SandboxProfile.Layout.Indent
import SandboxProfile.Layout.Profile
import SandboxProfile.Layout.Format
import SandboxProfile.Strict
import SandboxProfile.Tree.Build
import SandboxProfile.Tree.Encoding
import SandboxProfile.Sample.Malformed
import SandboxProfile.Sample.Profiles
import SandboxProfile.CommandLine.Arguments
import SandboxProfile.CommandLine.Report
import SandboxProfile.Main
import SandboxProfile.Proofs.Erasure
import SandboxProfile.Proofs.ErasedReading
import SandboxProfile.Proofs.Lexemes
import SandboxProfile.Proofs.Grouping
import SandboxProfile.Proofs.ReadKinds
import SandboxProfile.Proofs.Grammar
import SandboxProfile.Proofs.GrammarForest
import SandboxProfile.Proofs.Completeness
import SandboxProfile.Proofs.Soundness
import SandboxProfile.Proofs.Acceptance
import SandboxProfile.Proofs.Printable
import SandboxProfile.Proofs.PrintedTokens
import SandboxProfile.Proofs.LayoutSpelling
import SandboxProfile.Proofs.RoundTrip
import SandboxProfile.Proofs.DerivedModel
import SandboxProfile.Proofs.Formatting
import SandboxProfile.Proofs.Recovery
import SandboxProfile.Proofs.Concatenation
import SandboxProfile.Proofs.Partition
import SandboxProfile.Proofs.JsonNesting
import SandboxProfile.Proofs.JsonSpelling
import SandboxProfile.Proofs.JsonReading
import SandboxProfile.Proofs.JsonFields
import SandboxProfile.Proofs.WireDecoding
import SandboxProfile.Proofs.WireText
import SandboxProfile.Proofs.JsonRoute
import SandboxProfile.Proofs.PrintedForms
import SandboxProfile.Proofs.PrintedNames
import SandboxProfile.Proofs.LineTable
import SandboxProfile.Proofs.Places
import SandboxProfile.Proofs.BareText
import SandboxProfile.Proofs.Children
import SandboxProfile.Proofs.Unclosed
import SandboxProfile.Proofs.Ensures
import SandboxProfile.Proofs.ForestPlaces
import SandboxProfile.Proofs.TreePlaces
import SandboxProfile.Proofs.ReadPlaces
import SandboxProfile.Proofs.ProfilePlaces
import SandboxProfile.Proofs.Declared
import SandboxProfile.Proofs.Regular
import SandboxProfile.Proofs.Quotations
import SandboxProfile.Proofs.RespelledFilters
import SandboxProfile.Proofs.SettledFormat
import SandboxProfile.Proofs.LineFaults
import SandboxProfile.Proofs.LineEndings
import SandboxProfile.Proofs.LexerCalls
import SandboxProfile.Proofs.JsonBrackets
import SandboxProfile.Proofs.WireAccepted
import SandboxProfile.Proofs.LargerLimit
import SandboxProfile.Proofs.DepthLimit
import SandboxProfile.Proofs.WireNesting
import SandboxProfile.Proofs.FrontToken
import SandboxProfile.Proofs.StringLiterals
import SandboxProfile.Proofs.IntegerLiterals
import SandboxProfile.Proofs.TokenReports
import SandboxProfile.Proofs.Lines
import SandboxProfile.Proofs.TriviaPieces
import SandboxProfile.Proofs.CommentNesting
import SandboxProfile.Proofs.PlaceOrder
import SandboxProfile.Proofs.LineTiling
import SandboxProfile.Proofs.Indentation
import SandboxProfile.Proofs.FieldOrder
import SandboxProfile.Proofs.TreeDecoding
import SandboxProfile.Proofs.CollectorCalls
import SandboxProfile.Proofs.Slices
import SandboxProfile.Proofs.DepthSearch
import SandboxProfile.Proofs.Cursor
import SandboxProfile.Proofs.CursorSteps
import SandboxProfile.Proofs.CursorLists
import SandboxProfile.Proofs.CursorReadings
import SandboxProfile.Proofs.CursorForms
import SandboxProfile.Proofs.CursorDocument
import SandboxProfile.Proofs.KeptLists
