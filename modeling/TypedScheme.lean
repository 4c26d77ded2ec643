import TypedScheme.Command.Check
import TypedScheme.Command.Console
import TypedScheme.Command.Flags
import TypedScheme.Command.Query
import TypedScheme.Command.Repl
import TypedScheme.Command.Run
import TypedScheme.Datum.Basic
import TypedScheme.Datum.Reader
import TypedScheme.Diagnostic
import TypedScheme.Expr.Basic
import TypedScheme.Expr.Keyword
import TypedScheme.Expr.Listing
import TypedScheme.Expr.Parser
import TypedScheme.Expr.Printer
import TypedScheme.Files.Library
import TypedScheme.Files.Path
import TypedScheme.Files.Volume
import TypedScheme.Main
import TypedScheme.Number.Binary64
import TypedScheme.Number.Numeral
import TypedScheme.Number.Shortest
import TypedScheme.Proofs.Command.Dialogue
import TypedScheme.Proofs.Command.Reports
import TypedScheme.Proofs.Datum.Completion
import TypedScheme.Proofs.Datum.Layout
import TypedScheme.Proofs.Datum.Places
import TypedScheme.Proofs.Datum.Reading
import TypedScheme.Proofs.Datum.Shape
import TypedScheme.Proofs.Datum.Writing
import TypedScheme.Proofs.Diagnostic
import TypedScheme.Proofs.Expr.Acceptance
import TypedScheme.Proofs.Expr.AnnotationScopes
import TypedScheme.Proofs.Expr.Annotations
import TypedScheme.Proofs.Expr.Concatenation
import TypedScheme.Proofs.Expr.FaultPlaces
import TypedScheme.Proofs.Expr.Grammar
import TypedScheme.Proofs.Expr.Layout
import TypedScheme.Proofs.Expr.Nesting
import TypedScheme.Proofs.Expr.Numbering
import TypedScheme.Proofs.Expr.Relocation
import TypedScheme.Proofs.Expr.RoundTrip
import TypedScheme.Proofs.Expr.Shift
import TypedScheme.Proofs.Expr.Slices
import TypedScheme.Proofs.Expr.WellFormed
import TypedScheme.Proofs.Expr.Writing
import TypedScheme.Proofs.Files.Library
import TypedScheme.Proofs.Files.Path
import TypedScheme.Proofs.Files.Volume
import TypedScheme.Proofs.Files.Walking
import TypedScheme.Proofs.Number.Numeral
import TypedScheme.Proofs.Number.Rounding
import TypedScheme.Proofs.Number.Shortest
import TypedScheme.Proofs.Run
import TypedScheme.Proofs.Scope
import TypedScheme.Proofs.Text.Quoted
import TypedScheme.Proofs.Token.Buffered
import TypedScheme.Proofs.Token.Cutting
import TypedScheme.Proofs.Token.Extension
import TypedScheme.Proofs.Token.Lexemes
import TypedScheme.Proofs.Token.Rescanning
import TypedScheme.Proofs.Token.StringLiterals
import TypedScheme.Proofs.Token.Tiling
import TypedScheme.Proofs.Token.Words
import TypedScheme.Proofs.Token.Writing
import TypedScheme.Proofs.Ty.Bind
import TypedScheme.Proofs.Ty.Denotation
import TypedScheme.Proofs.Ty.Equations
import TypedScheme.Proofs.Ty.Freshening
import TypedScheme.Proofs.Ty.Grammar
import TypedScheme.Proofs.Ty.Instances
import TypedScheme.Proofs.Ty.Matching
import TypedScheme.Proofs.Ty.Renaming
import TypedScheme.Proofs.Ty.Rendering
import TypedScheme.Proofs.Ty.Termination
import TypedScheme.Proofs.Ty.Triangular
import TypedScheme.Proofs.Ty.Unification
import TypedScheme.Proofs.Ty.Writing
import TypedScheme.Proofs.Typing.Adequacy
import TypedScheme.Proofs.Typing.Application
import TypedScheme.Proofs.Typing.Binders
import TypedScheme.Proofs.Typing.Constants
import TypedScheme.Proofs.Typing.Derivations
import TypedScheme.Proofs.Typing.Faults
import TypedScheme.Proofs.Typing.Forms
import TypedScheme.Proofs.Typing.FreeVariables
import TypedScheme.Proofs.Typing.History
import TypedScheme.Proofs.Typing.Indent
import TypedScheme.Proofs.Typing.KeptTypes
import TypedScheme.Proofs.Typing.Layout
import TypedScheme.Proofs.Typing.Occurrences
import TypedScheme.Proofs.Typing.Quotation
import TypedScheme.Proofs.Typing.Renaming
import TypedScheme.Proofs.Typing.Reordering
import TypedScheme.Proofs.Typing.Rules
import TypedScheme.Proofs.Typing.Run
import TypedScheme.Proofs.Typing.Shift
import TypedScheme.Proofs.Typing.ShownTypes
import TypedScheme.Proofs.Typing.Signatures
import TypedScheme.Proofs.Typing.Steps
import TypedScheme.Proofs.Typing.Trace
import TypedScheme.Proofs.Value.Grammar
import TypedScheme.Proofs.Value.Writing
import TypedScheme.Scope
import TypedScheme.Settings.Basic
import TypedScheme.Settings.Document.Basic
import TypedScheme.Settings.Document.Reader
import TypedScheme.Settings.Document.ScalarText
import TypedScheme.Settings.Document.Token
import TypedScheme.Settings.Scalar
import TypedScheme.Settings.Timestamp
import TypedScheme.Span
import TypedScheme.SyntaxError
import TypedScheme.Text.Blank
import TypedScheme.Text.CodeRange
import TypedScheme.Text.Columns
import TypedScheme.Text.Identifier
import TypedScheme.Text.InputLine
import TypedScheme.Text.Lines
import TypedScheme.Text.Piece
import TypedScheme.Text.Printable
import TypedScheme.Text.Quoted
import TypedScheme.Text.Utf8
import TypedScheme.Token.Basic
import TypedScheme.Token.Lexer
import TypedScheme.Ty.Basic
import TypedScheme.Ty.Numbering
import TypedScheme.Ty.Reader
import TypedScheme.Ty.Substitution
import TypedScheme.Typing.Checker
import TypedScheme.Typing.Failure
import TypedScheme.Typing.Primitive
import TypedScheme.Typing.Quotation
import TypedScheme.Typing.Session
import TypedScheme.Value.Basic
import TypedScheme.Value.Reader
