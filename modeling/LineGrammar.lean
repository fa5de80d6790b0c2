import LineGrammar.Text.Utf8
import LineGrammar.Text.Case
import LineGrammar.Text.Blank
import LineGrammar.Text.Quoted
import LineGrammar.Text.Numeral
import LineGrammar.Buffer.Excerpt
import LineGrammar.Regex.Basic
import LineGrammar.Cursor
import LineGrammar.Multiplicity
import LineGrammar.Match
import LineGrammar.Scope.Value
import LineGrammar.Note
import LineGrammar.Expr.Attempt
import LineGrammar.Expr.Compose
import LineGrammar.Expr.Patterns
import LineGrammar.Session.Script
import LineGrammar.Grammar.Builder
import LineGrammar.Parser.Basic
import LineGrammar.Markup.Blocks
import LineGrammar.Markup.Sections
import LineGrammar.Proofs.Text.Boundary
import LineGrammar.Proofs.Regex.Span
import LineGrammar.Proofs.Buffer.Bare
import LineGrammar.Proofs.Cursor.Place
import LineGrammar.Proofs.Cursor.Remaining
import LineGrammar.Proofs.Cursor.Within
import LineGrammar.Proofs.Cursor.Bare
import LineGrammar.Proofs.Match.Nodes
import LineGrammar.Proofs.Expr.Contract
import LineGrammar.Proofs.Expr.Placement
import LineGrammar.Proofs.Expr.Bare
import LineGrammar.Proofs.Scope.Chronology
import LineGrammar.Proofs.Scope.Arena
import LineGrammar.Proofs.Session.Change
import LineGrammar.Proofs.Session.Record
import LineGrammar.Proofs.Session.Act
import LineGrammar.Proofs.Session.Shape
import LineGrammar.Proofs.Session.SaveOrder
import LineGrammar.Proofs.Session.Replay
import LineGrammar.Proofs.Session.Alike
import LineGrammar.Proofs.Grammar.FirstMatch
import LineGrammar.Proofs.Grammar.Compiled
import LineGrammar.Proofs.Grammar.Names
import LineGrammar.Proofs.Parser.Run
import LineGrammar.Proofs.Parser.Progress
import LineGrammar.Proofs.Parser.Step
import LineGrammar.Proofs.Parser.Coverage
import LineGrammar.Proofs.Parser.Transcript
import LineGrammar.Proofs.Parser.Way
import LineGrammar.Proofs.Parser.Endless
import LineGrammar.Proofs.Parser.Alike
import LineGrammar.Proofs.Parser.Winner
import LineGrammar.Proofs.Parser.Refusal
import LineGrammar.Proofs.Parser.Faults
import LineGrammar.Proofs.Parser.Endings
import LineGrammar.Proofs.Parser.Loop
import LineGrammar.Proofs.Cursor.Exact
import LineGrammar.Proofs.Cursor.Index
import LineGrammar.Proofs.Parser.Lines
import LineGrammar.Proofs.Grammar.Unwatched
import LineGrammar.Proofs.Session.Outline
import LineGrammar.Proofs.Parser.Recording
import LineGrammar.Proofs.Expr.Leaf
import LineGrammar.Proofs.Expr.Skips
import LineGrammar.Proofs.Expr.Members
import LineGrammar.Proofs.Expr.Choice
import LineGrammar.Proofs.Session.Trace
import LineGrammar.Proofs.Parser.Turns
import LineGrammar.Proofs.Buffer.Plain
import LineGrammar.Proofs.Markup.Places
import LineGrammar.Proofs.Markup.Blocks
import LineGrammar.Proofs.Expr.Rounds
import LineGrammar.Proofs.Multiplicity.Ranges
import LineGrammar.Proofs.Multiplicity.Progression
import LineGrammar.Proofs.Text.Numeral
import LineGrammar.Proofs.Multiplicity.Notation
import LineGrammar.Proofs.Buffer.Extract
import LineGrammar.Proofs.Expr.Search
import LineGrammar.Proofs.Expr.Widening
import LineGrammar.Proofs.Parser.Stall
import LineGrammar.Proofs.Buffer.Lossless
import LineGrammar.Proofs.Buffer.Aligned
import LineGrammar.Proofs.Session.Guard
import LineGrammar.Proofs.Session.Succession
import LineGrammar.Proofs.Regex.Sequence
import LineGrammar.Proofs.Regex.Reading
import LineGrammar.Proofs.Expr.Literal
import LineGrammar.Proofs.Regex.Closing
import LineGrammar.Proofs.Regex.Escaping
import LineGrammar.Proofs.Regex.Fence
import LineGrammar.Proofs.Expr.Fenced
import LineGrammar.Proofs.Parser.Leftover
import LineGrammar.Proofs.Grammar.Arguments
import LineGrammar.Proofs.Grammar.Order
import LineGrammar.Proofs.Markup.Quotes
import LineGrammar.Proofs.Markup.Documents
import LineGrammar.Proofs.Match.Captures
import LineGrammar.Proofs.Scope.Expansion
