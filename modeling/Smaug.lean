import Smaug.Error
import Smaug.Grammar.Power
import Smaug.Grammar.Rule
import Smaug.Grammar.Table
import Smaug.Options
import Smaug.Parse.Basic
import Smaug.Parse.Expression
import Smaug.Parse.Name
import Smaug.Parse.Parsed
import Smaug.Parse.Pattern
import Smaug.Parse.Rules
import Smaug.Parse.Session
import Smaug.Parse.State
import Smaug.Parse.Statement
import Smaug.Report.Caret
import Smaug.Report.Diagnostic
import Smaug.Span
import Smaug.Text.Bytes
import Smaug.Text.Character
import Smaug.Text.Quoted
import Smaug.Token.Basic
import Smaug.Token.Kind
import Smaug.Token.Lexeme
import Smaug.Token.Reader
import Smaug.Token.Tokens
import Smaug.Tree.Basic
import Smaug.Tree.Name
import Smaug.Tree.Scope
import Smaug.Tree.Shape
import Smaug.Tree.Trivia
import Smaug.Proofs.Parse.Alike.Basic
import Smaug.Proofs.Parse.Alike.Module
import Smaug.Proofs.Parse.Alike.Renaming
import Smaug.Proofs.Parse.Alike.Rules
import Smaug.Proofs.Parse.Blame
import Smaug.Proofs.Parse.Brackets.Basic
import Smaug.Proofs.Parse.Brackets.Module
import Smaug.Proofs.Parse.Brackets.Rules
import Smaug.Proofs.Parse.Chained
import Smaug.Proofs.Parse.Credit.Basic
import Smaug.Proofs.Parse.Credit.Module
import Smaug.Proofs.Parse.Credit.Rules
import Smaug.Proofs.Parse.Cut.Basic
import Smaug.Proofs.Parse.Cut.Lookahead
import Smaug.Proofs.Parse.Cut.Module
import Smaug.Proofs.Parse.Cut.Rules
import Smaug.Proofs.Parse.Depth.Basic
import Smaug.Proofs.Parse.Depth.Levels
import Smaug.Proofs.Parse.Depth.Limit
import Smaug.Proofs.Parse.Depth.Rules
import Smaug.Proofs.Parse.Done
import Smaug.Proofs.Parse.Embed.Basic
import Smaug.Proofs.Parse.Embed.Lookahead
import Smaug.Proofs.Parse.Embed.Module
import Smaug.Proofs.Parse.Embed.Rules
import Smaug.Proofs.Parse.Embed.Statements
import Smaug.Proofs.Parse.Expected.Basic
import Smaug.Proofs.Parse.Expected.Lists
import Smaug.Proofs.Parse.Expected.Lookahead
import Smaug.Proofs.Parse.Expected.Module
import Smaug.Proofs.Parse.Expected.Rules
import Smaug.Proofs.Parse.Expected.Wants
import Smaug.Proofs.Parse.Extent
import Smaug.Proofs.Parse.Forest
import Smaug.Proofs.Parse.Grouping
import Smaug.Proofs.Parse.Integer
import Smaug.Proofs.Parse.Kept
import Smaug.Proofs.Parse.Layout
import Smaug.Proofs.Parse.Listed
import Smaug.Proofs.Parse.Lossless
import Smaug.Proofs.Parse.Modes
import Smaug.Proofs.Parse.Moments
import Smaug.Proofs.Parse.Nesting
import Smaug.Proofs.Parse.Passing
import Smaug.Proofs.Parse.Production
import Smaug.Proofs.Parse.Reached
import Smaug.Proofs.Parse.Reading
import Smaug.Proofs.Parse.Recovery
import Smaug.Proofs.Parse.Resumed
import Smaug.Proofs.Parse.Rewind
import Smaug.Proofs.Parse.Script
import Smaug.Proofs.Parse.Session
import Smaug.Proofs.Parse.Settled.Basic
import Smaug.Proofs.Parse.Settled.Rules
import Smaug.Proofs.Parse.Sorts
import Smaug.Proofs.Parse.Spans
import Smaug.Proofs.Parse.Stages
import Smaug.Proofs.Parse.Success
import Smaug.Proofs.Parse.Termination
import Smaug.Proofs.Parse.Trim.Basic
import Smaug.Proofs.Parse.Trim.Module
import Smaug.Proofs.Parse.Trim.Rules
import Smaug.Proofs.Parse.Turns
import Smaug.Proofs.Parse.Types
import Smaug.Proofs.Parse.Wrapped
import Smaug.Proofs.Report.Caret
import Smaug.Proofs.Report.Column
import Smaug.Proofs.Text.Place
import Smaug.Proofs.Token.Blank
import Smaug.Proofs.Token.Boundary
import Smaug.Proofs.Token.Cut
import Smaug.Proofs.Token.File
import Smaug.Proofs.Token.Joined
import Smaug.Proofs.Token.Limits
import Smaug.Proofs.Token.Lines
import Smaug.Proofs.Token.Literal
import Smaug.Proofs.Token.Modes
import Smaug.Proofs.Token.Numeral
import Smaug.Proofs.Token.Order
import Smaug.Proofs.Token.Regions
import Smaug.Proofs.Token.Spaced
import Smaug.Proofs.Token.Width
import Smaug.Proofs.Tree.Bindings
import Smaug.Proofs.Tree.Ending
import Smaug.Proofs.Tree.Nesting
import Smaug.Proofs.Tree.OperatorChain
import Smaug.Proofs.Tree.Parts
import Smaug.Proofs.Tree.PostOrder
import Smaug.Proofs.Tree.Power
import Smaug.Proofs.Tree.PreOrder
import Smaug.Proofs.Tree.Renumbered
import Smaug.Proofs.Tree.Shift
import Smaug.Proofs.Tree.Slots
import Smaug.Proofs.Tree.Within
import Smaug.Proofs.Tree.Written
