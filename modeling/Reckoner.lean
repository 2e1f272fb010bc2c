import Reckoner.Bindings
import Reckoner.Command.Arguments
import Reckoner.Command.Perform
import Reckoner.Config.Basic
import Reckoner.Config.Bcl
import Reckoner.Config.Decode
import Reckoner.Config.Load
import Reckoner.Document
import Reckoner.Duration
import Reckoner.Environment
import Reckoner.Eval
import Reckoner.Expr.Basic
import Reckoner.Expr.Parser
import Reckoner.Expr.Printer
import Reckoner.Fault
import Reckoner.Files
import Reckoner.History.Entry
import Reckoner.History.File
import Reckoner.Json.Basic
import Reckoner.Json.Printer
import Reckoner.Json.Reader
import Reckoner.Main
import Reckoner.Number.Basic
import Reckoner.Number.Binary
import Reckoner.Number.Decimal
import Reckoner.Number.Layout
import Reckoner.Number.Power
import Reckoner.Number.Reading
import Reckoner.Number.Shortest
import Reckoner.Number.Word
import Reckoner.Position
import Reckoner.Proofs.Branches
import Reckoner.Proofs.Characters
import Reckoner.Proofs.Comparison
import Reckoner.Proofs.Files
import Reckoner.Proofs.Finishing
import Reckoner.Proofs.Frame
import Reckoner.Proofs.Globals.Conversion
import Reckoner.Proofs.Globals.Names
import Reckoner.Proofs.Grammar
import Reckoner.Proofs.History.Appends
import Reckoner.Proofs.History.Arrays
import Reckoner.Proofs.History.Content
import Reckoner.Proofs.Joining
import Reckoner.Proofs.Json.Machine
import Reckoner.Proofs.Json.Texts
import Reckoner.Proofs.Layout.Below
import Reckoner.Proofs.Layout.Running
import Reckoner.Proofs.Layout.Scanning
import Reckoner.Proofs.Lexeme
import Reckoner.Proofs.LexicalFaults
import Reckoner.Proofs.LoopLimit
import Reckoner.Proofs.Noninterference
import Reckoner.Proofs.NotStuck
import Reckoner.Proofs.Numeral
import Reckoner.Proofs.Operations
import Reckoner.Proofs.Parser.Completeness
import Reckoner.Proofs.Parser.Cursor
import Reckoner.Proofs.Parser.Faults
import Reckoner.Proofs.Parser.FirstFault
import Reckoner.Proofs.Parser.Following
import Reckoner.Proofs.Parser.Language
import Reckoner.Proofs.Parser.Lookahead
import Reckoner.Proofs.Parser.Nesting
import Reckoner.Proofs.Parser.Plain
import Reckoner.Proofs.Parser.Productions
import Reckoner.Proofs.Parser.Progress
import Reckoner.Proofs.Parser.Prospects
import Reckoner.Proofs.Parser.Soundness
import Reckoner.Proofs.Parser.Towers
import Reckoner.Proofs.Parser.Tracking
import Reckoner.Proofs.Places
import Reckoner.Proofs.Positions
import Reckoner.Proofs.Powers
import Reckoner.Proofs.Printing
import Reckoner.Proofs.Reading
import Reckoner.Proofs.Regular
import Reckoner.Proofs.Requests
import Reckoner.Proofs.Rereading
import Reckoner.Proofs.RoundTrip
import Reckoner.Proofs.Scopes.Arena
import Reckoner.Proofs.Scopes.Balanced
import Reckoner.Proofs.Scopes.Invariant
import Reckoner.Proofs.Scopes.Operations
import Reckoner.Proofs.Selection
import Reckoner.Proofs.Sessions
import Reckoner.Proofs.Splitting
import Reckoner.Proofs.Statements
import Reckoner.Proofs.Timestamps
import Reckoner.Proofs.Transcript
import Reckoner.Proofs.Unplaced
import Reckoner.Proofs.Utf8
import Reckoner.Proofs.Words
import Reckoner.Proofs.Written
import Reckoner.Repl.Dialogue
import Reckoner.Repl.Input
import Reckoner.Service.Address
import Reckoner.Service.Answer
import Reckoner.Service.Handler
import Reckoner.Service.Request
import Reckoner.Session
import Reckoner.Text.Blank
import Reckoner.Text.Letter
import Reckoner.Text.Lines
import Reckoner.Text.LowerCase
import Reckoner.Text.Markup
import Reckoner.Text.Printable
import Reckoner.Text.Quoted
import Reckoner.Text.Ranges
import Reckoner.Text.Utf8
import Reckoner.Timestamp
import Reckoner.Token.Basic
import Reckoner.Token.Lexer
import Reckoner.Value
import Reckoner.Yaml.Basic
import Reckoner.Yaml.Reader
import Reckoner.Yaml.Scalar
