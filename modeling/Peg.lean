import Peg.Arithmetic.Grammar
import Peg.Arithmetic.Number
import Peg.Binary64
import Peg.Derivation
import Peg.Derivation.Reading
import Peg.Engine.Cursor
import Peg.Engine.Limits
import Peg.Engine.Run
import Peg.Engine.Session
import Peg.Engine.State
import Peg.Engine.Tape
import Peg.Expr
import Peg.Extension
import Peg.Grammar.Basic
import Peg.Grammar.Build
import Peg.Grammar.Draft
import Peg.Grammar.Error
import Peg.Grammar.Lowering
import Peg.Json.Document
import Peg.Json.Grammar
import Peg.Json.Number
import Peg.Json.Text
import Peg.Log
import Peg.Match.Basic
import Peg.Match.Printed
import Peg.Match.Query
import Peg.Match.Reading
import Peg.Match.View
import Peg.Member
import Peg.Parse.Basic
import Peg.Parse.Error
import Peg.Parse.Options
import Peg.Proofs.Engine.Later
import Peg.Proofs.Engine.Step
import Peg.Proofs.Grammar.Built
import Peg.Proofs.Grammar.Nodes
import Peg.Proofs.Grammar.Layout
import Peg.Proofs.Rule.Matching
import Peg.Proofs.Semantics.Basic
import Peg.Proofs.Text.Place
import Peg.Regex.Automaton
import Peg.Regex.Basic
import Peg.Regex.CharSet
import Peg.Regex.Look
import Peg.Regex.Pattern
import Peg.Regex.Pattern.Class
import Peg.Regex.Pattern.Escape
import Peg.Regex.Pattern.Flags
import Peg.Regex.Search
import Peg.Regex.Size
import Peg.Rule
import Peg.Text.Outline
import Peg.Text.Place
import Peg.Text.Position
import Peg.Text.Quoted
import Peg.Unicode.Age
import Peg.Unicode.Boundary
import Peg.Unicode.Bytes
import Peg.Unicode.Case
import Peg.Unicode.Category
import Peg.Unicode.Class
import Peg.Unicode.Printable
import Peg.Unicode.Property
import Peg.Unicode.Ranges
import Peg.Unicode.Script
import Peg.Unicode.Word
import Peg.Value
import Peg.Proofs.Semantics.Soundness
import Peg.Proofs.Semantics.Completeness
import Peg.Proofs.Semantics.Adequacy
import Peg.Proofs.Session.Basic
import Peg.Proofs.Parse.Basic
import Peg.Proofs.Session.Replay
import Peg.Proofs.Engine.Lockstep
import Peg.Proofs.Parse.Limits
import Peg.Proofs.Parse.Test
import Peg.Proofs.Engine.Tape
import Peg.Proofs.Session.Reset
import Peg.Proofs.Session.Tape
import Peg.Proofs.Semantics.Derives
import Peg.Proofs.Semantics.Matches
import Peg.Proofs.Session.Written
import Peg.Proofs.Session.Abandoned
import Peg.Proofs.Match.View
import Peg.Proofs.Match.Reading
import Peg.Proofs.Parse.Derived
import Peg.Proofs.Match.Tiles
import Peg.Proofs.Grammar.Scope
import Peg.Proofs.Engine.Tally
import Peg.Proofs.Engine.Scans
import Peg.Proofs.Engine.Moments
import Peg.Proofs.Engine.Counters
import Peg.Proofs.Engine.Charges
import Peg.Proofs.Session.Charges
import Peg.Proofs.Semantics.Packrat
import Peg.Proofs.Session.Packrat
import Peg.Proofs.Text.Position
import Peg.Proofs.Text.Checked
import Peg.Proofs.Grammar.Target
import Peg.Proofs.Engine.Machine
import Peg.Proofs.Semantics.Machine
import Peg.Proofs.Session.Machine
import Peg.Proofs.Parse.Report
import Peg.Proofs.Parse.Caret
import Peg.Proofs.Match.Checked
import Peg.Proofs.Match.Walk
import Peg.Proofs.Match.Paths
import Peg.Proofs.Match.Queries
import Peg.Proofs.Match.Same
import Peg.Proofs.Parse.Machine
import Peg.Proofs.Engine.Furthest
import Peg.Proofs.Semantics.Reach
import Peg.Proofs.Parse.Furthest
import Peg.Proofs.Semantics.Refusal
import Peg.Proofs.Parse.Refusal
import Peg.Proofs.Engine.Shift
import Peg.Proofs.Parse.Shift
import Peg.Proofs.Grammar.Faults
import Peg.Proofs.Grammar.Accepted
import Peg.Proofs.Grammar.Resolution
import Peg.Proofs.Parse.Names
import Peg.Proofs.Extension
import Peg.Proofs.Grammar.Readback
import Peg.Proofs.Engine.Translate
import Peg.Proofs.Grammar.Address
import Peg.Proofs.Grammar.Reorder
import Peg.Proofs.Parse.Reorder
import Peg.Proofs.Grammar.Implements
import Peg.Proofs.Match.Members
import Peg.Proofs.Semantics.Reads
import Peg.Proofs.Semantics.Languages
import Peg.Proofs.Semantics.Depth
import Peg.Proofs.Parse.Meaning
import Peg.Proofs.Regex.Longest
import Peg.Proofs.Regex.Token
import Peg.Proofs.Semantics.Lexemes
import Peg.Proofs.Arithmetic.Numeral
import Peg.Proofs.Arithmetic.Syntax
import Peg.Proofs.Arithmetic.Nesting
import Peg.Proofs.Arithmetic.Evaluation
import Peg.Proofs.Arithmetic.Exact
import Peg.Proofs.Value
import Peg.Proofs.Json.Token
import Peg.Proofs.Json.Syntax
import Peg.Proofs.Json.Tree
import Peg.Proofs.Json.Nesting
import Peg.Proofs.Json.Evaluation
import Peg.Proofs.Json.Escapes
import Peg.Proofs.Json.Literals
import Peg.Proofs.Json.Faithful
import Peg.Proofs.Grammar.Context
import Peg.Proofs.Grammar.Counterparts
import Peg.Proofs.Grammar.Replacement
import Peg.Proofs.Semantics.Congruence
import Peg.Proofs.Semantics.Laws
import Peg.Proofs.Semantics.Unfolding
import Peg.Proofs.Semantics.Wrappers
import Peg.Proofs.Parse.Wrappers
import Peg.Proofs.Regex.Groups
import Peg.Proofs.Regex.Matches
import Peg.Proofs.Regex.Paths
import Peg.Proofs.Regex.Construction
import Peg.Proofs.Regex.Reached
import Peg.Proofs.Regex.Searching
import Peg.Proofs.Regex.Closed
import Peg.Proofs.Regex.Agreement
import Peg.Proofs.Regex.Engine
import Peg.Proofs.Regex.Anchored
import Peg.Proofs.Json.Printed
import Peg.Proofs.Match.Encoded
import Peg.Proofs.Grammar.Attached
import Peg.Proofs.Grammar.Written
import Peg.Proofs.Match.Composed
