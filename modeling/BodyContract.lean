import BodyContract.Assertion.Asserter
import BodyContract.Assertion.Error
import BodyContract.Assertion.Literal
import BodyContract.Automaton.Basic
import BodyContract.Automaton.Graph
import BodyContract.Automaton.Reach
import BodyContract.Automaton.Subsets
import BodyContract.Chain.Basic
import BodyContract.Chain.OfBody
import BodyContract.CharSet
import BodyContract.CommandLine.Command
import BodyContract.CommandLine.Options
import BodyContract.CommandLine.Run
import BodyContract.Error
import BodyContract.Json.Basic
import BodyContract.Json.Decoding
import BodyContract.Json.Location
import BodyContract.Json.Printer
import BodyContract.Json.Reader
import BodyContract.Json.Shape
import BodyContract.Logging
import BodyContract.Main
import BodyContract.Matcher.Basic
import BodyContract.Matcher.Condition
import BodyContract.Matcher.Removal
import BodyContract.Number.Binary
import BodyContract.Number.Numeral
import BodyContract.Number.Power
import BodyContract.Number.Shortest
import BodyContract.Number.Text
import BodyContract.Path.Basic
import BodyContract.Path.Evaluation
import BodyContract.Path.Parser
import BodyContract.Pattern.Basic
import BodyContract.Pattern.Parser
import BodyContract.Placeholder.Basic
import BodyContract.Placeholder.Predefined
import BodyContract.Recording.Call
import BodyContract.Recording.JavaLiteral
import BodyContract.Recording.Operation
import BodyContract.Recording.Recorder
import BodyContract.Regex.Basic
import BodyContract.Regex.Category
import BodyContract.Regex.Folding
import BodyContract.Regex.Match
import BodyContract.Regex.Parser
import BodyContract.Regex.Property
import BodyContract.Regex.Script
import BodyContract.Sampling.Sampler
import BodyContract.Sampling.Source
import BodyContract.Settings.Basic
import BodyContract.Settings.Document
import BodyContract.Settings.File
import BodyContract.Settings.Variable
import BodyContract.Source.BodyCheck
import BodyContract.Source.Indented
import BodyContract.Text.Cursor
import BodyContract.Text.LetterCase
import BodyContract.Text.Search
import BodyContract.Text.Visible
import BodyContract.Toml.Reader
import BodyContract.Toml.Table
import BodyContract.Verification
import BodyContract.Proofs.Automaton.Language
import BodyContract.Proofs.Pattern.Solidity
import BodyContract.Proofs.Automaton.Characters
import BodyContract.Proofs.Automaton.Reachability
import BodyContract.Proofs.Automaton.Spelling
import BodyContract.Proofs.Automaton.Thompson
import BodyContract.Proofs.Automaton.Adjacency
import BodyContract.Proofs.Automaton.Stretches
import BodyContract.Proofs.Automaton.SubsetConstruction
import BodyContract.Proofs.Automaton.Construction
import BodyContract.Proofs.Automaton.Liveness
import BodyContract.Proofs.Sampling.Outcomes
import BodyContract.Proofs.Numerals
import BodyContract.Proofs.Path.Lexical
import BodyContract.Proofs.Path.Literals
import BodyContract.Proofs.Path.Hop
import BodyContract.Proofs.Path.Selection
import BodyContract.Proofs.Path.Readability
import BodyContract.Proofs.Number.Values
import BodyContract.Proofs.Recording.Navigation
import BodyContract.Proofs.Recording.Checks
import BodyContract.Proofs.Chain.Plain
import BodyContract.Proofs.Chain.Walk
import BodyContract.Proofs.Chain.Scalars
import BodyContract.Proofs.Chain.Ordered
import BodyContract.Proofs.Chain.Aims
import BodyContract.Proofs.Chain.Shallow
import BodyContract.Proofs.Chain.Unordered
import BodyContract.Proofs.Recording.Methods
import BodyContract.Proofs.Chain.Branched
import BodyContract.Proofs.Recording.Replay
import BodyContract.Proofs.Chain.Monotone
import BodyContract.Proofs.Recording.Literals
import BodyContract.Proofs.Number.Canonical
import BodyContract.Proofs.Number.Shortest
import BodyContract.Proofs.Number.Decimal
import BodyContract.Proofs.Recording.Marks
import BodyContract.Proofs.Chain.Steps
import BodyContract.Proofs.Json.Canonical
import BodyContract.Proofs.Chain.Spelling
import BodyContract.Proofs.Chain.Branching
import BodyContract.Proofs.Chain.Deduplication
import BodyContract.Proofs.Chain.Demands
import BodyContract.Proofs.Chain.SimpleArrays
import BodyContract.Proofs.Json.Without
import BodyContract.Proofs.Json.Removal
import BodyContract.Proofs.Json.Scalars
import BodyContract.Proofs.Path.Paces
import BodyContract.Proofs.Path.Places
import BodyContract.Proofs.Path.Steady
import BodyContract.Proofs.Matcher.Pruning
import BodyContract.Proofs.Matcher.Coverage
import BodyContract.Proofs.Matcher.Weakening
import BodyContract.Proofs.Matcher.Trailing
import BodyContract.Proofs.Matcher.Emptied
import BodyContract.Proofs.Path.Continuation
import BodyContract.Proofs.Path.Matching
import BodyContract.Proofs.Matcher.Conversion
import BodyContract.Proofs.Path.Pieces
import BodyContract.Proofs.Assertion.Trail
import BodyContract.Proofs.Assertion.Following
import BodyContract.Proofs.Pattern.Shorthands
import BodyContract.Proofs.Pattern.Expansion
import BodyContract.Proofs.Recording.JavaSource
import BodyContract.Proofs.Recording.Quoting
import BodyContract.Proofs.Recording.Readback
import BodyContract.Proofs.Pattern.Literal
import BodyContract.Proofs.Regex.Literal
import BodyContract.Proofs.Recording.Matching
import BodyContract.Proofs.Sampling.Seeded
import BodyContract.Proofs.Placeholder.Generation
import BodyContract.Proofs.Chain.Unmarked
import BodyContract.Proofs.Chain.Markers
import BodyContract.Proofs.Pattern.Continuation
import BodyContract.Proofs.Pattern.Composition
import BodyContract.Proofs.Assertion.Literals
import BodyContract.Proofs.Path.Deletion
import BodyContract.Proofs.Path.Wrapping
import BodyContract.Proofs.Recording.Names
import BodyContract.Proofs.Path.Brackets
import BodyContract.Proofs.Path.Comparing
import BodyContract.Proofs.Matcher.Slashes
import BodyContract.Proofs.Assertion.Matching
import BodyContract.Proofs.Matcher.Agreement
import BodyContract.Proofs.Matcher.Termination
import BodyContract.Proofs.Path.Quotes
import BodyContract.Proofs.Matcher.Equality
import BodyContract.Proofs.Json.Entries
import BodyContract.Proofs.Json.Order
import BodyContract.Proofs.Path.Reading
import BodyContract.Proofs.Path.Descent
import BodyContract.Proofs.Path.Order
import BodyContract.Proofs.CharSet.Spacing
import BodyContract.Proofs.CharSet.Algebra
import BodyContract.Proofs.Automaton.Exploration
import BodyContract.Proofs.Automaton.Trim
import BodyContract.Proofs.Automaton.Limits
import BodyContract.Proofs.Path.Connectives
import BodyContract.Proofs.Recording.Escapes
import BodyContract.Proofs.Pattern.Classes
import BodyContract.Proofs.Text.Search
import BodyContract.Proofs.Recording.Questions
import BodyContract.Proofs.Path.Sizes
import BodyContract.Proofs.Matcher.Sizes
import BodyContract.Proofs.Settings.Variables
import BodyContract.Proofs.Source.Terminator
