import ParserGenerator.Lexical.Matcher
import ParserGenerator.Main
import ParserGenerator.Pattern.Display
import ParserGenerator.Proofs.Ascending
import ParserGenerator.Proofs.CharSet
import ParserGenerator.Proofs.CharacterData
import ParserGenerator.Proofs.Families
import ParserGenerator.Proofs.Fixpoint
import ParserGenerator.Proofs.Grammar.Declaring
import ParserGenerator.Proofs.Grammar.Language
import ParserGenerator.Proofs.Grammar.Terminals
import ParserGenerator.Proofs.Lexemes
import ParserGenerator.Proofs.Lexical.Branches
import ParserGenerator.Proofs.Lexical.Bridges
import ParserGenerator.Proofs.Lexical.Characters
import ParserGenerator.Proofs.Lexical.Compiling
import ParserGenerator.Proofs.Lexical.Construction
import ParserGenerator.Proofs.Lexical.Fragments
import ParserGenerator.Proofs.Lexical.Intervals
import ParserGenerator.Proofs.Lexical.Matching
import ParserGenerator.Proofs.Lexical.Meaning
import ParserGenerator.Proofs.Lexical.Munch
import ParserGenerator.Proofs.Lexical.Numbering
import ParserGenerator.Proofs.Lexical.Paths
import ParserGenerator.Proofs.Lexical.Surrogates
import ParserGenerator.Proofs.Lexical.Terminals
import ParserGenerator.Proofs.Lexical.Windows
import ParserGenerator.Proofs.Parse.Deciding
import ParserGenerator.Proofs.Parse.Forest
import ParserGenerator.Proofs.Parse.Safety
import ParserGenerator.Proofs.Parse.Soundness
import ParserGenerator.Proofs.Parse.Stack
import ParserGenerator.Proofs.Parse.StackMachine
import ParserGenerator.Proofs.Parse.Streaming
import ParserGenerator.Proofs.Parse.Trees
import ParserGenerator.Proofs.RangeList
import ParserGenerator.Proofs.Reach
import ParserGenerator.Proofs.Scanning
import ParserGenerator.Proofs.Stream.Delivery
import ParserGenerator.Proofs.Table.Acceptance
import ParserGenerator.Proofs.Table.Actions
import ParserGenerator.Proofs.Table.Choices
import ParserGenerator.Proofs.Table.Closure
import ParserGenerator.Proofs.Table.ConflictFree
import ParserGenerator.Proofs.Table.First
import ParserGenerator.Proofs.Table.Following
import ParserGenerator.Proofs.Table.Kernels
import ParserGenerator.Proofs.Table.Lookaheads
import ParserGenerator.Proofs.Table.Recognition
import ParserGenerator.Proofs.Table.Slots
import ParserGenerator.Proofs.Table.States
import ParserGenerator.Proofs.Table.Termination
import ParserGenerator.Proofs.Table.Viable
import ParserGenerator.Proofs.Tokenizing
import ParserGenerator.Proofs.CharSet.Algebra
import ParserGenerator.Proofs.Parse.Sentences
import ParserGenerator.Proofs.Stream.Decoding
import ParserGenerator.Proofs.Calculator.Evaluation
import ParserGenerator.Proofs.Calculator.Programs
import ParserGenerator.Proofs.Parse.LineBreaks
import ParserGenerator.Proofs.Table.Interleaving
import ParserGenerator.Proofs.Table.Overrides
import ParserGenerator.Proofs.Parse.Returning
import ParserGenerator.Proofs.Table.Conflicts
import ParserGenerator.Proofs.Parse.Recognized
import ParserGenerator.Proofs.Parse.Locations
import ParserGenerator.Proofs.Parse.Previews
import ParserGenerator.Proofs.Table.Cells
import ParserGenerator.Proofs.Grammar.Consistency
import ParserGenerator.Proofs.Lexical.LetterCase
import ParserGenerator.Proofs.Definition.RoundTrip
import ParserGenerator.Proofs.Table.Collection
import ParserGenerator.Proofs.RangeList.Canonical
import ParserGenerator.Proofs.CharSet.Descriptions
import ParserGenerator.Proofs.Pattern.Parsing
import ParserGenerator.Proofs.Stream.Histories
import ParserGenerator.Proofs.Lexical.Shapes
import ParserGenerator.Proofs.Lexical.Labels
import ParserGenerator.Proofs.Lexical.Branching
import ParserGenerator.Proofs.Lexical.Nullable
import ParserGenerator.Proofs.Table.Derivations
import ParserGenerator.Proofs.Pattern.Counting
import ParserGenerator.Proofs.Definition.Expansion
import ParserGenerator.Proofs.Lexical.Transitions
import ParserGenerator.Proofs.Lexical.Lowering
import ParserGenerator.Proofs.CategoryTables
import ParserGenerator.Proofs.Stream.Storage
import ParserGenerator.Proofs.Lexical.Spans
import ParserGenerator.Proofs.Calculator.Texts
import ParserGenerator.Proofs.Stream.ByteStorage
