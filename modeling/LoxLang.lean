import LoxLang.Main
import LoxLang.Syntax.Source
import LoxLang.Proofs.Outcome
import LoxLang.Proofs.Syntax.Ahead
import LoxLang.Proofs.Syntax.Grammar
import LoxLang.Proofs.Syntax.Passage
import LoxLang.Proofs.Syntax.Derivation
import LoxLang.Proofs.Syntax.StatementDerivation
import LoxLang.Proofs.Syntax.Starts
import LoxLang.Proofs.Syntax.Arrival
import LoxLang.Proofs.Syntax.Completeness
import LoxLang.Proofs.Syntax.StatementCompleteness
import LoxLang.Proofs.Syntax.Recognition
import LoxLang.Proofs.Number.Scale
import LoxLang.Proofs.Number.Shortest
import LoxLang.Proofs.Number.Numeral
import LoxLang.Proofs.Number.Bits
import LoxLang.Proofs.Token.Spelling
import LoxLang.Proofs.Token.Genuine
import LoxLang.Proofs.Printing.Bare
import LoxLang.Proofs.Printing.Writing
import LoxLang.Proofs.Printing.Expression
import LoxLang.Proofs.Printing.Statement
import LoxLang.Proofs.Printing.RoundTrip
import LoxLang.Proofs.Lexical.Reference
import LoxLang.Proofs.Lexical.World
import LoxLang.Proofs.Lexical.State
import LoxLang.Proofs.Lexical.Steps
import LoxLang.Proofs.Lexical.Functions
import LoxLang.Proofs.Lexical.Simulation
import LoxLang.Proofs.Lexical.Sessions
import LoxLang.Proofs.Syntax.Place
import LoxLang.Proofs.Traced.Evaluation
import LoxLang.Proofs.Scope.Relabel
import LoxLang.Proofs.Traced.Related
import LoxLang.Proofs.Traced.Steps
import LoxLang.Proofs.Traced.Simulation
import LoxLang.Proofs.Syntax.Renaming
import LoxLang.Proofs.Session.Analysis
import LoxLang.Proofs.Session.Inputs
import LoxLang.Proofs.Traced.Sessions
import LoxLang.Proofs.Session.Rejection
import LoxLang.Proofs.Session.Reprint
import LoxLang.Proofs.Traced.Nesting
import LoxLang.Proofs.Traced.Keeping
import LoxLang.Proofs.Traced.Soundness
import LoxLang.Proofs.Traced.Reached
import LoxLang.Proofs.Traced.Initializers
import LoxLang.Proofs.Session.Joining
import LoxLang.Proofs.Traced.Bounds
import LoxLang.Proofs.Traced.Splitting
import LoxLang.Proofs.Token.Pattern
import LoxLang.Proofs.Token.Munch
import LoxLang.Proofs.Token.Cutting
import LoxLang.Proofs.Token.Slices
import LoxLang.Proofs.Syntax.Tape
import LoxLang.Proofs.Syntax.TapeReading
import LoxLang.Proofs.Syntax.Lawful
import LoxLang.Proofs.Machine.Stops
import LoxLang.Proofs.Machine.Activity
import LoxLang.Proofs.Machine.Moments
import LoxLang.Proofs.Lexical.Bounds
import LoxLang.Proofs.Lexical.Entering
import LoxLang.Proofs.Lexical.Loops
import LoxLang.Proofs.Lexical.Moments
import LoxLang.Proofs.Lexical.Desugaring
import LoxLang.Proofs.Machine.Depth
import LoxLang.Proofs.Machine.Returns
import LoxLang.Proofs.Session.Safety
import LoxLang.Proofs.Syntax.Order
import LoxLang.Proofs.Syntax.Keywords
import LoxLang.Proofs.Syntax.Recovery
import LoxLang.Proofs.Scope.Declared
import LoxLang.Proofs.Scope.Faults
import LoxLang.Proofs.Scope.Analysis
import LoxLang.Proofs.Diagnostic.Counts
import LoxLang.Proofs.Session.Story
import LoxLang.Proofs.Syntax.Composition
import LoxLang.Proofs.Syntax.Locality
import LoxLang.Proofs.Syntax.Appending
import LoxLang.Proofs.Syntax.Isolation
import LoxLang.Proofs.Syntax.Charge
import LoxLang.Proofs.Session.Numbering
import LoxLang.Proofs.Machine.Chains
import LoxLang.Proofs.Machine.Growth
import LoxLang.Proofs.Machine.Links
import LoxLang.Proofs.Machine.Declarations
import LoxLang.Proofs.Diagnostic.Caret
import LoxLang.Proofs.Number.Overflow
import LoxLang.Proofs.Printing.Literals
import LoxLang.Proofs.Session.Offenders
import LoxLang.Proofs.Session.Pointing
import LoxLang.Proofs.Token.Placement
import LoxLang.Proofs.Printing.Spacing
import LoxLang.Proofs.Syntax.MadeOf
import LoxLang.Proofs.Syntax.Redundancy
import LoxLang.Proofs.Printing.Phrase
import LoxLang.Proofs.Printing.Decoding
