import CommandGrammar.Text.Columns
import CommandGrammar.Builder
import CommandGrammar.Registry
import CommandGrammar.Trace
import CommandGrammar.Window.Grammar
import CommandGrammar.Sinks
import CommandGrammar.GrammarFile
import CommandGrammar.Main
import CommandGrammar.Proofs.Lexing
import CommandGrammar.Proofs.Parts
import CommandGrammar.Proofs.Steps
import CommandGrammar.Proofs.Validity
import CommandGrammar.Proofs.Termination
import CommandGrammar.Proofs.Safety
import CommandGrammar.Proofs.Scope
import CommandGrammar.Proofs.Language
import CommandGrammar.Proofs.Embedding
import CommandGrammar.Proofs.LetterCase
import CommandGrammar.Proofs.Recording
import CommandGrammar.Proofs.Chaining
import CommandGrammar.Proofs.Prefixes
import CommandGrammar.Proofs.Searches
import CommandGrammar.Proofs.Cutting
import CommandGrammar.Proofs.Folding
import CommandGrammar.Proofs.Sources
import CommandGrammar.Proofs.CaseBlind
import CommandGrammar.Proofs.Conventions
import CommandGrammar.Proofs.ScopePaths
import CommandGrammar.Proofs.Requests
import CommandGrammar.Proofs.Independence
import CommandGrammar.Proofs.Handling
import CommandGrammar.Proofs.Pieces
import CommandGrammar.Proofs.WindowLines
import CommandGrammar.Proofs.Blocks
import CommandGrammar.Proofs.Blanks
import CommandGrammar.Proofs.Checks
import CommandGrammar.Proofs.Assembly
import CommandGrammar.Proofs.Acceptance
import CommandGrammar.Proofs.Writing
import CommandGrammar.Proofs.Boundaries
import CommandGrammar.Proofs.CommandScope
import CommandGrammar.Proofs.Shadowing
import CommandGrammar.Proofs.Verdicts
import CommandGrammar.Proofs.Positions
import CommandGrammar.Proofs.Values
import CommandGrammar.Proofs.Limits
import CommandGrammar.Proofs.Effects
import CommandGrammar.Proofs.Diagnoses
import CommandGrammar.Proofs.CallLines
import CommandGrammar.Proofs.Building
import CommandGrammar.Proofs.Shorthand
import CommandGrammar.Proofs.Turns
import CommandGrammar.Proofs.Levels
import CommandGrammar.Proofs.Loading
import CommandGrammar.Proofs.Logging
