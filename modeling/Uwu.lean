import Uwu.Main
import Uwu.Proofs.Lexeme.Tiling
import Uwu.Proofs.Lexeme.ClassNames
import Uwu.Proofs.Lexeme.Balance
import Uwu.Proofs.Grammar.Recovery
import Uwu.Proofs.Grammar.RoundTrip
import Uwu.Proofs.Grammar.Interpolation
import Uwu.Proofs.Grammar.SourceOrder
import Uwu.Proofs.Grammar.Heads
import Uwu.Proofs.Grammar.Accepted
import Uwu.Proofs.Grammar.Onsets
import Uwu.Proofs.Grammar.Ending
import Uwu.Proofs.Scope.Sites
import Uwu.Proofs.Scope.Agreement
import Uwu.Proofs.Scope.Meanings
import Uwu.Proofs.Scope.ClassTypes
import Uwu.Proofs.Typing.Constants
import Uwu.Proofs.Typing.Signatures
import Uwu.Proofs.Typing.Links
import Uwu.Proofs.Typing.Visits
import Uwu.Proofs.Typing.Calls
import Uwu.Proofs.Typing.Cascade
import Uwu.Proofs.Typing.Order
import Uwu.Proofs.Typing.Arrays
import Uwu.Proofs.Typing.Annotations
import Uwu.Proofs.Typing.Histories
import Uwu.Proofs.Typing.Silence
import Uwu.Proofs.Renumbering.Contexts
import Uwu.Proofs.Renumbering.Interning
import Uwu.Proofs.Renumbering.Rereading
import Uwu.Proofs.Grammar.Isolation
import Uwu.Proofs.Places.Mistakes
import Uwu.Proofs.Places.Containment
import Uwu.Proofs.Scope.GlobalTable
import Uwu.Proofs.Spacing.Layout
import Uwu.Proofs.Lexeme.Indices
import Uwu.Proofs.Source.Search
import Uwu.Proofs.Lexeme.Segments
import Uwu.Proofs.Grammar.ItemNames
import Uwu.Proofs.Typing.Members
