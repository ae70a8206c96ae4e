import Binisaya.Main
import Binisaya.Proofs.CommandLine.Interleaving
import Binisaya.Proofs.Grammar.Viable
import Binisaya.Proofs.Lexing.Layout
import Binisaya.Proofs.Lowering.Dominance
import Binisaya.Proofs.Lowering.Soundness
import Binisaya.Proofs.Rendering.Output
import Binisaya.Proofs.Respelling.Lowering
import Binisaya.Proofs.Scoping.History
import Binisaya.Proofs.Simulation.Comparison
import Binisaya.Proofs.Stages
import Binisaya.Proofs.Typing.Restoration
import Binisaya.Proofs.Typing.Undeclared
import Binisaya.Proofs.Lexing.Lines
import Binisaya.Proofs.Lexing.States
import Binisaya.Proofs.Grammar.Concatenation
import Binisaya.Proofs.Rendering.Values
import Binisaya.Proofs.Grammar.Literals
import Binisaya.Proofs.Lowering.Globals
import Binisaya.Proofs.Rendering.Generator
import Binisaya.Proofs.Rendering.Braceless
import Binisaya.Proofs.Rendering.Braces
import Binisaya.Proofs.Grammar.Replacement
import Binisaya.Proofs.Lowering.IntegerStops
import Binisaya.Proofs.Integers
import Binisaya.Proofs.Grammar.Resumption
