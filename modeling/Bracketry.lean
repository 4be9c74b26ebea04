import Bracketry.Main
import Bracketry.CommandLine.World
import Bracketry.Eval.Trace
import Bracketry.Proofs.Safety
import Bracketry.Proofs.CProgram.Direct
import Bracketry.Proofs.CProgram.Layout
import Bracketry.Proofs.CProgram.ReadBack
import Bracketry.Proofs.CProgram.Steady
import Bracketry.Proofs.Loading
import Bracketry.Proofs.Lockstep
import Bracketry.Proofs.Source.Rendering
import Bracketry.Proofs.WellNested
import Bracketry.Proofs.Program.Acceptance
import Bracketry.Proofs.Program.Edits
import Bracketry.Proofs.Bookkeeping
import Bracketry.Proofs.Lookup
import Bracketry.Proofs.Concatenation
import Bracketry.Proofs.Machine.Twins
import Bracketry.Proofs.Machine.Widening
import Bracketry.Proofs.Machine.CallDepth
import Bracketry.Proofs.Machine.Flushing
import Bracketry.Proofs.Machine.Sessions
import Bracketry.Proofs.Machine.Vocabulary
import Bracketry.Proofs.Machine.Inlining
import Bracketry.Proofs.Machine.Respects
import Bracketry.Proofs.Machine.Guards
import Bracketry.Proofs.Machine.Interruptions
import Bracketry.Proofs.Machine.Padding
import Bracketry.Proofs.Printing
import Bracketry.Proofs.Provenance
import Bracketry.Proofs.CProgram.Blocks
import Bracketry.Proofs.Splitting
import Bracketry.Proofs.Program.InPlace
import Bracketry.Proofs.Machine.Refusals
import Bracketry.Proofs.Json.Reading
import Bracketry.Proofs.Program.Repeated
import Bracketry.Proofs.CommandLine.Preparation
