import EvmAtlas.Main
import EvmAtlas.Session
import EvmAtlas.Proofs.Soundness
import EvmAtlas.Proofs.Termination
import EvmAtlas.Proofs.Widening
import EvmAtlas.Proofs.Reachability
import EvmAtlas.Proofs.Layout
import EvmAtlas.Proofs.Skipping
import EvmAtlas.Proofs.Confinement
import EvmAtlas.Proofs.Regions
import EvmAtlas.Proofs.Course
import EvmAtlas.Proofs.Gas
import EvmAtlas.Proofs.Metering
import EvmAtlas.Proofs.Bounds
import EvmAtlas.Proofs.Retention
import EvmAtlas.Proofs.Lockstep
import EvmAtlas.Proofs.Supply
import EvmAtlas.Proofs.Path
import EvmAtlas.Proofs.Reuse
import EvmAtlas.Proofs.Isolation
import EvmAtlas.Proofs.StaticCalls
import EvmAtlas.Proofs.Layering
import EvmAtlas.Proofs.Caching
import EvmAtlas.Proofs.Overlaying
import EvmAtlas.Proofs.Hexadecimal
import EvmAtlas.Proofs.JsonText
import EvmAtlas.Proofs.SavedSets
import EvmAtlas.Proofs.Alignment
import EvmAtlas.Proofs.Agreement
import EvmAtlas.Proofs.Recency
import EvmAtlas.Proofs.Saving
import EvmAtlas.Proofs.Retrying
import EvmAtlas.Proofs.Disassembly
import EvmAtlas.Proofs.Failure
import EvmAtlas.Proofs.Arithmetic
import EvmAtlas.Proofs.Lives
import EvmAtlas.Proofs.Copies
import EvmAtlas.Proofs.Depth
import EvmAtlas.Proofs.Padding
import EvmAtlas.Proofs.Heights
import EvmAtlas.Proofs.Drawing
import EvmAtlas.Proofs.StraightRuns
import EvmAtlas.Proofs.HexGrammar
import EvmAtlas.Proofs.Monotonicity
import EvmAtlas.Proofs.Marks
import EvmAtlas.Proofs.Sizing
