import Std.Data.TreeMap
import EvmAtlas.Flow.Block

/-!
# Recovered programs

The control-flow graph of a piece of code: its reachable blocks by position, each with
the destinations found for its jump.
-/

namespace EvmAtlas

/-- The control-flow graph recovered from a piece of code. -/
structure Program where
  code : Bytes
  blocks : Std.TreeMap UInt64 Block

namespace Program

def hash (program : Program) : Word :=
  keccak program.code

/-- The number of reachable blocks. -/
def size (program : Program) : Nat :=
  program.blocks.size

/-- The block at a position, if it is reachable. -/
def block? (program : Program) (pc : UInt64) : Option Block :=
  program.blocks[pc]?

/-- The positions of all reachable blocks, ascending. -/
def positions (program : Program) : List UInt64 :=
  program.blocks.keys

/-- The known successors of the block at a position. -/
def successors (program : Program) (pc : UInt64) : List UInt64 :=
  match program.block? pc with
  | some block => block.successors
  | none => []

end Program

end EvmAtlas
