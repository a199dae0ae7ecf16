import EvmAtlas.Flow.Block
import EvmAtlas.Flow.SymStack

/-!
# Block transfer

Running a block on an abstract stack gives the positions that control reaches and the
stacks it arrives with. A destination that the stack fixes is recorded on the jump that
ends the block.
-/

namespace EvmAtlas

/-- A position reached from a block, with the stack on arrival. -/
structure Successor where
  pc : UInt64
  stack : SymStack
  /-- Whether the position was taken from the stack, so that it has to be a jump
  destination. -/
  jumped : Bool
  deriving DecidableEq, Repr

/-- Apply instructions one after the other, up to the first that fails. -/
def applyAll : List Instruction → SymStack → Except Fault SymStack
  | [], stack => .ok stack
  | instruction :: rest, stack =>
      match instruction.apply stack with
      | (next, .ok ()) => applyAll rest next
      | (_, .error fault) => .error (fault.within (.position instruction.pc))

namespace Block

/-- A destination on the stack at or above this bound lies outside every program. -/
def destinationBound : Nat := 0x100000000

/-- The destination that a stack fixes for a jump. -/
def destination (pc : UInt64) (opcode : Opcode) : SymStack → Except Fault UInt64
  | [] => .error ⟨[.position pc, .emptyStack opcode], .stackUnderflow⟩
  | none :: _ => .error (.met (.position pc) .controlFlowEscaped)
  | some word :: _ =>
      if word.toNat < destinationBound then .ok word.low64
      else .error ⟨[.position pc, .destination word], .invalidJump⟩

/-- Resolve the jump that ends a block: record its destination, then take its operands
from the stack. -/
def takeJump (block : Block) (opcode : Opcode) (stack : SymStack) :
    Block × Except Fault (UInt64 × SymStack) :=
  match destination block.final.pc opcode stack with
  | .error fault => (block, .error fault)
  | .ok found =>
      let recorded := block.addDestination found
      match recorded.final.apply stack with
      | (rest, .ok ()) => (recorded, .ok (found, rest))
      | (_, .error fault) =>
          (recorded, .error (fault.within (.position block.final.pc)))

/-- Run a block on an abstract stack. Halting instructions end the path without being
applied. -/
def transfer (block : Block) (stack : SymStack) : Block × Except Fault (List Successor) :=
  match applyAll block.body stack with
  | .error fault => (block, .error fault)
  | .ok reached =>
      match block.final.action with
      | .jump _ =>
          match block.takeJump .jump reached with
          | (recorded, .ok (found, rest)) => (recorded, .ok [⟨found, rest, true⟩])
          | (recorded, .error fault) => (recorded, .error fault)
      | .branch _ next =>
          match block.takeJump .jumpi reached with
          | (recorded, .ok (found, rest)) =>
              (recorded, .ok [⟨next, rest, false⟩, ⟨found, rest, true⟩])
          | (recorded, .error fault) => (recorded, .error fault)
      | .fall next => (block, .ok [⟨next, reached, false⟩])
      | _ => (block, .ok [])

end Block

end EvmAtlas
