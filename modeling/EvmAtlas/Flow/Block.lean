import EvmAtlas.Flow.Instruction

/-!
# Blocks

A block is a straight run of instructions of which only the last can divert control.
Decoding never fails: the code goes on with zeros, so a block that runs off its end stops
there.
-/

namespace EvmAtlas

/-- A straight run of instructions. -/
structure Block where
  /-- The position of the first instruction. -/
  start : UInt64
  /-- The position right after the block. -/
  stop : UInt64
  /-- The instructions before the last one. -/
  body : List Instruction
  /-- The instruction that ends the block. -/
  final : Instruction
  deriving DecidableEq, Repr

namespace Block

/-- Decode the instruction at `pc` in a block that began at `start`, and give the position
after it. A jump destination that does not begin the block ends it and is left for the
next one. -/
def decodeInstruction (code : Code) (start pc : UInt64) : Instruction × UInt64 :=
  match Opcode.ofByte? (code.byteAt pc) with
  | some (.push index) =>
      (⟨pc, .push index (code.immediate (pc + 1) (index.val + 1))⟩,
        pc + 1 + UInt64.ofNat (index.val + 1))
  | some .jump => (⟨pc, .jump []⟩, pc + 1)
  | some .jumpi => (⟨pc, .branch [] (pc + 1)⟩, pc + 1)
  | some .jumpdest =>
      if pc = start then (⟨pc, .plain .jumpdest⟩, pc + 1) else (⟨pc, .fall pc⟩, pc)
  | some opcode => (⟨pc, .plain opcode⟩, pc + 1)
  | none => (⟨pc, .invalid (code.byteAt pc)⟩, pc + 1)

/-- Decode from `pc` on to the end of the block: the instructions before the last one, the
last one, and the position after it. Once the steps are spent the position lies past the
end of the code, where a stop is read. -/
def decodeFrom (code : Code) (start : UInt64) :
    Nat → UInt64 → List Instruction × Instruction × UInt64
  | 0, pc => ([], ⟨pc, .plain .stop⟩, pc + 1)
  | steps + 1, pc =>
      let (instruction, next) := decodeInstruction code start pc
      if instruction.isFinal then ([], instruction, next)
      else
        let (body, final, stop) := decodeFrom code start steps next
        (instruction :: body, final, stop)

/-- Decode the block that begins at a position. -/
def decode (code : Code) (start : UInt64) : Block :=
  let (body, final, stop) := decodeFrom code start (code.size - start.toNat) start
  { start, stop, body, final }

def instructions (block : Block) : List Instruction :=
  block.body ++ [block.final]

/-- Whether a block begins with a jump destination. -/
def isJumpDestination (block : Block) : Bool :=
  match block.instructions with
  | first :: _ => first.action == .plain .jumpdest
  | [] => false

/-- The gas of all instructions of a block whatever their operands. -/
def staticGas (block : Block) : UInt64 :=
  (block.instructions.map Instruction.gas).foldl (· + ·) 0

/-- The positions that control may reach after a block, as far as they are known. The
position a conditional jump falls through to comes first. -/
def successors (block : Block) : List UInt64 :=
  match block.final.action with
  | .jump found => found
  | .branch found next => next :: found.filter (· != next)
  | .fall next => [next]
  | _ => []

/-- Record a destination found for the jump that ends a block. -/
def addDestination (block : Block) (destination : UInt64) : Block :=
  { block with final := block.final.addDestination destination }

/-- The text of a block, one instruction a line. -/
def text (block : Block) : String :=
  String.join (block.instructions.map fun instruction => instruction.text ++ "\n")

end Block

end EvmAtlas
