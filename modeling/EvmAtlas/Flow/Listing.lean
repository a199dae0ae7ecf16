import EvmAtlas.Flow.Block
import EvmAtlas.Text.Decimal

/-!
# Listings

A listing shows all of a program, reachable or not: the sweep decodes a block, goes on
where it stops, and ends with the code.
-/

namespace EvmAtlas

/-- The blocks of a sweep from a position on. Every block of a program moves the sweep on,
so as many steps as there are bytes left are enough. -/
def blocksFrom (code : Code) : Nat → UInt64 → List Block
  | 0, _ => []
  | steps + 1, pc =>
      if pc.toNat < code.size then
        let block := Block.decode code pc
        block :: blocksFrom code steps block.stop
      else []

/-- The blocks of a sweep over a program. -/
def listedBlocks (code : Code) : List Block :=
  blocksFrom code code.size 0

/-- The instructions of a block that a listing shows: all but a fall, which has no byte. -/
def Block.listed (block : Block) : List Instruction :=
  block.instructions.filter fun instruction => instruction.byte?.isSome

/-- The text of a block in a listing. -/
def Block.listing (block : Block) : String :=
  "block " ++ toString block.start.toNat ++ " (gas " ++ toString block.staticGas.toNat ++ ")\n"
    ++ String.join (block.listed.map fun instruction =>
      Decimal.padded 5 instruction.pc.toNat ++ ": " ++ instruction.text ++ "\n")

def listing (bytes : Bytes) : String :=
  String.join ((listedBlocks (Code.ofBytes bytes)).map Block.listing)

end EvmAtlas
