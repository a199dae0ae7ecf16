import EvmAtlas.Fault
import EvmAtlas.Opcode.Compute

/-!
# Effects of instructions

What the instruction set fixes about each instruction before it runs: how many operands
it takes and results it leaves, its gas, whether it writes to the chain, and whether it
ends a block. `Arity.check` is the one test of a stack height against an arity.
-/

namespace EvmAtlas

/-- The number of operands an instruction takes and of results it leaves. A duplication
or exchange takes and leaves every cell it reaches. -/
structure Arity where
  pops : Nat
  pushes : Nat
  deriving DecidableEq, Repr

/-- The greatest height of an operand stack. -/
def stackLimit : Nat := 1024

/-- Whether a stack of the given height has the operands and leaves room for the results. -/
def Arity.check (arity : Arity) (height : Int) : Except Fault Unit :=
  let limit : Int := (stackLimit : Int) + arity.pops - arity.pushes
  if height < arity.pops then
    .error (.met (.heightBelow height arity.pops) .stackUnderflow)
  else if height > limit then
    .error (.met (.heightAbove height limit) .stackOverflow)
  else .ok ()

namespace Opcode

def arity : Opcode → Arity
  | .stop => ⟨0, 0⟩
  | .unary _ => ⟨1, 1⟩
  | .binary _ => ⟨2, 1⟩
  | .ternary _ => ⟨3, 1⟩
  | .sha3 => ⟨2, 1⟩
  | .reading _ => ⟨0, 1⟩
  | .balance => ⟨1, 1⟩
  | .calldataload => ⟨1, 1⟩
  | .copy _ => ⟨3, 0⟩
  | .extcodesize => ⟨1, 1⟩
  | .extcodecopy => ⟨4, 0⟩
  | .extcodehash => ⟨1, 1⟩
  | .pop => ⟨1, 0⟩
  | .mload => ⟨1, 1⟩
  | .mstore => ⟨2, 0⟩
  | .mstore8 => ⟨2, 0⟩
  | .sload => ⟨1, 1⟩
  | .sstore => ⟨2, 0⟩
  | .jump => ⟨1, 0⟩
  | .jumpi => ⟨2, 0⟩
  | .jumpdest => ⟨0, 0⟩
  | .push _ => ⟨0, 1⟩
  | .dup index => ⟨index.val + 1, index.val + 2⟩
  | .swap index => ⟨index.val + 2, index.val + 2⟩
  | .log topics => ⟨topics.val + 2, 0⟩
  | .staticcall => ⟨6, 1⟩
  | .return => ⟨2, 0⟩
  | .revert => ⟨2, 0⟩
  | .unsupported .blockhash => ⟨1, 1⟩
  | .unsupported .create => ⟨3, 1⟩
  | .unsupported .call => ⟨7, 1⟩
  | .unsupported .callcode => ⟨7, 1⟩
  | .unsupported .delegatecall => ⟨6, 1⟩
  | .unsupported .create2 => ⟨4, 1⟩
  | .unsupported .selfdestruct => ⟨1, 0⟩

/-- The gas charged for an instruction whatever its operands. Costs that depend on the
operands are not charged by this machine. -/
def baseGas : Opcode → UInt64
  | .stop | .return | .revert => 0
  | .jumpdest => 1
  | .reading _ | .pop => 2
  | .unary _ => 3
  | .binary .mul | .binary .div | .binary .sdiv | .binary .mod | .binary .smod
  | .binary .signextend => 5
  | .binary .exp => 10
  | .binary _ => 3
  | .ternary _ => 8
  | .calldataload | .copy _ | .mload | .mstore | .mstore8 | .push _ | .dup _ | .swap _ => 3
  | .jump => 8
  | .jumpi => 10
  | .unsupported .blockhash => 20
  | .sha3 => 30
  | .sload => 200
  | .balance | .extcodehash => 400
  | .extcodesize | .extcodecopy | .staticcall => 700
  | .unsupported .call | .unsupported .callcode | .unsupported .delegatecall => 700
  | .log topics => 375 + 375 * UInt64.ofNat topics.val
  | .sstore | .unsupported .selfdestruct => 5000
  | .unsupported .create | .unsupported .create2 => 32000

/-- Whether an instruction may not run in a read-only frame. -/
def writes : Opcode → Bool
  | .sstore | .log _ => true
  | .unsupported .create | .unsupported .create2 | .unsupported .selfdestruct => true
  | _ => false

/-- Whether an instruction ends its block on its own. A conditional jump does so only
once it is decoded together with the position it falls through to. -/
def isBlockFinal : Opcode → Bool
  | .stop | .jump | .return | .revert => true
  | _ => false

/-- The operands and results of the instruction at a byte; a byte without an instruction
has neither. -/
def byteArity (byte : UInt8) : Arity :=
  match ofByte? byte with
  | some opcode => opcode.arity
  | none => ⟨0, 0⟩

/-- The gas of the instruction at a byte, zero for a byte without an instruction. -/
def byteGas (byte : UInt8) : UInt64 :=
  match ofByte? byte with
  | some opcode => opcode.baseGas
  | none => 0

/-- Whether a byte ends its block on its own. A byte without an instruction does. -/
def byteIsBlockFinal (byte : UInt8) : Bool :=
  match ofByte? byte with
  | some opcode => opcode.isBlockFinal
  | none => true

/-- Compute the result of an instruction ahead of a run from its operands, top of the
stack first. -/
def fold (byte : UInt8) (operands : List Word) : Except Fault Word :=
  match ofByte? byte with
  | none => .error (.ofText (byteName byte ++ " cannot be folded"))
  | some opcode =>
      if !opcode.isFoldable then .error (.ofText (opcode.name ++ " cannot be folded"))
      else
        match opcode.fold? operands with
        | some result => .ok result
        | none =>
            .error (.met (.operands opcode opcode.arity.pops operands.length) .stackUnderflow)

end Opcode

end EvmAtlas
