import EvmAtlas.Opcode.Basic
import EvmAtlas.Text.Hex

/-!
# Names of instructions

Each assigned instruction has a name in capitals, which messages and listings show. A
byte without an instruction is described by its value.
-/

namespace EvmAtlas

/-- The name of an instruction with one operand. -/
def Unary.name : Unary → String
  | .iszero => "ISZERO"
  | .not => "NOT"

/-- The name of an instruction with two operands. -/
def Binary.name : Binary → String
  | .add => "ADD"
  | .mul => "MUL"
  | .sub => "SUB"
  | .div => "DIV"
  | .sdiv => "SDIV"
  | .mod => "MOD"
  | .smod => "SMOD"
  | .exp => "EXP"
  | .signextend => "SIGNEXTEND"
  | .lt => "LT"
  | .gt => "GT"
  | .slt => "SLT"
  | .sgt => "SGT"
  | .eq => "EQ"
  | .and => "AND"
  | .or => "OR"
  | .xor => "XOR"
  | .byte => "BYTE"
  | .shl => "SHL"
  | .shr => "SHR"
  | .sar => "SAR"

/-- The name of an instruction with three operands. -/
def Ternary.name : Ternary → String
  | .addmod => "ADDMOD"
  | .mulmod => "MULMOD"

/-- The name of an instruction that reads the environment. -/
def Reading.name : Reading → String
  | .address => "ADDRESS"
  | .origin => "ORIGIN"
  | .caller => "CALLER"
  | .callvalue => "CALLVALUE"
  | .calldatasize => "CALLDATASIZE"
  | .codesize => "CODESIZE"
  | .gasprice => "GASPRICE"
  | .returndatasize => "RETURNDATASIZE"
  | .coinbase => "COINBASE"
  | .timestamp => "TIMESTAMP"
  | .number => "NUMBER"
  | .difficulty => "DIFFICULTY"
  | .gaslimit => "GASLIMIT"
  | .pc => "PC"
  | .msize => "MSIZE"
  | .gas => "GAS"

/-- The name of the instruction that copies from a source. -/
def Source.name : Source → String
  | .calldata => "CALLDATACOPY"
  | .code => "CODECOPY"
  | .returndata => "RETURNDATACOPY"

/-- The name of an instruction that the machine does not run. -/
def Unsupported.name : Unsupported → String
  | .blockhash => "BLOCKHASH"
  | .create => "CREATE"
  | .call => "CALL"
  | .callcode => "CALLCODE"
  | .delegatecall => "DELEGATECALL"
  | .create2 => "CREATE2"
  | .selfdestruct => "SELFDESTRUCT"

namespace Opcode

def name : Opcode → String
  | .stop => "STOP"
  | .unary operation => operation.name
  | .binary operation => operation.name
  | .ternary operation => operation.name
  | .sha3 => "SHA3"
  | .reading word => word.name
  | .balance => "BALANCE"
  | .calldataload => "CALLDATALOAD"
  | .copy source => source.name
  | .extcodesize => "EXTCODESIZE"
  | .extcodecopy => "EXTCODECOPY"
  | .extcodehash => "EXTCODEHASH"
  | .pop => "POP"
  | .mload => "MLOAD"
  | .mstore => "MSTORE"
  | .mstore8 => "MSTORE8"
  | .sload => "SLOAD"
  | .sstore => "SSTORE"
  | .jump => "JUMP"
  | .jumpi => "JUMPI"
  | .jumpdest => "JUMPDEST"
  | .push index => "PUSH" ++ toString (index.val + 1)
  | .dup index => "DUP" ++ toString (index.val + 1)
  | .swap index => "SWAP" ++ toString (index.val + 1)
  | .log topics => "LOG" ++ toString topics.val
  | .staticcall => "STATICCALL"
  | .return => "RETURN"
  | .revert => "REVERT"
  | .unsupported operation => operation.name

def ofName? (text : String) : Option Opcode :=
  all.find? fun opcode => opcode.name == text

/-- The name of the instruction assigned to a byte, or a description of the byte. -/
def byteName (byte : UInt8) : String :=
  match ofByte? byte with
  | some opcode => opcode.name
  | none => "opcode " ++ byteText byte ++ " not defined"

end Opcode

end EvmAtlas
