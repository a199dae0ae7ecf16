import EvmAtlas.Word

/-!
# Instructions

The instructions that have an assigned byte. Those that only combine their operands are
grouped by the number of operands, those that only read one word of the environment
together, and so are those that the instruction set knows but the machine does not run.
A byte without an assigned instruction is not an `Opcode`.
-/

namespace EvmAtlas

/-- Instructions that turn one operand into one result. -/
inductive Unary where
  | iszero | not
  deriving DecidableEq, Repr

/-- Instructions that turn two operands into one result. -/
inductive Binary where
  | add | mul | sub | div | sdiv | mod | smod | exp | signextend
  | lt | gt | slt | sgt | eq | and | or | xor | byte | shl | shr | sar
  deriving DecidableEq, Repr

/-- Instructions that turn three operands into one result. -/
inductive Ternary where
  | addmod | mulmod
  deriving DecidableEq, Repr

/-- Words of the environment that an instruction pushes without taking operands. -/
inductive Reading where
  | address | origin | caller | callvalue | calldatasize | codesize | gasprice
  | returndatasize | coinbase | timestamp | number | difficulty | gaslimit
  | pc | msize | gas
  deriving DecidableEq, Repr

/-- Byte strings that can be copied to memory. -/
inductive Source where
  | calldata | code | returndata
  deriving DecidableEq, Repr

/-- Instructions with an assigned byte that the machine does not run. -/
inductive Unsupported where
  | blockhash | create | call | callcode | delegatecall | create2 | selfdestruct
  deriving DecidableEq, Repr

/-- An assigned instruction. A push carries its number of immediate bytes less one, a
duplication and an exchange their depth less one, and a log its number of topics. -/
inductive Opcode where
  | stop
  | unary (operation : Unary)
  | binary (operation : Binary)
  | ternary (operation : Ternary)
  | sha3
  | reading (word : Reading)
  | balance | calldataload
  | copy (source : Source)
  | extcodesize | extcodecopy | extcodehash
  | pop | mload | mstore | mstore8 | sload | sstore
  | jump | jumpi | jumpdest
  | push (index : Fin 32)
  | dup (index : Fin 16)
  | swap (index : Fin 16)
  | log (topics : Fin 5)
  | staticcall | return | revert
  | unsupported (operation : Unsupported)
  deriving DecidableEq, Repr

namespace Opcode

def ofByte? (byte : UInt8) : Option Opcode :=
  match byte.toNat with
  | 0x00 => some .stop
  | 0x01 => some (.binary .add)
  | 0x02 => some (.binary .mul)
  | 0x03 => some (.binary .sub)
  | 0x04 => some (.binary .div)
  | 0x05 => some (.binary .sdiv)
  | 0x06 => some (.binary .mod)
  | 0x07 => some (.binary .smod)
  | 0x08 => some (.ternary .addmod)
  | 0x09 => some (.ternary .mulmod)
  | 0x0a => some (.binary .exp)
  | 0x0b => some (.binary .signextend)
  | 0x10 => some (.binary .lt)
  | 0x11 => some (.binary .gt)
  | 0x12 => some (.binary .slt)
  | 0x13 => some (.binary .sgt)
  | 0x14 => some (.binary .eq)
  | 0x15 => some (.unary .iszero)
  | 0x16 => some (.binary .and)
  | 0x17 => some (.binary .or)
  | 0x18 => some (.binary .xor)
  | 0x19 => some (.unary .not)
  | 0x1a => some (.binary .byte)
  | 0x1b => some (.binary .shl)
  | 0x1c => some (.binary .shr)
  | 0x1d => some (.binary .sar)
  | 0x20 => some .sha3
  | 0x30 => some (.reading .address)
  | 0x31 => some .balance
  | 0x32 => some (.reading .origin)
  | 0x33 => some (.reading .caller)
  | 0x34 => some (.reading .callvalue)
  | 0x35 => some .calldataload
  | 0x36 => some (.reading .calldatasize)
  | 0x37 => some (.copy .calldata)
  | 0x38 => some (.reading .codesize)
  | 0x39 => some (.copy .code)
  | 0x3a => some (.reading .gasprice)
  | 0x3b => some .extcodesize
  | 0x3c => some .extcodecopy
  | 0x3d => some (.reading .returndatasize)
  | 0x3e => some (.copy .returndata)
  | 0x3f => some .extcodehash
  | 0x40 => some (.unsupported .blockhash)
  | 0x41 => some (.reading .coinbase)
  | 0x42 => some (.reading .timestamp)
  | 0x43 => some (.reading .number)
  | 0x44 => some (.reading .difficulty)
  | 0x45 => some (.reading .gaslimit)
  | 0x50 => some .pop
  | 0x51 => some .mload
  | 0x52 => some .mstore
  | 0x53 => some .mstore8
  | 0x54 => some .sload
  | 0x55 => some .sstore
  | 0x56 => some .jump
  | 0x57 => some .jumpi
  | 0x58 => some (.reading .pc)
  | 0x59 => some (.reading .msize)
  | 0x5a => some (.reading .gas)
  | 0x5b => some .jumpdest
  | 0xf0 => some (.unsupported .create)
  | 0xf1 => some (.unsupported .call)
  | 0xf2 => some (.unsupported .callcode)
  | 0xf3 => some .return
  | 0xf4 => some (.unsupported .delegatecall)
  | 0xf5 => some (.unsupported .create2)
  | 0xfa => some .staticcall
  | 0xfd => some .revert
  | 0xff => some (.unsupported .selfdestruct)
  | number =>
      if pushes : 0x60 ≤ number ∧ number < 0x80 then some (.push ⟨number - 0x60, by omega⟩)
      else if dups : 0x80 ≤ number ∧ number < 0x90 then some (.dup ⟨number - 0x80, by omega⟩)
      else if swaps : 0x90 ≤ number ∧ number < 0xa0 then
        some (.swap ⟨number - 0x90, by omega⟩)
      else if logs : 0xa0 ≤ number ∧ number < 0xa5 then some (.log ⟨number - 0xa0, by omega⟩)
      else none

def toByte : Opcode → UInt8
  | .stop => 0x00
  | .binary .add => 0x01
  | .binary .mul => 0x02
  | .binary .sub => 0x03
  | .binary .div => 0x04
  | .binary .sdiv => 0x05
  | .binary .mod => 0x06
  | .binary .smod => 0x07
  | .ternary .addmod => 0x08
  | .ternary .mulmod => 0x09
  | .binary .exp => 0x0a
  | .binary .signextend => 0x0b
  | .binary .lt => 0x10
  | .binary .gt => 0x11
  | .binary .slt => 0x12
  | .binary .sgt => 0x13
  | .binary .eq => 0x14
  | .unary .iszero => 0x15
  | .binary .and => 0x16
  | .binary .or => 0x17
  | .binary .xor => 0x18
  | .unary .not => 0x19
  | .binary .byte => 0x1a
  | .binary .shl => 0x1b
  | .binary .shr => 0x1c
  | .binary .sar => 0x1d
  | .sha3 => 0x20
  | .reading .address => 0x30
  | .balance => 0x31
  | .reading .origin => 0x32
  | .reading .caller => 0x33
  | .reading .callvalue => 0x34
  | .calldataload => 0x35
  | .reading .calldatasize => 0x36
  | .copy .calldata => 0x37
  | .reading .codesize => 0x38
  | .copy .code => 0x39
  | .reading .gasprice => 0x3a
  | .extcodesize => 0x3b
  | .extcodecopy => 0x3c
  | .reading .returndatasize => 0x3d
  | .copy .returndata => 0x3e
  | .extcodehash => 0x3f
  | .unsupported .blockhash => 0x40
  | .reading .coinbase => 0x41
  | .reading .timestamp => 0x42
  | .reading .number => 0x43
  | .reading .difficulty => 0x44
  | .reading .gaslimit => 0x45
  | .pop => 0x50
  | .mload => 0x51
  | .mstore => 0x52
  | .mstore8 => 0x53
  | .sload => 0x54
  | .sstore => 0x55
  | .jump => 0x56
  | .jumpi => 0x57
  | .reading .pc => 0x58
  | .reading .msize => 0x59
  | .reading .gas => 0x5a
  | .jumpdest => 0x5b
  | .push index => UInt8.ofNat (0x60 + index.val)
  | .dup index => UInt8.ofNat (0x80 + index.val)
  | .swap index => UInt8.ofNat (0x90 + index.val)
  | .log topics => UInt8.ofNat (0xa0 + topics.val)
  | .unsupported .create => 0xf0
  | .unsupported .call => 0xf1
  | .unsupported .callcode => 0xf2
  | .return => 0xf3
  | .unsupported .delegatecall => 0xf4
  | .unsupported .create2 => 0xf5
  | .staticcall => 0xfa
  | .revert => 0xfd
  | .unsupported .selfdestruct => 0xff

/-- Every assigned instruction, in the order of the bytes. -/
def all : List Opcode :=
  (List.range 256).filterMap fun number => ofByte? (UInt8.ofNat number)

/-- The number of immediate bytes that follow an instruction in the code. -/
def immediateSize : Opcode → Nat
  | .push index => index.val + 1
  | _ => 0

/-- The depth that a duplication or exchange reaches, zero for all others. -/
def depth : Opcode → Nat
  | .dup index => index.val + 1
  | .swap index => index.val + 1
  | _ => 0

/-- The number of topics of a log, zero for all others. -/
def topics : Opcode → Nat
  | .log count => count.val
  | _ => 0

end Opcode

end EvmAtlas
