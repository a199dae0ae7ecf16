import EvmAtlas.Machine.Frame

/-!
# One step

`step` runs one instruction of the running frame: it fetches the instruction, checks the
stack, the right to write, the gas and the memory, and executes it. A frame that ends
hands its outcome to the frame that waits for it; a fault passes through every waiting
frame and gathers their circumstances on the way.
-/

namespace EvmAtlas

variable {σ : Type}

namespace Machine

/-- Give a waiting frame the outcome of its call: a flag on the stack, the data in its
output region, and the data itself as return data. -/
def resume (machine : Machine σ) (output : Region) (flag : Word) (data : Bytes) : Status σ :=
  let offset := output.offset.low64.toNat
  let length := output.length.low64.toNat
  if machine.frame.memory.Covers offset length then
    let written := machine.mapMemory (·.write offset length (data.window 0 length))
    let frame := written.frame
    .running { written with
      frame := { frame with stack := flag :: frame.stack, pc := frame.pc + 1 }
      registers := { written.registers with returnData := data } }
  else .ended machine (.crashed .memory)

/-- Whether a fault ends a call without failing the frame that made it. -/
def isAbsorbed (fault : Fault) : Bool :=
  fault.cause == .executionReverted || fault.cause == .callDepth

/-- End the running frame and go back to the frames that wait, innermost first. -/
def unwind (config : MachineConfig) : List Suspended → Machine σ → Ending → Status σ
  | [], machine, ending =>
      .ended { machine with
        registers := { machine.registers with depth := machine.registers.depth - 1 } } ending
  | waiting :: callers, machine, ending =>
      let registers := machine.registers
      let depth := registers.depth - 1
      let gas :=
        if config.meterGas then waiting.frame.gas - (waiting.forwarded - machine.frame.gas)
        else waiting.frame.gas
      let back : Machine σ :=
        { frame := { waiting.frame with gas }
          callers
          registers := { registers with
            depth
            readOnly := registers.readOnly && !waiting.liftsReadOnly }
          chain := machine.chain }
      match ending with
      | .returned data => back.resume waiting.output 1 data
      | .reverted data => back.resume waiting.output 0 data
      | .failed fault =>
          if isAbsorbed fault then back.resume waiting.output 0 ByteArray.empty
          else unwind config callers back
            (.failed (fault.within (.staticCall waiting.callee depth)))
      | .crashed crash => .ended machine (.crashed crash)

/-- End the running frame. -/
def finish (config : MachineConfig) (machine : Machine σ) (ending : Ending) : Status σ :=
  unwind config machine.callers machine ending

def fail (config : MachineConfig) (machine : Machine σ) (fault : Fault) : Status σ :=
  machine.finish config (.failed fault)

/-- Go on with a new stack after the instruction at a number of bytes. -/
def advance (machine : Machine σ) (stack : List Word) (size : UInt64) : Status σ :=
  .running { machine with
    frame := { machine.frame with stack, pc := machine.frame.pc + size } }

/-- Go on with a new stack at the next byte. -/
def next (machine : Machine σ) (stack : List Word) : Status σ :=
  machine.advance stack 1

/-- Go on with a new stack at another position. -/
def goto (machine : Machine σ) (stack : List Word) (pc : UInt64) : Status σ :=
  .running { machine with frame := { machine.frame with stack, pc } }

/-- Write to memory and go on with a new stack at the next byte. Memory that was not there
to be written ends the machine. -/
def store (machine : Machine σ) (stack : List Word) (offset size : Nat) (data : Bytes) :
    Status σ :=
  if machine.frame.memory.Covers offset size then
    (machine.mapMemory (·.write offset size data)).next stack
  else .ended machine (.crashed .memory)

/-- A stack without the operands that were counted on. -/
def stackCrash (machine : Machine σ) : Status σ :=
  .ended machine (.crashed .stack)

/-- A region of memory that was counted on. -/
def load (machine : Machine σ) (offset length : Word) (use : Bytes → Status σ) : Status σ :=
  match machine.frame.memory.readWords? offset length with
  | none => .ended machine (.crashed .memory)
  | some data => use data

/-- Ask the chain and go on with the answer, or fail in the given circumstance. -/
def ask {α : Type} (config : MachineConfig) (machine : Machine σ) (access : Access σ α)
    (context : Context) (use : α → Machine σ → Status σ) : Status σ :=
  match access machine.chain with
  | (.ok answer, chain) => use answer { machine with chain }
  | (.error fault, chain) => fail config { machine with chain } (fault.within context)

/-- A word of the environment. -/
def read (environment : Environment) (machine : Machine σ) : Reading → Word
  | .address => .ofAddress machine.frame.address
  | .origin => .ofAddress environment.transaction.origin
  | .caller => .ofAddress machine.frame.caller
  | .callvalue => machine.frame.value
  | .calldatasize => BitVec.ofNat 256 machine.frame.input.size
  | .codesize => BitVec.ofNat 256 machine.frame.code.size
  | .gasprice => environment.transaction.gasPrice.getD 0
  | .returndatasize => BitVec.ofNat 256 machine.registers.returnData.size
  | .coinbase => .ofAddress environment.block.coinbase
  | .timestamp => .ofUInt64 environment.block.timestamp
  | .number => .ofUInt64 environment.block.number
  | .difficulty => environment.block.difficulty.getD 0
  | .gaslimit => .ofUInt64 environment.block.gasLimit
  | .pc => .ofUInt64 machine.frame.pc
  | .msize => BitVec.ofNat 256 machine.frame.memory.size
  | .gas => .ofUInt64 machine.frame.gas

/-- A byte string that can be copied to memory. -/
def source (machine : Machine σ) : Source → Bytes
  | .calldata => machine.frame.input
  | .code => machine.frame.code.bytes
  | .returndata => machine.registers.returnData

/-- Copy part of a byte string to memory, with zeros for what lies past its end. -/
def copy (machine : Machine σ) (stack : List Word) (data : Bytes)
    (offset dataOffset length : Word) : Status σ :=
  let count := length.low64.toNat
  machine.store stack offset.low64.toNat count (data.window dataOffset.clamp64.toNat count)

/-- Start a static call from the running frame. Code that is empty ends at once. -/
def enter (config : MachineConfig) (machine : Machine σ) (callee : Address)
    (code input : Bytes) (gas : UInt64) (output : Region) : Status σ :=
  let registers := machine.registers
  let waiting : Suspended :=
    { frame := machine.frame
      callee
      forwarded := gas
      output
      liftsReadOnly := !registers.readOnly }
  let inner : Machine σ :=
    { frame := .start machine.frame.address callee code input 0 gas
      callers := waiting :: machine.callers
      registers := { registers with
        depth := registers.depth + 1
        readOnly := true
        returnData := ByteArray.empty }
      chain := machine.chain }
  if code.size = 0 then inner.finish config (.returned ByteArray.empty) else .running inner

/-- Make a static call, unless too many frames are active, which counts as a call that
failed without data. -/
def staticCall (chain : Chain σ) (config : MachineConfig) (machine : Machine σ)
    (callee : Address) (input : Bytes) (requested : UInt64) (output : Region) : Status σ :=
  if (machine.registers.depth : Int) ≥ config.maxCallDepth then
    machine.resume output 0 ByteArray.empty
  else
    match chain.code callee machine.chain with
    | (.error fault, after) =>
        let failed := { machine with chain := after }
        let fault := fault.within (.code callee)
        if isAbsorbed fault then failed.resume output 0 ByteArray.empty
        else failed.fail config fault
    | (.ok code, after) =>
        let gas :=
          if config.meterGas && machine.frame.gas < requested then machine.frame.gas
          else requested
        enter config { machine with chain := after } callee code input gas output

/-- The hash of an account's code, zero for an account without nonce, balance and code. -/
def codeHash (chain : Chain σ) (config : MachineConfig) (machine : Machine σ)
    (address : Address) (use : Word → Machine σ → Status σ) : Status σ :=
  machine.ask config (chain.code address) (.code address) fun code machine =>
    if code.size > 0 then use (keccak code) machine
    else
      machine.ask config (chain.nonce address) (.nonce address) fun nonce machine =>
        machine.ask config (chain.balance address) (.balance address) fun balance machine =>
          if nonce = 0 ∧ balance.getD 0 = 0 then use 0 machine else use (keccak code) machine

/-- Exchange the top of a stack with the cell a number of places below it. -/
def swap? (depth : Nat) : List Word → Option (List Word)
  | [] => none
  | top :: rest =>
      match rest[depth - 1]? with
      | some other => some (other :: rest.set (depth - 1) top)
      | none => none

/-- Execute an instruction whose stack, right to write, gas and memory were checked. -/
def execute (chain : Chain σ) (environment : Environment) (machine : Machine σ)
    (opcode : Opcode) : Status σ :=
  let config := environment.config
  let frame := machine.frame
  match opcode with
  | .stop => machine.finish config (.returned ByteArray.empty)
  | .unary operation =>
      match frame.stack with
      | first :: rest => machine.next (operation.eval first :: rest)
      | _ => machine.stackCrash
  | .binary operation =>
      match frame.stack with
      | first :: second :: rest => machine.next (operation.eval first second :: rest)
      | _ => machine.stackCrash
  | .ternary operation =>
      match frame.stack with
      | first :: second :: third :: rest =>
          machine.next (operation.eval first second third :: rest)
      | _ => machine.stackCrash
  | .sha3 =>
      match frame.stack with
      | offset :: length :: rest =>
          machine.load offset length fun data => machine.next (keccak data :: rest)
      | _ => machine.stackCrash
  | .reading word => machine.next (machine.read environment word :: frame.stack)
  | .balance =>
      match frame.stack with
      | word :: rest =>
          machine.ask config (chain.balance word.toAddress) (.balance word.toAddress)
            fun balance machine => machine.next (balance.getD 0 :: rest)
      | _ => machine.stackCrash
  | .calldataload =>
      match frame.stack with
      | offset :: rest =>
          machine.next (Word.ofBytes (frame.input.window offset.clamp64.toNat 32) :: rest)
      | _ => machine.stackCrash
  | .copy source =>
      match frame.stack with
      | offset :: dataOffset :: length :: rest =>
          machine.copy rest (machine.source source) offset dataOffset length
      | _ => machine.stackCrash
  | .extcodesize =>
      match frame.stack with
      | word :: rest =>
          machine.ask config (chain.code word.toAddress) (.code word.toAddress)
            fun code machine => machine.next (BitVec.ofNat 256 code.size :: rest)
      | _ => machine.stackCrash
  | .extcodecopy =>
      match frame.stack with
      | word :: offset :: dataOffset :: length :: rest =>
          machine.ask config (chain.code word.toAddress) (.code word.toAddress)
            fun code machine => machine.copy rest code offset dataOffset length
      | _ => machine.stackCrash
  | .extcodehash =>
      match frame.stack with
      | word :: rest =>
          machine.codeHash chain config word.toAddress fun hash machine =>
            machine.next (hash :: rest)
      | _ => machine.stackCrash
  | .pop =>
      match frame.stack with
      | _ :: rest => machine.next rest
      | _ => machine.stackCrash
  | .mload =>
      match frame.stack with
      | offset :: rest =>
          machine.load offset 32 fun data => machine.next (Word.ofBytes data :: rest)
      | _ => machine.stackCrash
  | .mstore =>
      match frame.stack with
      | offset :: word :: rest =>
          machine.store rest offset.low64.toNat 32 word.toBytes
      | _ => machine.stackCrash
  | .mstore8 =>
      match frame.stack with
      | offset :: word :: rest =>
          machine.store rest offset.low64.toNat 1 (Bytes.ofList [word.low64.toUInt8])
      | _ => machine.stackCrash
  | .sload =>
      match frame.stack with
      | slot :: rest =>
          machine.ask config (chain.storage frame.address slot) (.storage slot frame.address)
            fun value machine => machine.next (value :: rest)
      | _ => machine.stackCrash
  | .sstore =>
      match chain.writer with
      | none => machine.fail config (.ofCause .readOnlyState)
      | some writer =>
          match frame.stack with
          | slot :: value :: rest =>
              machine.ask config (writer.setStorage frame.address slot value)
                (.store slot frame.address) fun _ machine => machine.next rest
          | _ => machine.stackCrash
  | .jump =>
      match frame.stack with
      | destination :: rest =>
          if frame.code.isJumpDestination destination then
            machine.goto rest destination.low64
          else machine.fail config (.met (.destination destination) .invalidJump)
      | _ => machine.stackCrash
  | .jumpi =>
      match frame.stack with
      | destination :: condition :: rest =>
          if condition = 0 then machine.next rest
          else if frame.code.isJumpDestination destination then
            machine.goto rest destination.low64
          else machine.fail config (.met (.destination destination) .invalidJump)
      | _ => machine.stackCrash
  | .jumpdest => machine.next frame.stack
  | .push index =>
      machine.advance (frame.code.immediate (frame.pc + 1) (index.val + 1) :: frame.stack)
        (UInt64.ofNat (index.val + 2))
  | .dup index =>
      match frame.stack[index.val]? with
      | some word => machine.next (word :: frame.stack)
      | none => machine.stackCrash
  | .swap index =>
      match swap? (index.val + 1) frame.stack with
      | some stack => machine.next stack
      | none => machine.stackCrash
  | .log topics =>
      match frame.stack with
      | offset :: length :: rest =>
          if rest.length < topics.val then machine.stackCrash
          else
            machine.load offset length fun data =>
              let log : Log :=
                ⟨frame.address, rest.take topics.val, data, environment.block.number⟩
              let registers :=
                { machine.registers with logs := log :: machine.registers.logs }
              next { machine with registers } (rest.drop topics.val)
      | _ => machine.stackCrash
  | .staticcall =>
      match frame.stack with
      | gas :: callee :: inOffset :: inLength :: outOffset :: outLength :: rest =>
          machine.load inOffset inLength fun input =>
            staticCall chain config { machine with frame := { frame with stack := rest } }
              callee.toAddress input gas.clamp64 ⟨outOffset, outLength⟩
      | _ => machine.stackCrash
  | .return =>
      match frame.stack with
      | offset :: length :: rest =>
          machine.load offset length fun data =>
            finish config { machine with frame := { frame with stack := rest } }
              (.returned data)
      | _ => machine.stackCrash
  | .revert =>
      match frame.stack with
      | offset :: length :: rest =>
          machine.load offset length fun data =>
            finish config { machine with frame := { frame with stack := rest } }
              (.reverted data)
      | _ => machine.stackCrash
  | .unsupported operation =>
      machine.fail config (.ofCause (.unsupportedOpcode operation))

/-- Grow the memory for an instruction, then execute it. -/
def expand (chain : Chain σ) (environment : Environment) (machine : Machine σ)
    (opcode : Opcode) : Status σ :=
  let config := environment.config
  let frame := machine.frame
  let here : Context := .instruction opcode frame.pc
  match opcode.regions? frame.stack with
  | none => machine.stackCrash
  | some regions =>
      match Region.needed? regions with
      | none => machine.fail config (.met here .gasOverflow)
      | some size =>
          if size > config.memoryLimit then
            machine.fail config (.met (.memoryNeeded opcode frame.pc size) .memoryLimit)
          else
            execute chain environment (machine.mapMemory (·.grow size.toNat)) opcode

/-- Charge for an instruction if gas is metered. -/
def charge? (config : MachineConfig) (frame : Frame) (opcode : Opcode) : Option Frame :=
  if config.meterGas then frame.useGas? opcode.baseGas else some frame

/-- Run one instruction of the running frame. -/
def step (chain : Chain σ) (environment : Environment) (machine : Machine σ) : Status σ :=
  let config := environment.config
  let frame := machine.frame
  let byte := frame.code.byteAt frame.pc
  match Opcode.ofByte? byte with
  | none => machine.fail config (.met (.invalidByteAt byte frame.pc) .invalidOpcode)
  | some opcode =>
      let here : Context := .instruction opcode frame.pc
      match opcode.arity.check frame.stack.length with
      | .error fault => machine.fail config (fault.within here)
      | .ok () =>
          if machine.registers.readOnly && opcode.writes then
            machine.fail config (.met here .writeProtection)
          else
            match charge? config frame opcode with
            | none => machine.fail config (.met here .outOfGas)
            | some charged => expand chain environment { machine with frame := charged } opcode

end Machine

end EvmAtlas
