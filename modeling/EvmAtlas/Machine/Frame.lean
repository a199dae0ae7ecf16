import EvmAtlas.Chain.Basic
import EvmAtlas.Code
import EvmAtlas.Machine.Memory

/-!
# Calls and frames

A call runs the code of an account in a frame of its own: a position in the code, an
operand stack, a memory and the gas that is left. A static call suspends the frame that
makes it. The machine's state is the running frame, the suspended ones, and the registers
that all frames share. Nothing is kept for hashes: each is computed anew from its data.
-/

namespace EvmAtlas

/-- The constants of a transaction. -/
structure TransactionInfo where
  origin : Address := 0
  gasPrice : Option Word := none
  deriving DecidableEq, Repr

/-- The parameters of a call. -/
structure Call where
  sender : Address := 0
  address : Address := 0
  value : Option Word := none
  gas : UInt64 := 0
  input : Bytes := ByteArray.empty
  deriving DecidableEq

/-- The limits of the machine. -/
structure MachineConfig where
  /-- How many frames may be active at once. -/
  maxCallDepth : Int := 1024
  /-- The greatest size of a frame's memory. -/
  memoryLimit : UInt64 := 33554432
  /-- Whether instructions are charged for. -/
  meterGas : Bool := false
  deriving DecidableEq, Repr

/-- Limits where zero stands for the default. -/
def MachineConfig.orDefault (config : MachineConfig) : MachineConfig :=
  let standard : MachineConfig := {}
  { maxCallDepth :=
      if config.maxCallDepth = 0 then standard.maxCallDepth else config.maxCallDepth
    memoryLimit :=
      if config.memoryLimit = 0 then standard.memoryLimit else config.memoryLimit
    meterGas := config.meterGas }

/-- All that a run cannot change. -/
structure Environment where
  block : BlockInfo
  transaction : TransactionInfo
  config : MachineConfig
  deriving DecidableEq, Repr

/-- The environment of a machine, with defaults for what is left open. -/
def Environment.of (block : Option BlockInfo) (transaction : Option TransactionInfo)
    (config : Option MachineConfig) : Environment where
  block := block.getD {}
  transaction := transaction.getD {}
  config := (config.map MachineConfig.orDefault).getD {}

/-- A record that an execution leaves. -/
structure Log where
  address : Address
  topics : List Word
  data : Bytes
  blockNumber : UInt64
  deriving DecidableEq

/-- A call being executed. -/
structure Frame where
  caller : Address
  address : Address
  code : Code
  input : Bytes
  value : Word
  gas : UInt64
  pc : UInt64
  /-- The operands, top first. -/
  stack : List Word
  memory : Memory

namespace Frame

/-- The frame of a call before its first instruction. -/
def start (caller address : Address) (code input : Bytes) (value : Word) (gas : UInt64) :
    Frame where
  caller := caller
  address := address
  code := Code.ofBytes code
  input := input
  value := value
  gas := gas
  pc := 0
  stack := []
  memory := .empty

/-- Change the memory of a frame. The frame is taken apart first, so that its memory can be
changed in place. -/
def mapMemory (frame : Frame) (change : Memory → Memory) : Frame :=
  match frame with
  | ⟨caller, address, code, input, value, gas, pc, stack, memory⟩ =>
      ⟨caller, address, code, input, value, gas, pc, stack, change memory⟩

theorem mapMemory_eq (frame : Frame) (change : Memory → Memory) :
    frame.mapMemory change = { frame with memory := change frame.memory } := rfl

/-- Take gas from a frame that has it. -/
def useGas? (frame : Frame) (amount : UInt64) : Option Frame :=
  if frame.gas < amount then none else some { frame with gas := frame.gas - amount }

end Frame

/-- A frame that waits for a static call it made. -/
structure Suspended where
  /-- The waiting frame, without the operands of the call. -/
  frame : Frame
  callee : Address
  /-- The gas that the callee was given. -/
  forwarded : UInt64
  /-- Where the callee's data goes. -/
  output : Region
  /-- Whether the call made the machine read-only. -/
  liftsReadOnly : Bool

/-- What all frames of a machine share. -/
structure Registers where
  /-- The number of active frames. -/
  depth : Nat := 0
  readOnly : Bool := false
  /-- The data of the last call. -/
  returnData : Bytes := ByteArray.empty
  /-- The logs of the execution, last first. -/
  logs : List Log := []

/-- A machine in the middle of an execution. -/
structure Machine (σ : Type) where
  frame : Frame
  /-- The frames that wait, innermost first. -/
  callers : List Suspended
  registers : Registers
  chain : σ

namespace Machine

variable {σ : Type}

/-- Change the memory of the running frame, in place where possible. -/
def mapMemory (machine : Machine σ) (change : Memory → Memory) : Machine σ :=
  match machine with
  | ⟨frame, callers, registers, chain⟩ =>
      ⟨frame.mapMemory change, callers, registers, chain⟩

theorem mapMemory_eq (machine : Machine σ) (change : Memory → Memory) :
    machine.mapMemory change = { machine with frame := machine.frame.mapMemory change } := rfl

end Machine

/-- A check that was relied on without being made. No execution ends this way. -/
inductive Crash where
  | stack | memory
  deriving DecidableEq, Repr

/-- How a frame ends. -/
inductive Ending where
  | returned (data : Bytes)
  | reverted (data : Bytes)
  | failed (fault : Fault)
  | crashed (crash : Crash)

/-- A machine that runs, or one whose outermost frame has ended. -/
inductive Status (σ : Type) where
  | running (machine : Machine σ)
  | ended (machine : Machine σ) (ending : Ending)

/-- The outcome of a call that ran to its end. -/
structure CallResult where
  reverted : Bool
  data : Bytes
  gasLeft : UInt64 := 0
  logs : List Log := []

namespace CallResult

/-- Whether two calls ended the same way with the same data. -/
def agrees (left right : CallResult) : Bool :=
  left.reverted == right.reverted && left.data == right.data

def text (result : CallResult) : String :=
  (if result.reverted then "Revert(" else "Return(") ++ result.data.text ++ ")"

end CallResult

/-- What becomes of a call. -/
inductive Verdict where
  | completed (result : CallResult)
  | failed (fault : Fault)
  | crashed (crash : Crash)
  /-- The call needs more steps than it was given. -/
  | unfinished

end EvmAtlas
