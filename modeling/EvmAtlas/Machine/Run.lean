import EvmAtlas.Machine.Step

/-!
# Running calls

An interpreter runs calls one after the other in one environment. A run is a number of
steps; a call that is metered ends within a number of steps that its gas bounds, and any
other call may need more steps than any number.
-/

namespace EvmAtlas

variable {σ : Type}

namespace Machine

/-- Run a number of steps, fewer if the machine ends. -/
def run (chain : Chain σ) (environment : Environment) : Nat → Status σ → Status σ
  | 0, status => status
  | steps + 1, status =>
      match status with
      | .running machine => run chain environment steps (machine.step chain environment)
      | .ended machine ending => .ended machine ending

/-- The outermost frame of a call before its first instruction. Code that is empty ends at
once. -/
def begin (config : MachineConfig) (registers : Registers) (call : Call) (code : Bytes)
    (chain : σ) : Status σ :=
  let machine : Machine σ :=
    { frame := .start call.sender call.address code call.input (call.value.getD 0) call.gas
      callers := []
      registers := { registers with
        depth := registers.depth + 1
        returnData := ByteArray.empty
        logs := [] }
      chain }
  if code.size = 0 then machine.finish config (.returned ByteArray.empty)
  else .running machine

end Machine

/-- What becomes of a call whose machine has the given status. A fault that says the
execution was reverted counts as a revert without data. -/
def Status.verdict : Status σ → Verdict
  | .running _ => .unfinished
  | .ended machine ending =>
      let gasLeft := machine.frame.gas
      match ending with
      | .returned data =>
          .completed { reverted := false, data, gasLeft, logs := machine.registers.logs.reverse }
      | .reverted data => .completed { reverted := true, data, gasLeft }
      | .failed fault =>
          if fault.cause = .executionReverted then
            .completed { reverted := true, data := ByteArray.empty, gasLeft }
          else .failed fault
      | .crashed crash => .crashed crash

def Status.machine : Status σ → Machine σ
  | .running machine => machine
  | .ended machine _ => machine

/-- A machine between calls: its environment, and the registers as the last call left
them. -/
structure Interpreter where
  environment : Environment
  registers : Registers := {}

namespace Interpreter

/-- A machine that has run nothing yet. -/
def fresh (block : Option BlockInfo) (transaction : Option TransactionInfo)
    (config : Option MachineConfig) : Interpreter where
  environment := .of block transaction config

/-- Run a call for a number of steps: what becomes of it, the machine afterwards, and the
state of the chain. -/
def call (interpreter : Interpreter) (chain : Chain σ) (call : Call) (steps : Nat)
    (state : σ) : Verdict × Interpreter × σ :=
  match chain.code call.address state with
  | (.error fault, after) => (.failed (fault.within (.code call.address)), interpreter, after)
  | (.ok code, after) =>
      let environment := interpreter.environment
      let status := Machine.run chain environment steps
        (Machine.begin environment.config interpreter.registers call code after)
      (status.verdict, { interpreter with registers := status.machine.registers },
        status.machine.chain)

end Interpreter

/-- Run a call on a chain. Without a block the chain's own is taken. -/
def evaluate (chain : Chain σ) (block : Option BlockInfo)
    (transaction : Option TransactionInfo) (call : Call) (config : Option MachineConfig)
    (steps : Nat) (state : σ) : Verdict × σ :=
  let run (block : BlockInfo) (state : σ) : Verdict × σ :=
    let (verdict, _, after) :=
      (Interpreter.fresh (some block) transaction config).call chain call steps state
    (verdict, after)
  match block with
  | some block => run block state
  | none =>
      match chain.block state with
      | (.ok block, after) => run block after
      | (.error fault, after) => (.failed (fault.within .blockInfo), after)

/-- More steps than any execution that is waited for takes. -/
def manySteps : Nat := 0x4000000000000000

end EvmAtlas
