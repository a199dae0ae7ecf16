import EvmAtlas.Flow.Policy
import EvmAtlas.Flow.Program
import EvmAtlas.Flow.Transfer

/-!
# Control-flow recovery

Starting at position zero with an empty stack, a recovery runs blocks on abstract stacks
and queues what they reach, until nothing new is reached. A jump whose destination is not
known, or is none, fails the whole recovery. Under the merge policy a block is analysed
with a bounded number of stacks of its own and after that with the join of all further
stacks of one height, so that only finitely many stacks are ever queued for it.
-/

namespace EvmAtlas

/-- What a recovery knows about a reached position. -/
structure Site where
  block : Block
  /-- The stacks the block was queued with as they arrived. -/
  contexts : List SymStack
  /-- The joins the block was queued with, by height. -/
  joined : Std.TreeMap Nat SymStack

/-- A block waiting to be analysed with a stack. -/
structure Visit where
  pc : UInt64
  stack : SymStack

/-- A recovery in progress. -/
structure Recovery where
  code : Code
  config : RecoveryConfig
  sites : Std.TreeMap UInt64 Site
  queue : List Visit

namespace Recovery

/-- A recovery that has reached nothing yet. -/
def start (code : Code) (config : RecoveryConfig) : Recovery where
  code := code
  config := config
  sites := ∅
  queue := []

/-- Put what is known about a position, and queue it with a stack. -/
def enqueue (recovery : Recovery) (pc : UInt64) (site : Site) (stack : SymStack) :
    Recovery :=
  { recovery with
    sites := recovery.sites.insert pc site
    queue := recovery.queue ++ [⟨pc, stack⟩] }

/-- Reach a known position again: queue it if the stack is new there. -/
def revisit (recovery : Recovery) (pc : UInt64) (site : Site) (stack : SymStack) :
    Recovery :=
  if recovery.config.revisit = .skip then recovery
  else if site.contexts.contains stack then recovery
  else if (site.contexts.length : Int) < recovery.config.maxContexts then
    recovery.enqueue pc { site with contexts := stack :: site.contexts } stack
  else
    match site.joined[stack.length]? with
    | none =>
        recovery.enqueue pc { site with joined := site.joined.insert stack.length stack } stack
    | some old =>
        let join := old.join stack
        if join = old then recovery
        else
          recovery.enqueue pc { site with joined := site.joined.insert stack.length join } join

/-- Reach a position from a block. A jump has to arrive at a jump destination that is an
instruction of the code; control that falls through needs none. -/
def reach (recovery : Recovery) (successor : Successor) : Except Fault Recovery :=
  let pc := successor.pc
  let site? := recovery.sites[pc]?
  let block := (site?.map Site.block).getD (Block.decode recovery.code pc)
  if successor.jumped && !(recovery.code.isCode pc && block.isJumpDestination) then
    .error (.met (.blockDestination pc) .invalidJump)
  else
    match site? with
    | none => .ok (recovery.enqueue pc ⟨block, [successor.stack], ∅⟩ successor.stack)
    | some site => .ok (recovery.revisit pc site successor.stack)

/-- Analyse a block with a stack: record what its jump found, and reach its successors. -/
def visit (recovery : Recovery) (visit : Visit) : Except Fault Recovery :=
  match recovery.sites[visit.pc]? with
  | none => .ok recovery
  | some site =>
      let (block, outcome) := site.block.transfer visit.stack
      let recorded :=
        { recovery with sites := recovery.sites.insert visit.pc { site with block } }
      match outcome.bind fun successors => successors.foldlM reach recorded with
      | .ok reached => .ok reached
      | .error fault => .error (fault.within (.block visit.pc))

/-- Work off the queue, a block a step. -/
def run : Nat → Recovery → Except Fault Recovery
  | 0, recovery =>
      if recovery.queue.isEmpty then .ok recovery else .error (.ofCause .recoveryExhausted)
  | steps + 1, recovery =>
      match recovery.queue with
      | [] => .ok recovery
      | first :: rest =>
          match visit { recovery with queue := rest } first with
          | .ok next => run steps next
          | .error fault => .error fault

/-- How many stacks can be queued for one position: those told apart, and for each height
a first join and one more for each cell that it can still forget. -/
def contextBound (config : RecoveryConfig) : Nat :=
  let joins := (List.range (stackLimit + 1)).foldl (fun total height => total + height + 1) 0
  max 1 config.maxContexts.toNat + joins

/-- How many blocks a recovery can analyse before its queue is empty. -/
def stepBound (code : Code) (config : RecoveryConfig) : Nat :=
  (code.size + 1) * contextBound config

/-- The program of what a recovery has reached. -/
def program (recovery : Recovery) : Program where
  code := recovery.code.bytes
  blocks := recovery.sites.map fun _ site => site.block

end Recovery

/-- Recover the control-flow graph of a piece of code: reach its entry with an empty stack,
then work off the queue. -/
def recover (bytes : Bytes) (config : RecoveryConfig) : Except Fault Program :=
  let code := Code.ofBytes bytes
  ((Recovery.start code config).reach ⟨0, [], false⟩).bind fun entered =>
    (entered.run (Recovery.stepBound code config)).map Recovery.program

/-- The name under which failed recoveries of a cause are counted. -/
def Cause.category : Cause → String
  | .invalidOpcode => "invalid-opcode"
  | .invalidJump => "invalid-jump"
  | .controlFlowEscaped => "jump-to-top"
  | .stackUnderflow => "stack-underflow"
  | .stackOverflow => "stack-overflow"
  | _ => "internal-failure"

end EvmAtlas
