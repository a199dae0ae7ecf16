import EvmAtlas.Proofs.Answers
import EvmAtlas.Proofs.Returning
import EvmAtlas.Proofs.Reuse

/-!
# The depth of calls

The machine counts its active frames in a register that all of them share. The count is the
number of frames that wait and the one that runs, so the limit on it bounds the frames that are
active at once. A static call at the limit is refused without a question to the chain. The fault
that says so, and the one that says that an execution was reverted, never leave a call: every
fault that they could be taken for is absorbed by a frame, and no instruction fails with one
unless the chain answers with it.
-/

namespace EvmAtlas

variable {σ : Type}

theorem Machine.isAbsorbed_eq_false_iff (fault : Fault) :
    Machine.isAbsorbed fault = false ↔
      fault.cause ≠ .callDepth ∧ fault.cause ≠ .executionReverted := by
  simp [Machine.isAbsorbed, and_comm]

/-- A status that is no failure with a fault that a waiting frame would absorb. -/
def Status.Frank (status : Status σ) : Prop :=
  ∀ final fault, status = .ended final (.failed fault) → Machine.isAbsorbed fault = false

namespace Machine

variable {chain : Chain σ} {environment : Environment}

/-- An instruction fails only with faults that pass every frame, unless the chain answers with
another one. -/
theorem step_frank (candid : chain.Candid) (machine : Machine σ) :
    (machine.step chain environment).Frank := by
  intro final total stepped
  rcases exists_cleared chain environment machine with
    ⟨other, fault, failed, passes⟩ | ⟨opcode, size, cleared⟩
  · cases failed.symm.trans stepped
    exact passes
  · have upshot := cleared.upshot chain
    rw [stepped] at upshot
    generalize status_eq : Status.ended final (.failed total) = status at upshot
    cases upshot with
    | moves | answers | calls | crashes => cases status_eq
    | ends _ honest =>
        obtain ⟨fault, around, ending_eq, -, rfl⟩ := unwind_eq_failed status_eq.symm
        exact honest candid fault ending_eq

theorem run_frank (candid : chain.Candid) (environment : Environment) (steps : Nat)
    {status : Status σ} (frank : status.Frank) : (run chain environment steps status).Frank := by
  induction steps generalizing status with
  | zero => exact frank
  | succ steps ih =>
      cases status with
      | running machine => exact ih (step_frank candid machine)
      | ended final ending => exact frank

theorem begin_frank (config : MachineConfig) (registers : Registers) (call : Call) (code : Bytes)
    (state : σ) : (begin config registers call code state).Frank := by
  intro final fault began
  unfold begin at began
  dsimp only at began
  split at began
  · cases began
  · cases began

end Machine

namespace Interpreter

variable {interpreter : Interpreter} {chain : Chain σ} {call : Call} {state : σ}

/-- No more frames are active than the limit allows, and the one that a call needs. -/
theorem Reaches.depth_le {steps : Nat} {machine : Machine σ}
    (reaches : interpreter.Reaches chain call steps state machine)
    (idle : interpreter.registers.Idle) :
    (machine.callers.length + 1 : Int) ≤ max 1 interpreter.environment.config.maxCallDepth := by
  apply reaches.induct
  · intro code after machine _ began
    rw [Machine.begin_callers began]
    exact Int.le_max_left _ _
  · intro steps machine after reached bounded stepped
    have depth_eq := (reached.balanced idle).depth_eq
    obtain ⟨opcode, size, cleared⟩ := Machine.cleared_of_step stepped
    cases cleared.goesOn stepped with
    | moves _ callers_eq =>
        rw [callers_eq]
        exact bounded
    | answers _ _ _ resumed =>
        rw [resumed.callers_eq]
        exact bounded
    | opens _ enters =>
        have shallow : (machine.registers.depth : Int) <
            interpreter.environment.config.maxCallDepth :=
          enters.shallow
        have callers_eq : _ = _ :: machine.callers := enters.callers_eq
        rw [callers_eq, List.length_cons]
        omega
    | returns callers_eq =>
        rw [callers_eq, List.length_cons] at bounded
        omega

theorem call_passes (candid : chain.Candid) {steps : Nat} {fault : Fault}
    (failed : (interpreter.call chain call steps state).1 = .failed fault) :
    Machine.isAbsorbed fault = false := by
  rcases asked : chain.code call.address state with ⟨met | code, after⟩
  · rw [Interpreter.call, asked] at failed
    cases failed
    have passes : Machine.isAbsorbed met = false := candid.answers (.code call.address) asked
    exact passes
  · rw [verdict_eq asked] at failed
    have frank := Machine.run_frank candid interpreter.environment steps
      (Machine.begin_frank interpreter.environment.config interpreter.registers call code after)
    have judged := (Machine.run chain interpreter.environment steps (Machine.begin
      interpreter.environment.config interpreter.registers call code after)).judged
    rw [failed] at judged
    generalize status_eq : Machine.run _ _ _ _ = status at frank judged
    cases judged with
    | failed => exact frank _ fault rfl

end Interpreter

/-- Call depth is bounded, and refusals stay inside. On an interpreter that is new, or has been
used for calls that came to an end, no machine that a call comes to has more active frames than
the limit on the depth allows, one if the limit is lower. A static call that passes every check
with that many frames active pushes zero, leaves no return data, and changes nothing else of the
registers and of the chain, whatever the chain would have answered; only memory whose sizes are
no signed numbers can crash it before that. And if the chain never fails with one of the two
faults that stand for the outcome of a call, the call itself never fails with one of them. -/
theorem call_depth_bounded (chain : Chain σ) (candid : chain.Candid) (block : Option BlockInfo)
    (transaction : Option TransactionInfo) (config : Option MachineConfig)
    {interpreter : Interpreter}
    (used : (Interpreter.fresh block transaction config).Used chain interpreter) (call : Call)
    (state : σ) :
    (∀ steps machine, interpreter.Reaches chain call steps state machine →
      (machine.callers.length + 1 : Int) ≤
          max 1 (Environment.of block transaction config).config.maxCallDepth ∧
      ∀ (operands : CallOperands) (size : UInt64),
        machine.Cleared interpreter.environment .staticcall size →
        machine.frame.stack = operands.stack →
        (Environment.of block transaction config).config.maxCallDepth ≤
          machine.callers.length + 1 →
        (∃ after,
          (∀ other : Chain σ, machine.step other interpreter.environment = .running after) ∧
          after.callers = machine.callers ∧ after.frame.stack = 0 :: operands.rest ∧
          after.registers = { machine.registers with returnData := ByteArray.empty } ∧
          after.chain = machine.chain) ∨
        2 ^ 63 ≤ interpreter.environment.config.memoryLimit.toNat ∧
          ∃ final, ∀ other : Chain σ, machine.step other interpreter.environment =
            .ended final (.crashed .memory)) ∧
    ∀ steps fault, (interpreter.call chain call steps state).1 = .failed fault →
      fault.cause ≠ .callDepth ∧ fault.cause ≠ .executionReverted := by
  have idle := used.idle (Interpreter.fresh_idle block transaction config)
  have same : interpreter.environment = .of block transaction config := used.environment_eq
  constructor
  · intro steps machine reaches
    rw [← same]
    refine ⟨reaches.depth_le idle, ?_⟩
    intro operands size cleared stack_eq deep
    have depth_eq := (reaches.balanced idle).depth_eq
    have full : interpreter.environment.config.maxCallDepth ≤ machine.registers.depth := by
      rw [depth_eq]
      exact deep
    rcases cleared.refused stack_eq full with ⟨after, stepped, resumed, registers_eq, chain_eq⟩ |
      crashes
    · exact .inl ⟨after, stepped, resumed.callers_eq, resumed.stack_eq, registers_eq, chain_eq⟩
    · exact .inr crashes
  · intro steps fault failed
    exact (Machine.isAbsorbed_eq_false_iff fault).mp (Interpreter.call_passes candid failed)

theorem StateSet.chain_candid (slot : Slot σ StateSet) : (StateSet.chain slot).Candid where
  answers _ _ _ _ asked := (StateSet.not_failsWith (.answers asked)).elim
  writes _ accepts _ _ _ _ written := (StateSet.not_failsWith (.writes accepts written)).elim

/-- An account that makes a static call to itself. -/
def recursiveAccounts : StateSet :=
  ({} : StateSet).setCode 0
    (Bytes.ofList [0x60, 0x00, 0x60, 0x00, 0x60, 0x00, 0x60, 0x00, 0x60, 0x00, 0x60, 0x00, 0xfa,
      0x00])

/-- With a limit below zero the account runs alone, its call is refused, and it does not fail. -/
theorem recursiveAccounts_depth_bounded :
    ∃ machine after, (Interpreter.fresh none none (some { maxCallDepth := -3 })).Reaches
        (StateSet.chain .whole) {} 6 recursiveAccounts machine ∧
      machine.callers = [] ∧
      machine.step (StateSet.chain .whole) (.of none none (some { maxCallDepth := -3 })) =
        .running after ∧
      after.callers = [] ∧ after.frame.stack = [0] := by
  have comes : (Machine.run (StateSet.chain .whole)
      (.of none none (some { maxCallDepth := -3 })) 6
      (Machine.begin (Environment.of none none (some { maxCallDepth := -3 })).config {} {}
        (recursiveAccounts.account 0).code recursiveAccounts)).running?.any
      (fun machine => machine.frame.stack == [0, 0, 0, 0, 0, 0] &&
        machine.fetched? == some .staticcall &&
        (machine.step (StateSet.chain .whole)
          (.of none none (some { maxCallDepth := -3 }))).running?.isSome) = true := by
    decide +kernel
  obtain ⟨machine, ran, seen⟩ := Status.exists_running comes
  simp only [Bool.and_eq_true, beq_iff_eq] at seen
  obtain ⟨⟨stack_eq, fetched⟩, runs⟩ := seen
  have reaches : (Interpreter.fresh none none (some { maxCallDepth := -3 })).Reaches
      (StateSet.chain .whole) {} 6 recursiveAccounts machine :=
    ⟨_, _, rfl, ran⟩
  obtain ⟨bounded, refused⟩ := (call_depth_bounded (StateSet.chain .whole)
    (StateSet.chain_candid _) none none (some { maxCallDepth := -3 }) .unused {}
    recursiveAccounts).1 6 machine reaches
  have alone : machine.callers = [] := by
    have least : max 1 (Environment.of none none
        (some { maxCallDepth := -3 })).config.maxCallDepth = 1 := by
      decide
    apply List.eq_nil_of_length_eq_zero
    omega
  obtain ⟨opcode, size, cleared⟩ := Machine.cleared_of_step (Status.eq_running_machine runs)
  cases cleared.fetched.symm.trans fetched
  rcases refused ⟨0, 0, 0, 0, 0, 0, []⟩ size cleared stack_eq (by rw [alone]; decide) with
    ⟨after, stepped, callers_eq, pushed, -⟩ | ⟨wide, -⟩
  · exact ⟨machine, after, reaches, alone, stepped _, callers_eq.trans alone, pushed⟩
  · exact absurd wide (by decide)

end EvmAtlas
