import Mathlib.Algebra.Ring.Nat
import EvmAtlas.Proofs.Confinement
import EvmAtlas.Proofs.Course

/-!
# The machines of a run

`Machine.trace` lists the machines that a run steps from, one for every instruction that a
frame of the call comes to. What the run spends and how many frames it enters are read off
that list.
-/

namespace EvmAtlas

variable {σ : Type}

namespace Machine

/-- The machines that a run steps from, in order. -/
def trace (chain : Chain σ) (environment : Environment) : Nat → Status σ → List (Machine σ)
  | 0, _ => []
  | steps + 1, status =>
      match status with
      | .running machine =>
          machine :: trace chain environment steps (machine.step chain environment)
      | .ended _ _ => []

/-- What the instructions of some machines cost together. -/
def spent (price : Opcode → UInt64) (machines : List (Machine σ)) : Nat :=
  ((machines.filterMap fetched?).map fun opcode => (price opcode).toNat).sum

/-- Whether a step leads into a new frame. A callee without code has no frame to enter. -/
def enters (chain : Chain σ) (environment : Environment) (machine : Machine σ) : Bool :=
  (machine.step chain environment).running?.any fun after =>
    machine.callers.length < after.callers.length

/-- The number of frames that some machines enter. -/
def entered (chain : Chain σ) (environment : Environment) (machines : List (Machine σ)) :
    Nat :=
  machines.countP (enters chain environment)

theorem spent_cons {price : Opcode → UInt64} {machine : Machine σ} {opcode : Opcode}
    (fetched : machine.fetched? = some opcode) (machines : List (Machine σ)) :
    spent price (machine :: machines) = (price opcode).toNat + spent price machines := by
  rw [spent, List.filterMap_cons_some fetched, List.map_cons, List.sum_cons, ← spent]

section Run

variable {chain : Chain σ} {environment : Environment} {machine : Machine σ}

theorem run_ended {ending : Ending} (steps : Nat) :
    run chain environment steps (.ended machine ending) = .ended machine ending := by
  cases steps with
  | zero => rfl
  | succ steps => rfl

theorem trace_ended {ending : Ending} (steps : Nat) :
    trace chain environment steps (.ended machine ending) = [] := by
  cases steps with
  | zero => rfl
  | succ steps => rfl

/-- A run can be interrupted anywhere. -/
theorem run_add (first rest : Nat) (status : Status σ) :
    run chain environment (first + rest) status =
      run chain environment rest (run chain environment first status) := by
  induction first generalizing status with
  | zero => rw [Nat.zero_add, run]
  | succ first ih =>
      rw [Nat.succ_add]
      cases status with
      | running machine => exact ih _
      | ended machine ending => exact (run_ended rest).symm

theorem length_trace {steps : Nat} {status : Status σ}
    (ran : run chain environment steps status = .running machine) :
    (trace chain environment steps status).length = steps := by
  induction steps generalizing status with
  | zero => rfl
  | succ steps ih =>
      cases status with
      | running first => exact congrArg Nat.succ (ih ran)
      | ended final ending => cases ran

/-- Chains that answer alike make a run come to the same instructions. -/
theorem map_fetched?_trace_alike {τ : Type} {related : σ → τ → Prop} {twinChain : Chain τ}
    (alike : Chain.Alike related chain twinChain) (steps : Nat) {status : Status σ}
    {twin : Status τ} (near : Status.Alike related status twin) :
    (trace chain environment steps status).map fetched? =
      (trace twinChain environment steps twin).map fetched? := by
  induction steps generalizing status twin with
  | zero => rfl
  | succ steps ih =>
      cases near with
      | running near => exact congrArg (List.cons _) (ih (step_alike alike near))
      | ended near => rfl

theorem begin_callers {config : MachineConfig} {registers : Registers} {call : Call}
    {code : Bytes} {state : σ}
    (began : begin config registers call code state = .running machine) :
    machine.callers = [] := by
  unfold begin at began
  dsimp only at began
  split at began
  · cases began
  · cases began
    rfl

end Run

end Machine

/-- What a verdict says about the status that it judges. -/
inductive Status.Judged : Status σ → Verdict → Prop where
  | unfinished {machine : Machine σ} : Judged (.running machine) .unfinished
  /-- A fault completes a call only if it says that the execution was reverted. -/
  | completed {machine : Machine σ} {ending : Ending} {result : CallResult}
      (gas_eq : result.gasLeft = machine.frame.gas)
      (reverts : ∀ fault, ending = .failed fault → fault.cause = .executionReverted)
      (orderly : ∀ crash, ending ≠ .crashed crash) :
      Judged (.ended machine ending) (.completed result)
  | failed {machine : Machine σ} {fault : Fault} :
      Judged (.ended machine (.failed fault)) (.failed fault)
  | crashed {machine : Machine σ} {crash : Crash} :
      Judged (.ended machine (.crashed crash)) (.crashed crash)

theorem Status.judged (status : Status σ) : status.Judged status.verdict := by
  cases status with
  | running machine => exact .unfinished
  | ended machine ending =>
      cases ending with
      | returned data => exact .completed rfl (by simp) (by simp)
      | reverted data => exact .completed rfl (by simp) (by simp)
      | failed fault =>
          unfold verdict
          dsimp only
          split
          · next reverted => exact .completed rfl (by simp [reverted]) (by simp)
          · exact .failed
      | crashed crash => exact .crashed

theorem Status.verdict_ofHalt (final : Machine σ) (reverted : Bool) (data : Bytes) :
    Status.verdict (.ended final (.ofHalt reverted data)) =
      .completed
        { reverted
          data
          gasLeft := final.frame.gas
          logs := if reverted then [] else final.registers.logs.reverse } := by
  cases reverted with
  | true => rfl
  | false => rfl

def Verdict.result? : Verdict → Option CallResult
  | .completed result => some result
  | _ => none

def Verdict.fault? : Verdict → Option Fault
  | .failed fault => some fault
  | _ => none

theorem Verdict.exists_completed {verdict : Verdict} {look : CallResult → Bool}
    (looked : verdict.result?.any look = true) :
    ∃ result, verdict = .completed result ∧ look result = true := by
  cases verdict with
  | completed result => exact ⟨result, rfl, looked⟩
  | failed | crashed | unfinished => cases looked

namespace Interpreter

variable {interpreter : Interpreter} {chain : Chain σ} {call : Call} {state after : σ}
variable {code : Bytes}

/-- The machines that a call steps from, none where the called code cannot be had. -/
def trace (interpreter : Interpreter) (chain : Chain σ) (call : Call) (steps : Nat)
    (state : σ) : List (Machine σ) :=
  match chain.code call.address state with
  | (.error _, _) => []
  | (.ok code, after) =>
      Machine.trace chain interpreter.environment steps
        (Machine.begin interpreter.environment.config interpreter.registers call code after)

theorem trace_eq (asked : chain.code call.address state = (.ok code, after)) (steps : Nat) :
    interpreter.trace chain call steps state =
      Machine.trace chain interpreter.environment steps
        (Machine.begin interpreter.environment.config interpreter.registers call code
          after) := by
  rw [trace, asked]

theorem verdict_eq (asked : chain.code call.address state = (.ok code, after)) (steps : Nat) :
    (interpreter.call chain call steps state).1 =
      (Machine.run chain interpreter.environment steps
        (Machine.begin interpreter.environment.config interpreter.registers call code
          after)).verdict := by
  rw [Interpreter.call, asked]

theorem call_eq_of_ended {steps : Nat} {final : Machine σ} {ending : Ending}
    (asked : chain.code call.address state = (.ok code, after))
    (ran : Machine.run chain interpreter.environment steps
      (Machine.begin interpreter.environment.config interpreter.registers call code after) =
        .ended final ending) :
    interpreter.call chain call steps state =
      (Status.verdict (.ended final ending), { interpreter with registers := final.registers },
        final.chain) := by
  rw [Interpreter.call, asked]
  dsimp only
  rw [ran]
  rfl

/-- The writes that a call asks of its chain, in order, those that fail included. -/
def writes (interpreter : Interpreter) (chain : Chain σ) (call : Call) (steps : Nat)
    (state : σ) : List Write :=
  (interpreter.call chain.recorded call steps (state, [])).2.2.2

/-- Keeping a record of the writes of a call changes nothing else. -/
theorem call_recorded (interpreter : Interpreter) (chain : Chain σ) (call : Call)
    (steps : Nat) (state : σ) :
    (interpreter.call chain.recorded call steps (state, [])).1 =
        (interpreter.call chain call steps state).1 ∧
      (interpreter.call chain.recorded call steps (state, [])).2.1 =
        (interpreter.call chain call steps state).2.1 ∧
      (interpreter.call chain.recorded call steps (state, [])).2.2.1 =
        (interpreter.call chain call steps state).2.2 :=
  interpreter.call_alike chain.recorded_alike call steps rfl

/-- Nor does it change the instructions that the call comes to. -/
theorem map_fetched?_trace_recorded (interpreter : Interpreter) (chain : Chain σ) (call : Call)
    (steps : Nat) (state : σ) :
    (interpreter.trace chain.recorded call steps (state, [])).map Machine.fetched? =
      (interpreter.trace chain call steps state).map Machine.fetched? := by
  obtain ⟨answer, after, otherAfter, asked, otherAsked, near⟩ :=
    (chain.recorded_alike.code call.address).exists_answer
      (rfl : (state, ([] : List Write)).1 = state)
  rw [trace, trace, asked, otherAsked]
  cases answer with
  | error fault => rfl
  | ok code =>
      refine Machine.map_fetched?_trace_alike chain.recorded_alike steps
        (Machine.begin_alike ?_ _ _ _ _)
      exact near

/-- A call that has not come to a verdict still runs. -/
theorem exists_reaches {steps : Nat}
    (unfinished : (interpreter.call chain call steps state).1 = .unfinished) :
    ∃ machine, interpreter.Reaches chain call steps state machine := by
  rcases asked : chain.code call.address state with ⟨_ | code, after⟩
  · rw [Interpreter.call, asked] at unfinished
    cases unfinished
  · rw [verdict_eq asked] at unfinished
    have judged := (Machine.run chain interpreter.environment steps (Machine.begin
      interpreter.environment.config interpreter.registers call code after)).judged
    rw [unfinished] at judged
    generalize ran : Machine.run _ _ _ _ = status at judged
    cases judged with
    | @unfinished machine => exact ⟨machine, code, after, asked, ran⟩

/-- Once a call has come to its verdict, more steps change nothing. -/
theorem call_eq_of_le {enough steps : Nat}
    (ended : (interpreter.call chain call enough state).1 ≠ .unfinished)
    (more : enough ≤ steps) :
    interpreter.call chain call steps state = interpreter.call chain call enough state := by
  obtain ⟨rest, rfl⟩ := Nat.exists_eq_add_of_le more
  rcases asked : chain.code call.address state with ⟨_ | code, after⟩
  · rw [Interpreter.call, Interpreter.call, asked]
  · rw [verdict_eq asked] at ended
    rw [Interpreter.call, Interpreter.call, asked]
    dsimp only
    rw [Machine.run_add]
    cases ran : Machine.run chain interpreter.environment enough
        (Machine.begin interpreter.environment.config interpreter.registers call code
          after) with
    | running machine =>
        rw [ran] at ended
        exact (ended rfl).elim
    | ended final ending => rw [Machine.run_ended]

end Interpreter

end EvmAtlas
