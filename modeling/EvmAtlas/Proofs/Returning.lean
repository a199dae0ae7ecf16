import EvmAtlas.Proofs.Agreement
import EvmAtlas.Proofs.Upshot

/-!
# How calls come back

A machine that goes on runs the frame that it ran, a callee of it, or the frame that waited for
it; no frame in between is passed over, since a fault that is absorbed at all is absorbed by the
first frame that waits. So a static call that is executed either has its outcome at once, or its
callee runs until it ends, and the frame that waited goes on with what this ending hands to it.
Either way the frame goes on with the memory that the deed of its instruction leaves.
-/

namespace EvmAtlas

variable {σ : Type}

/-- The flag and the data that a frame which ends hands to the one that waits for it, if that
does not fail as well. -/
def Ending.handed? : Ending → Option (Word × Bytes)
  | .returned data => some (1, data)
  | .reverted data => some (0, data)
  | .failed fault =>
      if Machine.isAbsorbed fault then some (0, ByteArray.empty) else none
  | .crashed _ => none

namespace Machine

/-- If a machine goes on after a frame ended, it is the first frame that waited that goes on. -/
theorem resumed_of_unwind {config : MachineConfig} {callers : List Suspended}
    {machine after : Machine σ} {ending : Ending}
    (unwound : unwind config callers machine ending = .running after) :
    ∃ waiting rest flag data, callers = waiting :: rest ∧ ending.handed? = some (flag, data) ∧
      Resumed waiting.frame waiting.output rest flag data after := by
  cases callers with
  | nil => cases unwound
  | cons waiting rest =>
      have given {back : Machine σ} {gas : UInt64} {flag : Word} {data : Bytes}
          (frame_eq : back.frame = { waiting.frame with gas }) (callers_eq : back.callers = rest)
          (resumed : back.resume waiting.output flag data = .running after) :
          Resumed waiting.frame waiting.output rest flag data after := by
        obtain ⟨same, stack_eq, memory_eq, returnData_eq⟩ := resumed_of_running resumed
        rw [frame_eq] at stack_eq memory_eq
        exact ⟨same.trans callers_eq, stack_eq, memory_eq, returnData_eq⟩
      cases ending with
      | returned data => exact ⟨waiting, rest, 1, data, rfl, rfl, given rfl rfl unwound⟩
      | reverted data => exact ⟨waiting, rest, 0, data, rfl, rfl, given rfl rfl unwound⟩
      | crashed crash => cases unwound
      | failed fault =>
          simp only [unwind] at unwound
          split at unwound
          · next absorbs =>
              refine ⟨waiting, rest, 0, ByteArray.empty, rfl, ?_, given rfl rfl unwound⟩
              rw [Ending.handed?, if_pos absorbs]
          · next passes =>
              let back := machine.back config waiting rest
              let further := fault.within (.staticCall waiting.callee (machine.registers.depth - 1))
              have stays : isAbsorbed further = false := Bool.eq_false_iff.mpr passes
              obtain ⟨final, total, failed, -⟩ := fail_eq_failed config back stays
              change back.fail config further = .running after at unwound
              rw [failed] at unwound
              cases unwound

section Cases

variable {chain : Chain σ} {environment : Environment} {machine after : Machine σ}
variable {opcode : Opcode} {size : UInt64}

theorem cleared_of_step (stepped : machine.step chain environment = .running after) :
    ∃ opcode size, machine.Cleared environment opcode size := by
  rcases exists_cleared chain environment machine with ⟨final, fault, failed, -⟩ | cleared
  · rw [failed] at stepped
    cases stepped
  · exact cleared

variable (chain environment machine opcode size) in
/-- What a machine that goes on runs. -/
inductive GoesOn (after : Machine σ) : Prop where
  | moves (plain : opcode ≠ .staticcall) (callers_eq : after.callers = machine.callers)
      (memory_eq : environment.config.memoryLimit.toNat < 2 ^ 63 → after.frame.memory =
        (machine.frame.memory.grow size.toNat).perform (machine.deed chain opcode after))
  | answers {operands : CallOperands} {frame : Frame} {flag : Word} {data : Bytes}
      (fetched : opcode = .staticcall)
      (asks : Asks (machine.prepared environment.config opcode size) operands frame)
      (atOnce : AtOnce chain environment.config machine.registers.depth machine.chain
        operands.callee.toAddress flag data)
      (resumed : Resumed frame operands.output machine.callers flag data after)
  | opens {operands : CallOperands} {waiting : Suspended} (fetched : opcode = .staticcall)
      (enters : Enters environment.config (machine.prepared environment.config opcode size)
        operands waiting after)
  /-- The running frame has ended, and the one that waited goes on with what it was handed. -/
  | returns {waiting : Suspended} {last : Machine σ} {ending : Ending} {flag : Word} {data : Bytes}
      (callers_eq : machine.callers = waiting :: after.callers)
      (stepped : machine.step chain environment = last.finish environment.config ending)
      (handed : ending.handed? = some (flag, data))
      (resumed : Resumed waiting.frame waiting.output after.callers flag data after)

theorem Cleared.goesOn (cleared : machine.Cleared environment opcode size)
    (stepped : machine.step chain environment = .running after) :
    machine.GoesOn chain environment opcode size after := by
  have upshot := cleared.upshot chain
  generalize status_eq : machine.step chain environment = status at upshot
  rw [status_eq] at stepped
  cases upshot with
  | moves plain callers_eq memory_eq =>
      cases stepped
      rw [deed_prepared] at memory_eq
      exact .moves plain callers_eq memory_eq
  | answers fetched asks atOnce resumed =>
      cases stepped
      exact .answers fetched asks atOnce resumed
  | calls fetched enters =>
      cases stepped
      exact .opens fetched enters
  | ends callers_eq =>
      obtain ⟨waiting, rest, flag, data, waits, handed, resumed⟩ := resumed_of_unwind stepped
      rw [← resumed.callers_eq] at waits resumed
      exact .returns (callers_eq.symm.trans waits) status_eq handed resumed
  | crashes => cases stepped

/-- A step leaves the frames that wait as they are, adds one, or takes one away. -/
theorem step_callers (stepped : machine.step chain environment = .running after) :
    after.callers = machine.callers ∨
      (∃ waiting, after.callers = waiting :: machine.callers) ∨
      ∃ waiting, machine.callers = waiting :: after.callers := by
  obtain ⟨opcode, size, cleared⟩ := cleared_of_step stepped
  cases cleared.goesOn stepped with
  | moves _ callers_eq => exact .inl callers_eq
  | answers _ _ _ resumed => exact .inl resumed.callers_eq
  | opens _ enters => exact .inr (.inl ⟨_, enters.callers_eq⟩)
  | returns callers_eq => exact .inr (.inr ⟨_, callers_eq⟩)

theorem Cleared.enters (cleared : machine.Cleared environment opcode size)
    (stepped : machine.step chain environment = .running after)
    (deeper : machine.callers.length < after.callers.length) :
    opcode = .staticcall ∧ ∃ operands waiting, Enters environment.config
      (machine.prepared environment.config opcode size) operands waiting after := by
  cases cleared.goesOn stepped with
  | moves _ callers_eq => exact absurd (congrArg List.length callers_eq) (Nat.ne_of_gt deeper)
  | answers _ _ _ resumed =>
      exact absurd (congrArg List.length resumed.callers_eq) (Nat.ne_of_gt deeper)
  | opens fetched enters => exact ⟨fetched, _, _, enters⟩
  | returns callers_eq =>
      rw [callers_eq, List.length_cons] at deeper
      omega

/-- While a callee runs, the frame that entered it waits below, as it was left. -/
theorem Working.exists_entered {status : Status σ} {inner : Machine σ}
    (working : machine.Working chain environment status) (runs : status = .running inner)
    (deeper : machine.callers.length < inner.callers.length) :
    ∃ first waiting, machine.step chain environment = .running first ∧
      first.callers = waiting :: machine.callers ∧
      waiting :: machine.callers <:+ inner.callers := by
  induction working generalizing inner with
  | begins =>
      obtain ⟨opcode, size, cleared⟩ := cleared_of_step runs
      obtain ⟨-, operands, waiting, enters⟩ := cleared.enters runs deeper
      exact ⟨inner, waiting, runs, enters.callers_eq, enters.callers_eq ▸ List.suffix_rfl⟩
  | @goesOn before _ above ih =>
      obtain ⟨first, waiting, stepped, entered, suffix⟩ := ih rfl above
      refine ⟨first, waiting, stepped, entered, ?_⟩
      rcases step_callers runs with callers_eq | ⟨other, callers_eq⟩ | ⟨other, callers_eq⟩
      · exact callers_eq ▸ suffix
      · exact callers_eq ▸ suffix.trans (List.suffix_cons _ _)
      · rw [callers_eq] at suffix
        exact List.suffix_of_suffix_length_le suffix (List.suffix_cons _ _) deeper

variable (chain environment machine) in
/-- A static call that has ended, with the flag and the data that it came to. -/
inductive CallEnds (callee : Address) (flag : Word) (data : Bytes) : Prop where
  | atOnce (known : AtOnce chain environment.config machine.registers.depth machine.chain callee
      flag data)
  /-- The callee was entered and has ended. -/
  | ended {waiting : Suspended} {first inner last : Machine σ} {ending : Ending}
      (entered : machine.step chain environment = .running first)
      (first_eq : first.callers = waiting :: machine.callers)
      (working : machine.Working chain environment (.running inner))
      (inner_eq : inner.callers = waiting :: machine.callers)
      (stepped : inner.step chain environment = last.finish environment.config ending)
      (handed : ending.handed? = some (flag, data))

variable (chain environment machine opcode size) in
/-- How a frame has executed an instruction that passed every check. -/
inductive Executed (after : Machine σ) : Prop where
  | moves (plain : opcode ≠ .staticcall) (stepped : machine.step chain environment = .running after)
      (memory_eq : environment.config.memoryLimit.toNat < 2 ^ 63 → after.frame.memory =
        (machine.frame.memory.grow size.toNat).perform (machine.deed chain opcode after))
  | calls {operands : CallOperands} {frame : Frame} {flag : Word} {data : Bytes}
      (fetched : opcode = .staticcall)
      (asks : Asks (machine.prepared environment.config opcode size) operands frame)
      (ends : machine.CallEnds chain environment operands.callee.toAddress flag data)
      (resumed : Resumed frame operands.output machine.callers flag data after)

theorem Executes.executed (executes : machine.Executes chain environment after)
    (cleared : machine.Cleared environment opcode size) :
    machine.Executed chain environment opcode size after := by
  obtain ⟨working, level⟩ := executes
  have same_length := congrArg List.length level
  generalize status_eq : Status.running after = status at working
  cases working with
  | begins =>
      cases cleared.goesOn status_eq.symm with
      | moves plain _ memory_eq => exact .moves plain status_eq.symm memory_eq
      | answers fetched asks atOnce resumed => exact .calls fetched asks (.atOnce atOnce) resumed
      | opens _ enters =>
          have higher := congrArg List.length enters.callers_eq
          exact absurd (higher.symm.trans same_length) (Nat.succ_ne_self _)
      | returns callers_eq =>
          have lower := congrArg List.length callers_eq
          exact absurd (lower.symm.trans same_length.symm) (Nat.succ_ne_self _)
  | @goesOn inner before deeper =>
      -- The frame waits below the callee, so that only a return of the callee leads back to it.
      obtain ⟨first, waiting, stepped, first_eq, suffix⟩ := before.exists_entered rfl deeper
      have opened : machine.callers.length < first.callers.length := by
        rw [first_eq]
        exact Nat.lt_succ_self _
      obtain ⟨fetched, operands, other, enters⟩ := cleared.enters stepped opened
      have waiting_eq : other :: machine.callers = waiting :: machine.callers :=
        enters.callers_eq.symm.trans first_eq
      injection waiting_eq with waiting_eq
      subst waiting_eq
      obtain ⟨_, _, innerCleared⟩ := cleared_of_step status_eq.symm
      cases innerCleared.goesOn status_eq.symm with
      | moves _ callers_eq =>
          exact absurd (congrArg List.length callers_eq) (by omega)
      | answers _ _ _ resumed =>
          exact absurd (congrArg List.length resumed.callers_eq) (by omega)
      | opens _ enters =>
          have higher : _ = inner.callers.length + 1 := congrArg List.length enters.callers_eq
          omega
      | @returns awaited _ _ _ _ callers_eq finished handed resumed =>
          rw [level] at callers_eq resumed
          have same := suffix.eq_of_length (by rw [callers_eq]; rfl)
          rw [callers_eq] at same
          injection same with waiting_eq
          subst waiting_eq
          rw [enters.output_eq] at resumed
          exact .calls fetched enters.asks
            (.ended stepped first_eq before callers_eq finished handed) resumed

/-- An instruction that a frame has executed, or is about to have executed, passed every check. -/
theorem Working.exists_cleared {status : Status σ} {inner : Machine σ}
    (working : machine.Working chain environment status) (runs : status = .running inner) :
    ∃ opcode size, machine.Cleared environment opcode size := by
  induction working generalizing inner with
  | begins => exact cleared_of_step runs
  | goesOn _ _ ih => exact ih rfl

theorem Executed.memory_eq (executed : machine.Executed chain environment opcode size after)
    (cleared : machine.Cleared environment opcode size)
    (limited : environment.config.memoryLimit.toNat < 2 ^ 63) :
    after.frame.memory =
      (machine.frame.memory.grow size.toNat).perform (machine.deed chain opcode after) := by
  cases executed with
  | moves _ _ memory_eq => exact memory_eq limited
  | @calls operands _ _ _ fetched asks _ resumed =>
      subst fetched
      have stack_eq : machine.frame.stack = operands.stack := asks.stack_eq
      have touched := CallOperands.regions?_eq stack_eq
      have holds := cleared.holds limited touched operands.output (.head _)
      rw [resumed.memory_eq_perform asks holds chain, deed_prepared]
      rfl

theorem Executes.exists_cleared (executes : machine.Executes chain environment after)
    (fetched : machine.fetched? = some opcode) :
    ∃ size, machine.Cleared environment opcode size := by
  obtain ⟨other, size, cleared⟩ := executes.working.exists_cleared rfl
  cases cleared.fetched.symm.trans fetched
  exact ⟨size, cleared⟩

end Cases

end Machine

/-- What holds of the machine that a call begins in, and is kept by the steps of the machines that
the call comes to, holds of all of them. -/
theorem Interpreter.Reaches.induct {interpreter : Interpreter} {chain : Chain σ} {call : Call}
    {state : σ} {property : Machine σ → Prop}
    (begins : ∀ {code after machine}, chain.code call.address state = (.ok code, after) →
      Machine.begin interpreter.environment.config interpreter.registers call code after =
        .running machine → property machine)
    (kept : ∀ {steps machine after}, interpreter.Reaches chain call steps state machine →
      property machine → machine.step chain interpreter.environment = .running after →
      property after) {steps : Nat} {machine : Machine σ}
    (reaches : interpreter.Reaches chain call steps state machine) : property machine := by
  induction steps generalizing machine with
  | zero =>
      obtain ⟨code, after, asked, began⟩ := reaches
      exact begins asked began
  | succ steps ih =>
      obtain ⟨code, after, asked, ran⟩ := reaches
      rw [Machine.run_add steps 1] at ran
      cases before_eq : Machine.run chain interpreter.environment steps (Machine.begin
          interpreter.environment.config interpreter.registers call code after) with
      | ended final ending =>
          rw [before_eq] at ran
          cases ran
      | running before =>
          rw [before_eq] at ran
          have reached : interpreter.Reaches chain call steps state before :=
            ⟨code, after, asked, before_eq⟩
          exact kept reached (ih reached) ran

end EvmAtlas
