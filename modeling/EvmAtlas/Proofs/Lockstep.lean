import EvmAtlas.Proofs.Coupling
import EvmAtlas.Proofs.Gas

/-!
# Machines in lockstep

How two coupled machines enter a callee and leave it again, and what the checks before an
instruction come to, said once for every relation between them.
-/

namespace EvmAtlas

variable {σ τ : Type}

namespace Machine

/-- A machine in the frame of a callee that it has just entered. -/
def opened (machine : Machine σ) (callee : Address) (code input : Bytes) (gas : UInt64)
    (output : Region) : Machine σ where
  frame := .start machine.frame.address callee code input 0 gas
  callers :=
    ⟨machine.frame, callee, gas, output, !machine.registers.readOnly⟩ :: machine.callers
  registers :=
    { machine.registers with
      depth := machine.registers.depth + 1
      readOnly := true
      returnData := ByteArray.empty }
  chain := machine.chain

theorem enter_eq (config : MachineConfig) (machine : Machine σ) (callee : Address)
    (code input : Bytes) (gas : UInt64) (output : Region) :
    machine.enter config callee code input gas output =
      if code.size = 0 then
        (machine.opened callee code input gas output).finish config (.returned ByteArray.empty)
      else .running (machine.opened callee code input gas output) :=
  rfl

/-- Two frames that call alike: the callees end at once, or both run. -/
theorem enter_together {config twinConfig : MachineConfig} {machine : Machine σ}
    {twin : Machine τ} {callee : Address} {code input : Bytes} {gas twinGas : UInt64}
    {output : Region} {close : Status σ → Status τ → Prop}
    (ends : close
      ((machine.opened callee code input gas output).finish config (.returned ByteArray.empty))
      ((twin.opened callee code input twinGas output).finish twinConfig
        (.returned ByteArray.empty)))
    (goesOn : close (.running (machine.opened callee code input gas output))
      (.running (twin.opened callee code input twinGas output))) :
    close (machine.enter config callee code input gas output)
      (twin.enter twinConfig callee code input twinGas output) := by
  rw [enter_eq, enter_eq]
  split
  · exact ends
  · exact goesOn

/-- A machine that is back in a frame that waited, which is yet to be given the outcome of its
call. -/
def back (config : MachineConfig) (waiting : Suspended) (callers : List Suspended)
    (machine : Machine σ) : Machine σ where
  frame := { waiting.frame with gas := waiting.regain config machine.frame.gas }
  callers := callers
  registers := machine.registers.leave waiting
  chain := machine.chain

/-- Two running frames that end alike: either the frames that wait for them are given the same
outcome, or these fail in turn. -/
theorem unwind_together {config twinConfig : MachineConfig} {waiting twinWaiting : Suspended}
    {callers others : List Suspended} {machine : Machine σ} {twin : Machine τ}
    {close : Status σ → Status τ → Prop}
    (resumes : ∀ flag data,
      close ((machine.back config waiting callers).resume waiting.output flag data)
        ((twin.back twinConfig twinWaiting others).resume twinWaiting.output flag data))
    (fails : ∀ fault, isAbsorbed fault = false →
      close (unwind config callers (machine.back config waiting callers)
          (.failed (fault.within (.staticCall waiting.callee (machine.registers.depth - 1)))))
        (unwind twinConfig others (twin.back twinConfig twinWaiting others)
          (.failed (fault.within (.staticCall twinWaiting.callee (twin.registers.depth - 1))))))
    (crashes : ∀ crash, close (.ended machine (.crashed crash)) (.ended twin (.crashed crash)))
    (ending : Ending) :
    close (unwind config (waiting :: callers) machine ending)
      (unwind twinConfig (twinWaiting :: others) twin ending) := by
  cases ending with
  | returned data => exact resumes 1 data
  | reverted data => exact resumes 0 data
  | failed fault =>
      simp only [unwind]
      split
      · exact resumes 0 ByteArray.empty
      · next passes => exact fails fault (by simpa using passes)
  | crashed crash => exact crashes crash

theorem fail_failedOutright (config : MachineConfig) (machine : Machine σ) {fault : Fault}
    (passes : isAbsorbed fault = false) : (machine.fail config fault).FailedOutright := by
  obtain ⟨final, around, failed, -⟩ := fail_eq_failed config machine passes
  exact ⟨final, _, failed, passes⟩

theorem run_failedOutright {status : Status σ} (failed : status.FailedOutright)
    (chain : Chain σ) (environment : Environment) (steps : Nat) :
    (run chain environment steps status).FailedOutright := by
  obtain ⟨final, fault, rfl, passes⟩ := failed
  rw [run_ended]
  exact ⟨final, fault, rfl, passes⟩

/-- An instruction that is executed has its memory grown to a size within the limit. -/
theorem expand_eq {chain : Chain σ} {environment : Environment} {machine : Machine σ}
    {opcode : Opcode} {regions : List Region} {size : UInt64}
    (touched : opcode.regions? machine.frame.stack = some regions)
    (needed : Region.needed? regions = some size)
    (fits : ¬ size > environment.config.memoryLimit) :
    expand chain environment machine opcode =
      execute chain environment (machine.mapMemory (·.grow size.toNat)) opcode := by
  simp only [expand, touched, needed, if_neg fits]

/-- An instruction whose memory cannot be grown ends the machine. -/
theorem expand_eq_running {chain : Chain σ} {environment : Environment}
    {machine after : Machine σ} {opcode : Opcode}
    (expanded : expand chain environment machine opcode = .running after) :
    ∃ regions size, opcode.regions? machine.frame.stack = some regions ∧
      Region.needed? regions = some size ∧ ¬ size > environment.config.memoryLimit := by
  have outright {fault : Fault} (passes : isAbsorbed fault = false) :
      machine.fail environment.config fault ≠ .running after := by
    obtain ⟨final, around, failed, -⟩ := fail_eq_failed environment.config machine passes
    rw [failed]
    intro running
    cases running
  unfold expand at expanded
  dsimp only at expanded
  split at expanded
  · cases expanded
  · next regions touched =>
      split at expanded
      · exact (outright rfl expanded).elim
      · next size needed =>
          split at expanded
          · exact (outright rfl expanded).elim
          · next fits => exact ⟨regions, size, touched, needed, fits⟩

/-- A machine whose next instruction passes every check before it is executed, and its frame
once it is charged for that. -/
structure Admits (config : MachineConfig) (machine : Machine σ) (opcode : Opcode)
    (charged : Frame) : Prop where
  fetched : machine.fetched? = some opcode
  fits : opcode.arity.check machine.frame.stack.length = .ok ()
  allowed : (machine.registers.readOnly && opcode.writes) = false
  paid : charge? config machine.frame opcode = some charged

theorem Admits.step_eq {environment : Environment} {machine : Machine σ} {opcode : Opcode}
    {charged : Frame} (admits : Admits environment.config machine opcode charged)
    (chain : Chain σ) :
    machine.step chain environment =
      expand chain environment { machine with frame := charged } opcode := by
  have fetched : Opcode.ofByte? (machine.frame.code.byteAt machine.frame.pc) = some opcode :=
    admits.fetched
  simp only [step, fetched, admits.fits, admits.allowed, admits.paid, Bool.false_eq_true,
    if_false]

/-- An instruction that does not pass every check fails the machine outright. -/
theorem exists_admits (chain : Chain σ) (environment : Environment) (machine : Machine σ) :
    (machine.step chain environment).FailedOutright ∨
      ∃ opcode charged, Admits environment.config machine opcode charged := by
  unfold step
  dsimp only
  split
  · exact .inl (fail_failedOutright _ _ rfl)
  · next opcode fetched =>
      split
      · next failed => exact .inl (fail_failedOutright _ _ (Arity.passes_of_check failed _))
      · next fits =>
          split
          · exact .inl (fail_failedOutright _ _ rfl)
          · next allowed =>
              split
              · exact .inl (fail_failedOutright _ _ rfl)
              · next charged paid =>
                  exact .inr ⟨opcode, charged, fetched, fits, by simpa using allowed, paid⟩

end Machine

end EvmAtlas
