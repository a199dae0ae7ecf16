import EvmAtlas.Proofs.Frames
import EvmAtlas.Proofs.Regions

/-!
# What a step does to gas and memory

`Machine.Course` lists what executing a charged instruction can lead to, told apart by the
gas of the frames and by the memory that waiting frames keep for the data of their calls.
The frame goes on with the gas it has; it waits for a callee that is given no more gas than
it has itself; or it ends. An instruction that finds its operands and its memory in place
does not crash. `Machine.Sequel` adds what a step checks before that: a frame that is refused
its instruction fails without being charged, with a fault that no frame absorbs.
-/

namespace EvmAtlas

variable {σ : Type}

/-- The instruction that a machine is about to run. -/
def Machine.fetched? (machine : Machine σ) : Option Opcode :=
  Opcode.ofByte? (machine.frame.code.byteAt machine.frame.pc)

/-- What an instruction costs, nothing where gas is not metered. -/
def MachineConfig.cost (config : MachineConfig) (opcode : Opcode) : UInt64 :=
  if config.meterGas then opcode.baseGas else 0

/-- Whether a waiting frame has memory for the data of its call. -/
def Suspended.HasRoom (waiting : Suspended) : Prop :=
  waiting.frame.memory.Covers waiting.output.offset.low64.toNat
    waiting.output.length.low64.toNat

namespace Machine

section Relations

-- The limits of the machine, whether memory reaches as far as it should, and the gas and the
-- waiting frames of a charged frame.
variable (config : MachineConfig) (room : Prop) (gas : UInt64) (callers : List Suspended)

/-- A machine that runs a frame with some gas, under some waiting frames. -/
structure HasGas (machine : Machine σ) : Prop where
  callers_eq : machine.callers = callers
  gas_eq : machine.frame.gas = gas

/-- A machine that runs a callee of the frame, started with the gas that was forwarded. -/
structure Opens (waiting : Suspended) (inner : Machine σ) : Prop where
  callers_eq : inner.callers = waiting :: callers
  held_eq : waiting.frame.gas = gas
  given_eq : inner.frame.gas = waiting.forwarded
  given_le : config.meterGas = true → waiting.forwarded ≤ gas
  hasRoom : room → waiting.HasRoom

/-- What executing a charged instruction can lead to. -/
inductive Course (opcode : Opcode) : Status σ → Prop
  /-- The frame goes on, perhaps after a call that was refused. -/
  | goesOn {after : Machine σ} (lasts : opcode.isHalt = false)
      (same : HasGas gas callers after) : Course opcode (.running after)
  /-- The frame waits for its callee. -/
  | calls {inner : Machine σ} {waiting : Suspended} (fetched : opcode = .staticcall)
      (opens : Opens config room gas callers waiting inner) : Course opcode (.running inner)
  /-- The callee has no code and returns at once. -/
  | returns {inner : Machine σ} {waiting : Suspended} (fetched : opcode = .staticcall)
      (opens : Opens config room gas callers waiting inner) :
      Course opcode (inner.finish config (.returned ByteArray.empty))
  | ends {after : Machine σ} {ending : Ending} (same : HasGas gas callers after)
      (orderly : ∀ crash, ending ≠ .crashed crash) : Course opcode (after.finish config ending)
  /-- Memory does not reach as far as it should. -/
  | crashes {after : Machine σ} {crash : Crash} (tight : ¬ room) :
      Course opcode (.ended after (.crashed crash))

end Relations

namespace Course

variable {config : MachineConfig} {room : Prop} {gas : UInt64} {callers : List Suspended}
variable {opcode : Opcode} {machine : Machine σ}
variable (same : HasGas gas callers machine)

include same

theorem fail (fault : Fault) :
    Course config room gas callers opcode (machine.fail config fault) := by
  apply Course.ends same
  intro crash absurd
  cases absurd

theorem resume (lasts : opcode.isHalt = false) {output : Region}
    (inside : room → machine.frame.memory.Covers output.offset.low64.toNat
      output.length.low64.toNat) (flag : Word) (data : Bytes) :
    Course config room gas callers opcode (machine.resume output flag data) := by
  unfold Machine.resume
  dsimp only
  split
  · exact .goesOn lasts { same with }
  · next outside => exact .crashes fun wide => outside (inside wide)

omit opcode in
theorem enter {output : Region}
    (inside : room → machine.frame.memory.Covers output.offset.low64.toNat
      output.length.low64.toNat) {given : UInt64}
    (given_le : config.meterGas = true → given ≤ gas) (callee : Address)
    (code input : Bytes) :
    Course config room gas callers .staticcall
      (machine.enter config callee code input given output) := by
  unfold Machine.enter
  dsimp only
  split
  · apply Course.returns rfl
    exact ⟨congrArg _ same.callers_eq, same.gas_eq, rfl, given_le, inside⟩
  · apply Course.calls rfl
    exact ⟨congrArg _ same.callers_eq, same.gas_eq, rfl, given_le, inside⟩

omit opcode in
theorem staticCall {chain : Chain σ} {output : Region}
    (inside : room → machine.frame.memory.Covers output.offset.low64.toNat
      output.length.low64.toNat) (callee : Address) (input : Bytes) (requested : UInt64) :
    Course config room gas callers .staticcall
      (Machine.staticCall chain config machine callee input requested output) := by
  unfold Machine.staticCall
  split
  · exact resume same rfl inside 0 ByteArray.empty
  · split
    · next fault after _ =>
        have still : HasGas gas callers { machine with chain := after } := { same with }
        dsimp only
        split
        · exact resume still rfl inside 0 ByteArray.empty
        · exact fail still _
    · next code after _ =>
        have still : HasGas gas callers { machine with chain := after } := { same with }
        refine enter still inside ?_ callee code input
        intro metered
        rw [metered, Bool.true_and, ← same.gas_eq]
        split
        · exact UInt64.le_refl _
        · next enough =>
            rw [decide_eq_true_eq, UInt64.not_lt] at enough
            exact enough

end Course

section Step

variable {room : Prop} {gas : UInt64} {callers : List Suspended}
variable {opcode : Opcode} {machine : Machine σ}

theorem execute_course (chain : Chain σ) (environment : Environment)
    (same : HasGas gas callers machine)
    (enough : opcode.arity.pops ≤ machine.frame.stack.length)
    (holds : room → machine.HoldsFor opcode) :
    Course environment.config room gas callers opcode
      (execute chain environment machine opcode) := by
  have comesTo := execute_comesTo chain environment machine enough
  generalize execute chain environment machine opcode = status at comesTo
  cases comesTo with
  | goesOn _ leads => exact .goesOn leads.lasts { same with }
  | calls operands data isCall stack_eq =>
      subst isCall
      apply Course.staticCall
      · exact { same with }
      · intro wide
        exact (holds wide _ (CallOperands.regions?_eq stack_eq) operands.output (.head _)).covers
  | halts =>
      apply Course.ends
      · exact { same with }
      · exact fun _ => Ending.ofHalt_ne_crashed
  | fails =>
      apply Course.fail
      exact { same with }
  | crashes tight => exact .crashes fun wide => tight (holds wide)

theorem expand_course (chain : Chain σ) (environment : Environment)
    (same : HasGas gas callers machine)
    (enough : opcode.arity.pops ≤ machine.frame.stack.length) :
    Course environment.config (environment.config.memoryLimit.toNat < 2 ^ 63) gas callers opcode
      (expand chain environment machine opcode) := by
  obtain ⟨regions, regions_eq⟩ := Opcode.exists_regions? enough
  unfold expand
  simp only [regions_eq]
  split
  · exact .fail same _
  · next size asked =>
      split
      · exact .fail same _
      · next fits =>
          apply execute_course
          · exact { same with }
          · exact enough
          · intro wide others others_eq
            rw [gt_iff_lt, UInt64.not_lt, UInt64.le_iff_toNat_le] at fits
            cases regions_eq.symm.trans others_eq
            apply Region.holds_of_needed? asked (Nat.lt_of_le_of_lt fits wide)
            rw [mapMemory_eq, Frame.mapMemory_eq, Memory.size_grow]
            exact Nat.le_max_right _ _

/-- A frame is charged for an instruction what it costs, and it has that much. -/
theorem charge?_eq_some_iff {config : MachineConfig} {frame charged : Frame} :
    charge? config frame opcode = some charged ↔
      config.cost opcode ≤ frame.gas ∧
        charged = { frame with gas := frame.gas - config.cost opcode } := by
  unfold charge? Frame.useGas? MachineConfig.cost
  split
  · rw [← UInt64.not_lt]
    split
    · next short => simp [short]
    · next enough => simp [enough, eq_comm]
  · simpa using eq_comm

/-- How a step goes: the frame is refused its instruction, or it is charged and executes
it. -/
inductive Sequel (environment : Environment) (machine : Machine σ) : Status σ → Prop where
  | refused {fault : Fault} (passes : isAbsorbed fault = false) :
      Sequel environment machine (machine.fail environment.config fault)
  | executed {opcode : Opcode} {status : Status σ} (fetched : machine.fetched? = some opcode)
      (covered : environment.config.cost opcode ≤ machine.frame.gas)
      (course : Course environment.config (environment.config.memoryLimit.toNat < 2 ^ 63)
        (machine.frame.gas - environment.config.cost opcode) machine.callers opcode status) :
      Sequel environment machine status

theorem step_sequel (chain : Chain σ) (environment : Environment) (machine : Machine σ) :
    machine.Sequel environment (machine.step chain environment) := by
  unfold step
  dsimp only
  split
  · exact .refused rfl
  · next opcode fetched =>
      split
      · next fault failed =>
          apply Sequel.refused
          exact Arity.passes_of_check failed _
      · next fits =>
          split
          · exact .refused rfl
          · split
            · exact .refused rfl
            · next charged paid =>
                obtain ⟨covered, rfl⟩ := charge?_eq_some_iff.mp paid
                apply Sequel.executed fetched covered
                apply expand_course
                · exact ⟨rfl, rfl⟩
                · exact (Arity.check_eq_ok_iff.mp fits).1

end Step

end Machine

end EvmAtlas
