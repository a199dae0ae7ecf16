import EvmAtlas.Proofs.Lockstep

/-!
# What executing an instruction leads to

`Machine.Cleared` says that an instruction passed every check that is made before it is
executed. `Machine.Upshot` lists what it then comes to, told apart by what is done to memory, by
the frames that are active, and by the faults that can be met. The frame goes on with what its
deed leaves in memory; a static call that starts no callee gives its outcome at once, and any
other waits for a callee that begins without memory; or the frame ends.
-/

namespace EvmAtlas

variable {σ : Type}

/-- Whether a question or a write never fails with a fault that a waiting frame absorbs. -/
def Access.Candid {α : Type} (access : Access σ α) : Prop :=
  ∀ ⦃state fault after⦄, access state = (.error fault, after) → Machine.isAbsorbed fault = false

/-- A chain whose faults are never taken for the outcome of a call. -/
structure Chain.Candid (chain : Chain σ) : Prop where
  answers : ∀ question, (chain.ask question).Candid
  writes : ∀ writer, chain.writer = some writer → ∀ write, (writer.perform write).Candid

theorem Chain.Candid.passes {chain : Chain σ} (candid : chain.Candid) {fault : Fault}
    (fails : chain.FailsWith fault) : Machine.isAbsorbed fault = false := by
  cases fails with
  | answers asked => exact candid.answers _ asked
  | writes accepts written => exact candid.writes _ accepts _ written

/-- An instruction fails only with faults that pass every frame, unless the chain answers with
another one. -/
theorem Opcode.Meets.passes {chain : Chain σ} {code : Code} {stack : List Word} {opcode : Opcode}
    {fault : Fault} (meets : opcode.Meets chain code stack fault) (candid : chain.Candid) :
    Machine.isAbsorbed fault = false := by
  cases meets with
  | @answered _ inner question straight asked failed =>
      have passes : Machine.isAbsorbed inner = false := candid.passes failed
      exact passes
  | nowhere | readOnly | unsupported => rfl

namespace Machine

/-- A frame that goes on with the outcome of its call. -/
structure Resumed (frame : Frame) (output : Region) (callers : List Suspended) (flag : Word)
    (data : Bytes) (after : Machine σ) : Prop where
  callers_eq : after.callers = callers
  stack_eq : after.frame.stack = flag :: frame.stack
  memory_eq : after.frame.memory =
    frame.memory.write output.offset.low64.toNat output.length.low64.toNat
      (data.window 0 output.length.low64.toNat)
  returnData_eq : after.registers.returnData = data

theorem resumed_of_running {machine after : Machine σ} {output : Region} {flag : Word}
    {data : Bytes} (resumed : machine.resume output flag data = .running after) :
    Resumed machine.frame output machine.callers flag data after := by
  unfold resume at resumed
  dsimp only at resumed
  split at resumed
  · cases resumed
    exact ⟨rfl, rfl, rfl, rfl⟩
  · cases resumed

section Relations

variable (chain : Chain σ) (config : MachineConfig) (room : Prop) (machine : Machine σ)

/-- A static call that starts no callee, made with a number of frames active, with the flag and
the data that it comes to. -/
inductive AtOnce (depth : Nat) (state : σ) (callee : Address) : Word → Bytes → Prop where
  /-- Too many frames are active. -/
  | refused (deep : config.maxCallDepth ≤ depth) : AtOnce depth state callee 0 ByteArray.empty
  /-- The chain fails in a way that counts as a call that failed. -/
  | absorbed {fault : Fault} {after : σ} (asked : chain.code callee state = (.error fault, after))
      (absorbs : isAbsorbed fault = true) : AtOnce depth state callee 0 ByteArray.empty
  | codeless {code : Bytes} {after : σ} (asked : chain.code callee state = (.ok code, after))
      (nothing : code.size = 0) : AtOnce depth state callee 1 ByteArray.empty

/-- A frame that has made a static call, with its operands taken. -/
structure Asks (operands : CallOperands) (frame : Frame) : Prop where
  stack_eq : machine.frame.stack = operands.stack
  rest_eq : frame.stack = operands.rest
  memory_eq : frame.memory = machine.frame.memory

/-- A frame that waits while its callee begins. -/
structure Enters (operands : CallOperands) (waiting : Suspended) (inner : Machine σ) : Prop where
  asks : Asks machine operands waiting.frame
  output_eq : waiting.output = operands.output
  shallow : (machine.registers.depth : Int) < config.maxCallDepth
  callers_eq : inner.callers = waiting :: machine.callers
  fresh : inner.frame.memory = .empty

/-- What executing an instruction can lead to. -/
inductive Upshot (opcode : Opcode) : Status σ → Prop where
  /-- The frame goes on. -/
  | moves {after : Machine σ} (plain : opcode ≠ .staticcall)
      (callers_eq : after.callers = machine.callers)
      (memory_eq : room → after.frame.memory =
        machine.frame.memory.perform (machine.deed chain opcode after)) :
      Upshot opcode (.running after)
  /-- The frame goes on with the outcome of a call that started no callee. -/
  | answers {operands : CallOperands} {frame : Frame} {flag : Word} {data : Bytes}
      {after : Machine σ} (fetched : opcode = .staticcall) (asks : Asks machine operands frame)
      (atOnce : AtOnce chain config machine.registers.depth machine.chain
        operands.callee.toAddress flag data)
      (resumed : Resumed frame operands.output machine.callers flag data after) :
      Upshot opcode (.running after)
  /-- The frame waits for its callee. -/
  | calls {operands : CallOperands} {waiting : Suspended} {inner : Machine σ}
      (fetched : opcode = .staticcall) (enters : Enters config machine operands waiting inner) :
      Upshot opcode (.running inner)
  | ends {after : Machine σ} {ending : Ending} (callers_eq : after.callers = machine.callers)
      (candid : chain.Candid → ∀ fault, ending = .failed fault → isAbsorbed fault = false) :
      Upshot opcode (after.finish config ending)
  /-- Memory does not reach as far as it should. -/
  | crashes {after : Machine σ} {crash : Crash} (tight : ¬ room) :
      Upshot opcode (.ended after (.crashed crash))

/-- A machine that runs in the place of another, with its memory. -/
structure Beside (other : Machine σ) : Prop where
  callers_eq : other.callers = machine.callers
  memory_eq : other.frame.memory = machine.frame.memory

end Relations

theorem deed_staticcall {chain : Chain σ} {machine after : Machine σ} {operands : CallOperands}
    (stack_eq : machine.frame.stack = operands.stack) :
    machine.deed chain .staticcall after =
      { readAt := operands.inOffset.toNat
        readSize := operands.inLength.toNat
        writtenAt := operands.outOffset.toNat
        written := after.registers.returnData.window 0 operands.outLength.toNat } := by
  unfold deed
  rw [stack_eq]
  rfl

/-- What is written for a frame that goes on after its call is the deed of the call. -/
theorem Resumed.memory_eq_perform {machine after : Machine σ} {frame : Frame}
    {operands : CallOperands} {callers : List Suspended} {flag : Word} {data : Bytes}
    (resumed : Resumed frame operands.output callers flag data after)
    (asks : Asks machine operands frame)
    (holds : machine.frame.memory.Holds operands.output) (chain : Chain σ) :
    after.frame.memory = machine.frame.memory.perform (machine.deed chain .staticcall after) := by
  rw [resumed.memory_eq, asks.memory_eq, holds.copy_eq_perform, deed_staticcall asks.stack_eq,
    resumed.returnData_eq]
  rfl

namespace Upshot

variable {chain : Chain σ} {config : MachineConfig} {room : Prop} {origin machine : Machine σ}
variable {opcode : Opcode}

theorem fail (beside : Beside origin machine) {fault : Fault}
    (passes : isAbsorbed fault = false) :
    Upshot chain config room origin opcode (machine.fail config fault) := by
  apply Upshot.ends beside.callers_eq
  rintro - other ⟨⟩
  exact passes

theorem resume {operands : CallOperands} {flag : Word} {data : Bytes}
    (asks : Asks origin operands machine.frame) (callers_eq : machine.callers = origin.callers)
    (atOnce : AtOnce chain config origin.registers.depth origin.chain
      operands.callee.toAddress flag data)
    (holds : room → origin.frame.memory.Holds operands.output) :
    Upshot chain config room origin .staticcall (machine.resume operands.output flag data) := by
  cases resumed : machine.resume operands.output flag data with
  | running after =>
      have gone := resumed_of_running resumed
      rw [callers_eq] at gone
      exact .answers rfl asks atOnce gone
  | ended final ending =>
      unfold Machine.resume at resumed
      dsimp only at resumed
      split at resumed
      · cases resumed
      · next outside =>
          cases resumed
          rw [asks.memory_eq] at outside
          exact .crashes fun wide => outside (holds wide).covers

theorem staticCall (operands : CallOperands) (stack_eq : origin.frame.stack = operands.stack)
    (holds : room → origin.frame.memory.Holds operands.output) (input : Bytes)
    (requested : UInt64) :
    Upshot chain config room origin .staticcall
      (Machine.staticCall chain config (origin.taken operands) operands.callee.toAddress input
        requested operands.output) := by
  unfold Machine.staticCall taken
  split
  · next deep => exact resume ⟨stack_eq, rfl, rfl⟩ rfl (.refused deep) holds
  · next shallow =>
      dsimp only
      split
      · next fault state asked =>
          split
          · next absorbs => exact resume ⟨stack_eq, rfl, rfl⟩ rfl (.absorbed asked absorbs) holds
          · next passes =>
              apply fail
              · exact ⟨rfl, rfl⟩
              · simpa using passes
      · next code state asked =>
          rw [enter_eq]
          split
          · next nothing =>
              simp only [finish, unwind, opened]
              exact resume ⟨stack_eq, rfl, rfl⟩ rfl (.codeless asked nothing) holds
          · exact .calls rfl
              ⟨⟨stack_eq, rfl, rfl⟩, rfl, Int.not_le.mp shallow, rfl, rfl⟩

end Upshot

theorem execute_upshot (chain : Chain σ) (environment : Environment) {room : Prop}
    {machine : Machine σ} {opcode : Opcode}
    (enough : opcode.arity.pops ≤ machine.frame.stack.length)
    (holds : room → machine.HoldsFor opcode) :
    Upshot chain environment.config room machine opcode
      (execute chain environment machine opcode) := by
  have comesTo := execute_comesTo chain environment machine enough
  generalize execute chain environment machine opcode = status at comesTo
  cases comesTo with
  | goesOn plain _ performed => exact .moves plain rfl fun wide => performed (holds wide) _
  | calls operands data isCall stack_eq =>
      subst isCall
      refine .staticCall operands stack_eq ?_ data operands.gas.clamp64
      intro wide
      exact holds wide _ (CallOperands.regions?_eq stack_eq) operands.output (.head _)
  | halts =>
      refine .ends rfl ?_
      rintro - fault halted
      exact absurd halted Ending.ofHalt_ne_failed
  | fails meets =>
      refine .ends rfl ?_
      rintro candid fault ⟨⟩
      exact meets.passes candid
  | crashes tight => exact .crashes fun wide => tight (holds wide)

/-! ## Instructions that pass every check -/

/-- A machine whose next instruction passes every check, and the size of memory that it needs. -/
structure Cleared (environment : Environment) (machine : Machine σ) (opcode : Opcode)
    (size : UInt64) : Prop where
  fetched : machine.fetched? = some opcode
  fits : opcode.arity.check machine.frame.stack.length = .ok ()
  allowed : (machine.registers.readOnly && opcode.writes) = false
  covered : environment.config.cost opcode ≤ machine.frame.gas
  needed : (opcode.regions? machine.frame.stack).bind Region.needed? = some size
  limited : size ≤ environment.config.memoryLimit

/-- A machine that is charged for an instruction and has its memory grown for it. -/
def prepared (config : MachineConfig) (machine : Machine σ) (opcode : Opcode) (size : UInt64) :
    Machine σ :=
  { machine with
    frame := { machine.frame with
      gas := machine.frame.gas - config.cost opcode
      memory := machine.frame.memory.grow size.toNat } }

variable {chain : Chain σ} {environment : Environment} {machine : Machine σ} {opcode : Opcode}
variable {size : UInt64}

/-- What an instruction does to memory does not depend on the gas or the size of memory. -/
theorem deed_prepared (chain : Chain σ) (config : MachineConfig) (machine : Machine σ)
    (opcode : Opcode) (size : UInt64) (after : Machine σ) :
    (machine.prepared config opcode size).deed chain opcode after =
      machine.deed chain opcode after := by
  cases opcode with
  | copy source => cases source <;> rfl
  | _ => rfl

theorem Cleared.step_eq (cleared : machine.Cleared environment opcode size) (chain : Chain σ) :
    machine.step chain environment =
      execute chain environment (machine.prepared environment.config opcode size) opcode := by
  obtain ⟨regions, touched, needed⟩ := Option.bind_eq_some_iff.mp cleared.needed
  have admits : Admits environment.config machine opcode
      { machine.frame with gas := machine.frame.gas - environment.config.cost opcode } :=
    ⟨cleared.fetched, cleared.fits, cleared.allowed,
      charge?_eq_some_iff.mpr ⟨cleared.covered, rfl⟩⟩
  rw [admits.step_eq]
  exact expand_eq touched needed (UInt64.not_lt.mpr cleared.limited)

theorem Cleared.step_eq_staticCall (cleared : machine.Cleared environment .staticcall size)
    {operands : CallOperands} (stack_eq : machine.frame.stack = operands.stack)
    (chain : Chain σ) :
    machine.step chain environment =
      (machine.prepared environment.config .staticcall size).load operands.inOffset
        operands.inLength fun data =>
          staticCall chain environment.config
            ((machine.prepared environment.config .staticcall size).taken operands)
            operands.callee.toAddress data operands.gas.clamp64 operands.output := by
  rw [cleared.step_eq]
  simp only [execute, prepared, taken, stack_eq, CallOperands.stack, CallOperands.output]

/-- With as many frames active as there may be, a static call is refused, whatever the chain. -/
theorem Cleared.step_of_deep (cleared : machine.Cleared environment .staticcall size)
    {operands : CallOperands} (stack_eq : machine.frame.stack = operands.stack)
    (deep : environment.config.maxCallDepth ≤ machine.registers.depth) (chain : Chain σ) :
    machine.step chain environment =
      (machine.prepared environment.config .staticcall size).load operands.inOffset
        operands.inLength fun _ =>
          ((machine.prepared environment.config .staticcall size).taken operands).resume
            operands.output 0 ByteArray.empty := by
  have refused (input : Bytes) :
      staticCall chain environment.config
          ((machine.prepared environment.config .staticcall size).taken operands)
          operands.callee.toAddress input operands.gas.clamp64 operands.output =
        ((machine.prepared environment.config .staticcall size).taken operands).resume
          operands.output 0 ByteArray.empty :=
    if_pos deep
  rw [cleared.step_eq_staticCall stack_eq]
  simp only [refused]

theorem exists_cleared (chain : Chain σ) (environment : Environment) (machine : Machine σ) :
    (machine.step chain environment).FailedOutright ∨
      ∃ opcode size, machine.Cleared environment opcode size := by
  rcases exists_admits chain environment machine with failed | ⟨opcode, charged, admits⟩
  · exact .inl failed
  · obtain ⟨covered, rfl⟩ := charge?_eq_some_iff.mp admits.paid
    obtain ⟨regions, touched⟩ :=
      Opcode.exists_regions? (Arity.check_eq_ok_iff.mp admits.fits).1
    rw [admits.step_eq, expand]
    dsimp only
    rw [touched]
    dsimp only
    split
    · exact .inl (fail_failedOutright _ _ rfl)
    · next size needed =>
        split
        · exact .inl (fail_failedOutright _ _ rfl)
        · next fits =>
            refine .inr ⟨opcode, size, admits.fetched, admits.fits, admits.allowed, covered, ?_,
              UInt64.not_lt.mp fits⟩
            rw [touched]
            exact needed

theorem Cleared.enough (cleared : machine.Cleared environment opcode size) :
    opcode.arity.pops ≤ machine.frame.stack.length :=
  (Arity.check_eq_ok_iff.mp cleared.fits).1

/-- Memory is grown as far as the deed of the instruction reaches. -/
theorem Cleared.size_eq (cleared : machine.Cleared environment opcode size) (chain : Chain σ)
    (after : Machine σ) :
    size.toNat = Memory.wholeWords (machine.deed chain opcode after).reach := by
  obtain ⟨regions, touched, needed⟩ := Option.bind_eq_some_iff.mp cleared.needed
  rw [Region.toNat_of_needed? needed, reach_deed chain cleared.enough touched after]

theorem Cleared.holds (cleared : machine.Cleared environment opcode size)
    (limited : environment.config.memoryLimit.toNat < 2 ^ 63) {regions : List Region}
    (touched : opcode.regions? machine.frame.stack = some regions) :
    ∀ region ∈ regions, (machine.frame.memory.grow size.toNat).Holds region := by
  obtain ⟨others, same, needed⟩ := Option.bind_eq_some_iff.mp cleared.needed
  cases touched.symm.trans same
  have fits := UInt64.le_iff_toNat_le.mp cleared.limited
  apply Region.holds_of_needed? needed (Nat.lt_of_le_of_lt fits limited)
  rw [Memory.size_grow]
  exact Nat.le_max_right _ _

theorem Cleared.upshot (cleared : machine.Cleared environment opcode size) (chain : Chain σ) :
    Upshot chain environment.config (environment.config.memoryLimit.toNat < 2 ^ 63)
      (machine.prepared environment.config opcode size) opcode
      (machine.step chain environment) := by
  rw [cleared.step_eq]
  apply execute_upshot
  · exact cleared.enough
  · intro wide regions touched
    exact cleared.holds wide touched

/-- What a static call that is refused comes to. Only memory whose sizes are no signed numbers
can keep the frame from going on. -/
theorem Cleared.refused (cleared : machine.Cleared environment .staticcall size)
    {operands : CallOperands} (stack_eq : machine.frame.stack = operands.stack)
    (deep : environment.config.maxCallDepth ≤ machine.registers.depth) :
    (∃ after, (∀ chain : Chain σ, machine.step chain environment = .running after) ∧
      Resumed ((machine.prepared environment.config .staticcall size).taken operands).frame
        operands.output machine.callers 0 ByteArray.empty after ∧
      after.registers = { machine.registers with returnData := ByteArray.empty } ∧
      after.chain = machine.chain) ∨
    2 ^ 63 ≤ environment.config.memoryLimit.toNat ∧
      ∃ final, ∀ chain : Chain σ, machine.step chain environment =
        .ended final (.crashed .memory) := by
  have touched := CallOperands.regions?_eq stack_eq
  have wide (crashes : ¬ environment.config.memoryLimit.toNat < 2 ^ 63) :
      2 ^ 63 ≤ environment.config.memoryLimit.toNat :=
    Nat.not_lt.mp crashes
  simp only [cleared.step_of_deep stack_eq deep]
  unfold load
  split
  · next missing =>
      refine .inr ⟨wide fun limited => ?_, _, fun _ => rfl⟩
      have holds := cleared.holds limited touched operands.input (.tail _ (.head _))
      cases missing.symm.trans holds.readWords?_eq
  · cases resumed : ((machine.prepared environment.config .staticcall size).taken operands).resume
      operands.output 0 ByteArray.empty with
    | running after =>
        refine .inl ⟨after, fun _ => rfl, resumed_of_running resumed, ?_⟩
        unfold resume at resumed
        dsimp only at resumed
        split at resumed
        · cases resumed
          exact ⟨rfl, rfl⟩
        · cases resumed
    | ended final ending =>
        unfold resume at resumed
        dsimp only at resumed
        split at resumed
        · cases resumed
        · next outside =>
            cases resumed
            refine .inr ⟨wide fun limited => outside ?_, _, fun _ => rfl⟩
            exact (cleared.holds limited touched operands.output (.head _)).covers

end Machine

end EvmAtlas
