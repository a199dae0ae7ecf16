import EvmAtlas.Proofs.Simulation
import EvmAtlas.Proofs.Step

/-!
# What a step asks of the chain

`Chain.recorded` keeps the writes that are asked of a chain, in order, those that fail
included. `Machine.Conduct` lists what one step of a machine on such a chain does to
everything but the stack and the memory of its frame: to the frames that wait, the
registers that all frames share, and the record. `step_conduct` shows that nothing else
happens.
-/

namespace EvmAtlas

variable {σ : Type}

/-- Add writes to a record while something is asked. -/
def Access.noting {α : Type} (access : Access σ α) (writes : List Write) :
    Access (σ × List Write) α :=
  fun state =>
    let answer := access state.1
    (answer.1, answer.2, state.2 ++ writes)

namespace Chain

/-- A chain that keeps the writes asked of it beside its state. -/
def recorded (chain : Chain σ) : Chain (σ × List Write) where
  block := chain.block.noting []
  nonce address := (chain.nonce address).noting []
  balance address := (chain.balance address).noting []
  code address := (chain.code address).noting []
  storage address slot := (chain.storage address slot).noting []
  writer := chain.writer.map fun writer =>
    .ofPerform fun write => (writer.perform write).noting [write]

variable {chain : Chain σ}

theorem record_code (address : Address) (state : σ × List Write) :
    (chain.recorded.code address state).2.2 = state.2 :=
  List.append_nil _

/-- Questions leave the record as it is. -/
theorem record_afterAsking (questions : List Question) (state : σ × List Write) :
    (chain.recorded.afterAsking questions state).2 = state.2 := by
  induction questions generalizing state with
  | nil => rfl
  | cons question questions ih =>
      refine (ih _).trans ?_
      cases question with
      | block | nonce | balance | code | storage => exact List.append_nil _

theorem record_write {writer : ChainWriter (σ × List Write)}
    (accepts : chain.recorded.writer = some writer) (address : Address) (slot value : Word)
    (state : σ × List Write) :
    (writer.setStorage address slot value state).2.2 =
      state.2 ++ [.storage address slot value] := by
  obtain ⟨plain, -, rfl⟩ := Option.map_eq_some_iff.mp accepts
  rfl

/-- Keeping a record changes no answer. -/
theorem recorded_alike (chain : Chain σ) :
    Chain.Alike (fun kept state => kept.1 = state) chain.recorded chain := by
  have noted {α : Type} (access : Access σ α) (writes : List Write) :
      Access.Alike (fun kept state => kept.1 = state) (access.noting writes) access := by
    rintro kept state rfl
    exact ⟨rfl, rfl⟩
  refine ⟨noted _ _, fun _ => noted _ _, fun _ => noted _ _, fun _ => noted _ _,
    fun _ _ => noted _ _, ?_⟩
  unfold recorded
  cases chain.writer with
  | none => exact .none
  | some writer =>
      refine .some fun write => ?_
      cases write with
      | nonce | balance | code | storage => exact noted _ _

end Chain

/-- The shared registers once a frame that `waiting` waits for has ended. -/
def Registers.leave (registers : Registers) (waiting : Suspended) : Registers :=
  { registers with
    depth := registers.depth - 1
    readOnly := registers.readOnly && !waiting.liftsReadOnly }

namespace Machine

section Untouched

-- The address of a frame, the frames that wait for it, the shared registers and the record
-- of writes, all before an instruction runs.
variable (address : Address) (callers : List Suspended) (registers : Registers)
variable (issued : List Write)

/-- A machine whose frame stands where it stood, with the same right to write. -/
structure Stands (machine : Machine (σ × List Write)) : Prop where
  address_eq : machine.frame.address = address
  callers_eq : machine.callers = callers
  depth_eq : machine.registers.depth = registers.depth
  readOnly_eq : machine.registers.readOnly = registers.readOnly

/-- A machine that has left all this as it was, the data of the last call apart. -/
structure Untouched (machine : Machine (σ × List Write)) : Prop
    extends Stands address callers registers machine where
  logs_eq : machine.registers.logs = registers.logs
  issued_eq : machine.chain.2 = issued

/-- What an instruction may leave behind: nothing, or a log or a stored word of its own
account. -/
inductive Effect (writable : Prop) (logs : List Log) (after : Machine (σ × List Write)) :
    Prop where
  | none (logs_eq : after.registers.logs = logs) (issued_eq : after.chain.2 = issued)
  | log (allowed : writable) {log : Log} (own : log.address = address)
      (logs_eq : after.registers.logs = log :: logs) (issued_eq : after.chain.2 = issued)
  | store (allowed : writable) {slot value : Word} (logs_eq : after.registers.logs = logs)
      (issued_eq : after.chain.2 = issued ++ [.storage address slot value])

/-- What one step can do, given the instruction at its position. -/
inductive Conduct (config : MachineConfig) (opcode : Option Opcode) :
    Status (σ × List Write) → Prop where
  /-- The frame goes on. -/
  | goesOn {after : Machine (σ × List Write)}
      (stands : Stands address callers registers after)
      (effect : Effect address issued
        (registers.readOnly = false ∧ opcode.any Opcode.writes = true) registers.logs after) :
      Conduct config opcode (.running after)
  /-- The frame waits for a static call, which is read-only. -/
  | calls {after : Machine (σ × List Write)} {waiting : Suspended}
      (callers_eq : after.callers = waiting :: callers)
      (address_eq : waiting.frame.address = address)
      (lifts_eq : waiting.liftsReadOnly = !registers.readOnly)
      (depth_eq : after.registers.depth = registers.depth + 1)
      (readOnly_eq : after.registers.readOnly = true)
      (logs_eq : after.registers.logs = registers.logs)
      (issued_eq : after.chain.2 = issued) :
      Conduct config opcode (.running after)
  | finishes {after : Machine (σ × List Write)} {ending : Ending}
      (halts : opcode.any Opcode.isHalt = true)
      (untouched : Untouched address callers registers issued after) :
      Conduct config opcode (after.finish config ending)
  /-- The frame fails. A write that fails was issued all the same. -/
  | fails {after : Machine (σ × List Write)} {fault : Fault}
      (stands : Stands address callers registers after)
      (effect : Effect address issued
        (registers.readOnly = false ∧ opcode.any Opcode.writes = true) registers.logs after) :
      Conduct config opcode (after.fail config fault)
  | crashes {after : Machine (σ × List Write)} {crash : Crash}
      (untouched : Untouched address callers registers issued after) :
      Conduct config opcode (.ended after (.crashed crash))

end Untouched

/-- A frame that is given the outcome of its call goes on where it was. -/
theorem resume_cases {address : Address} {callers : List Suspended} {registers : Registers}
    {issued : List Write} {machine : Machine (σ × List Write)}
    (untouched : Untouched address callers registers issued machine) (output : Region)
    (flag : Word) (data : Bytes) :
    (∃ after, machine.resume output flag data = .running after ∧
        Untouched address callers registers issued after) ∨
      machine.resume output flag data = .ended machine (.crashed .memory) := by
  unfold resume
  dsimp only
  split
  · exact .inl ⟨_, rfl, { untouched with }⟩
  · exact .inr rfl

namespace Conduct

variable {address : Address} {callers : List Suspended} {registers : Registers}
variable {issued : List Write} {config : MachineConfig} {opcode : Option Opcode}
variable {machine : Machine (σ × List Write)}
variable (untouched : Untouched address callers registers issued machine)

include untouched

theorem fail (fault : Fault) :
    Conduct address callers registers issued config opcode (machine.fail config fault) :=
  .fails untouched.toStands (.none untouched.logs_eq untouched.issued_eq)

theorem resume (output : Region) (flag : Word) (data : Bytes) :
    Conduct address callers registers issued config opcode
      (machine.resume output flag data) := by
  rcases resume_cases untouched output flag data with ⟨after, resumed, same⟩ | resumed
  · rw [resumed]
    exact .goesOn same.toStands (.none same.logs_eq same.issued_eq)
  · rw [resumed]
    exact .crashes untouched

/-- A frame that starts a call. A callee without code gives the registers back at once. -/
theorem enter (callee : Address) (code input : Bytes) (gas : UInt64) (output : Region) :
    Conduct address callers registers issued config opcode
      (machine.enter config callee code input gas output) := by
  unfold Machine.enter
  dsimp only
  split
  · simp only [finish, unwind]
    refine resume ?_ output 1 ByteArray.empty
    refine { untouched with readOnly_eq := ?_ }
    simpa using untouched.readOnly_eq
  · exact .calls (congrArg _ untouched.callers_eq) untouched.address_eq
      (congrArg not untouched.readOnly_eq) (congrArg (· + 1) untouched.depth_eq) rfl
      untouched.logs_eq untouched.issued_eq

theorem staticCall {chain : Chain σ} (callee : Address) (input : Bytes) (requested : UInt64)
    (output : Region) :
    Conduct address callers registers issued config opcode
      (Machine.staticCall chain.recorded config machine callee input requested output) := by
  unfold Machine.staticCall
  have kept (after : σ × List Write)
      (after_eq : (chain.recorded.code callee machine.chain).2 = after) :
      Untouched address callers registers issued { machine with chain := after } := by
    refine { untouched with issued_eq := ?_ }
    rw [← after_eq, Chain.record_code]
    exact untouched.issued_eq
  split
  · exact resume untouched output 0 ByteArray.empty
  · split
    · next asked =>
        have untouched := kept _ (congrArg Prod.snd asked)
        dsimp only
        split
        · exact resume untouched output 0 ByteArray.empty
        · exact fail untouched _
    · next asked => exact enter (kept _ (congrArg Prod.snd asked)) callee _ input _ output

end Conduct

section Step

variable {address : Address} {callers : List Suspended} {registers : Registers}
variable {issued : List Write} {machine : Machine (σ × List Write)} {opcode : Opcode}

/-- What an instruction leaves is an effect that it has the right to. -/
theorem Traces.effect {chain : Chain σ} {origin after : Machine (σ × List Write)}
    {logs : List Log} {state : σ × List Write}
    (traces : Traces chain.recorded origin opcode logs state)
    (untouched : Untouched address callers registers issued origin)
    (allowed : opcode.writes = true → registers.readOnly = false)
    (logs_eq : after.registers.logs = logs) (chain_eq : after.chain = state) :
    Effect address issued
      (registers.readOnly = false ∧ (some opcode).any Opcode.writes = true) registers.logs
      after := by
  cases traces with
  | questions questions =>
      refine .none (logs_eq.trans untouched.logs_eq) ?_
      rw [chain_eq, Chain.record_afterAsking]
      exact untouched.issued_eq
  | log own =>
      refine .log ⟨allowed rfl, rfl⟩ (own.trans untouched.address_eq) ?_ ?_
      · rw [logs_eq, untouched.logs_eq]
      · rw [chain_eq]
        exact untouched.issued_eq
  | store accepts slot value =>
      have issued_eq := Chain.record_write accepts origin.frame.address slot value origin.chain
      rw [← chain_eq, untouched.issued_eq, untouched.address_eq] at issued_eq
      exact .store ⟨allowed rfl, rfl⟩ (logs_eq.trans untouched.logs_eq) issued_eq

theorem execute_conduct (chain : Chain σ) (environment : Environment)
    (untouched : Untouched address callers registers issued machine)
    (enough : opcode.arity.pops ≤ machine.frame.stack.length)
    (allowed : opcode.writes = true → registers.readOnly = false) :
    Conduct address callers registers issued environment.config (some opcode)
      (execute chain.recorded environment machine opcode) := by
  have comesTo := execute_comesTo chain.recorded environment machine enough
  generalize execute chain.recorded environment machine opcode = status at comesTo
  cases comesTo with
  | goesOn _ _ _ traces =>
      exact .goesOn { untouched with } (traces.effect untouched allowed rfl rfl)
  | calls operands data =>
      apply Conduct.staticCall
      exact { untouched with }
  | halts halting => exact .finishes halting { untouched with }
  | fails _ traces =>
      exact .fails { untouched with } (traces.effect untouched allowed rfl rfl)
  | crashes _ questions =>
      refine .crashes { untouched with issued_eq := ?_ }
      exact (Chain.record_afterAsking questions machine.chain).trans untouched.issued_eq

theorem expand_conduct (chain : Chain σ) (environment : Environment)
    (untouched : Untouched address callers registers issued machine)
    (enough : opcode.arity.pops ≤ machine.frame.stack.length)
    (allowed : opcode.writes = true → registers.readOnly = false) :
    Conduct address callers registers issued environment.config (some opcode)
      (expand chain.recorded environment machine opcode) := by
  unfold expand
  dsimp only
  split
  · exact .crashes untouched
  · split
    · exact .fail untouched _
    · split
      · exact .fail untouched _
      · refine execute_conduct chain environment ?_ enough allowed
        exact { untouched with }

end Step

theorem step_conduct (chain : Chain σ) (environment : Environment)
    (machine : Machine (σ × List Write)) :
    Conduct machine.frame.address machine.callers machine.registers machine.chain.2
      environment.config (Opcode.ofByte? (machine.frame.code.byteAt machine.frame.pc))
      (machine.step chain.recorded environment) := by
  have untouched : Untouched machine.frame.address machine.callers machine.registers
      machine.chain.2 machine := ⟨⟨rfl, rfl, rfl, rfl⟩, rfl, rfl⟩
  unfold step
  dsimp only
  split
  · exact .fail untouched _
  · next opcode fetched =>
      rw [fetched]
      split
      · exact .fail untouched _
      · next fits =>
          split
          · exact .fail untouched _
          · next free =>
              split
              · exact .fail untouched _
              · next charged paid =>
                  obtain ⟨gas, rfl⟩ := charge?_eq_some paid
                  have enough := (Arity.check_eq_ok_iff.mp fits).1
                  refine expand_conduct chain environment { untouched with } enough ?_
                  intro writes
                  simpa [writes] using free

/-- A frame that ended leaves the machine to the frame that waits for it, which is given the
outcome or fails in turn. -/
theorem unwind_cons (config : MachineConfig) (waiting : Suspended) (callers : List Suspended)
    (machine : Machine (σ × List Write)) (ending : Ending) :
    ∃ back, Untouched waiting.frame.address callers (machine.registers.leave waiting)
        machine.chain.2 back ∧
      ((∃ flag data, unwind config (waiting :: callers) machine ending =
          back.resume waiting.output flag data) ∨
        (∃ fault, unwind config (waiting :: callers) machine ending =
          unwind config callers back (.failed fault)) ∨
        ∃ crash, unwind config (waiting :: callers) machine ending =
          .ended machine (.crashed crash)) := by
  let gas :=
    if config.meterGas then waiting.frame.gas - (waiting.forwarded - machine.frame.gas)
    else waiting.frame.gas
  refine ⟨⟨{ waiting.frame with gas }, callers, machine.registers.leave waiting, machine.chain⟩,
    ⟨⟨rfl, rfl, rfl, rfl⟩, rfl, rfl⟩, ?_⟩
  cases ending with
  | returned data => exact .inl ⟨1, data, rfl⟩
  | reverted data => exact .inl ⟨0, data, rfl⟩
  | failed fault =>
      simp only [unwind]
      split
      · exact .inl ⟨0, ByteArray.empty, rfl⟩
      · exact .inr (.inl ⟨_, rfl⟩)
  | crashed crash => exact .inr (.inr ⟨crash, rfl⟩)

/-- Going back to the frames that wait writes nothing. -/
theorem unwind_keeps (config : MachineConfig) (callers : List Suspended)
    (machine : Machine (σ × List Write)) (ending : Ending) :
    (unwind config callers machine ending).machine.registers.logs = machine.registers.logs ∧
      (unwind config callers machine ending).machine.chain.2 = machine.chain.2 := by
  induction callers generalizing machine ending with
  | nil => exact ⟨rfl, rfl⟩
  | cons waiting callers ih =>
      obtain ⟨back, untouched, ⟨flag, data, unwound⟩ | ⟨fault, unwound⟩ | ⟨crash, unwound⟩⟩ :=
        unwind_cons config waiting callers machine ending
      · rw [unwound]
        rcases resume_cases untouched waiting.output flag data with
          ⟨after, resumed, same⟩ | resumed
        · rw [resumed]
          exact ⟨same.logs_eq, same.issued_eq⟩
        · rw [resumed]
          exact ⟨untouched.logs_eq, untouched.issued_eq⟩
      · rw [unwound, (ih back (.failed fault)).1, (ih back (.failed fault)).2]
        exact ⟨untouched.logs_eq, untouched.issued_eq⟩
      · rw [unwound]
        exact ⟨rfl, rfl⟩

theorem Effect.of_eq {address : Address} {issued : List Write} {writable : Prop}
    {logs : List Log} {after final : Machine (σ × List Write)}
    (effect : Effect address issued writable logs after)
    (same : final.registers.logs = after.registers.logs ∧ final.chain.2 = after.chain.2) :
    Effect address issued writable logs final := by
  obtain ⟨logs_same, issued_same⟩ := same
  cases effect with
  | none logs_eq issued_eq =>
      exact .none (logs_same.trans logs_eq) (issued_same.trans issued_eq)
  | log allowed own logs_eq issued_eq =>
      exact .log allowed own (logs_same.trans logs_eq) (issued_same.trans issued_eq)
  | store allowed logs_eq issued_eq =>
      exact .store allowed (logs_same.trans logs_eq) (issued_same.trans issued_eq)

/-- A step leaves nothing behind, or a log or a stored word of the running frame's account,
which only an instruction with the right to write does. -/
theorem step_effect (chain : Chain σ) (environment : Environment)
    (machine : Machine (σ × List Write)) :
    Effect machine.frame.address machine.chain.2
      (machine.registers.readOnly = false ∧
        (Opcode.ofByte? (machine.frame.code.byteAt machine.frame.pc)).any Opcode.writes = true)
      machine.registers.logs (machine.step chain.recorded environment).machine := by
  have conduct := step_conduct chain environment machine
  generalize machine.step chain.recorded environment = status at conduct
  cases conduct with
  | goesOn _ effect => exact effect
  | calls _ _ _ _ _ logs_eq issued_eq => exact .none logs_eq issued_eq
  | finishes _ untouched =>
      exact Effect.of_eq (.none untouched.logs_eq untouched.issued_eq) (unwind_keeps _ _ _ _)
  | fails _ effect => exact effect.of_eq (unwind_keeps _ _ _ _)
  | crashes untouched => exact .none untouched.logs_eq untouched.issued_eq

end Machine

end EvmAtlas
