import EvmAtlas.Proofs.Returning

/-!
# The arity table describes the stack

Before an instruction is executed, its stack is checked against a table that says how many
operands the instruction takes and how many results it leaves. The table is written apart from
what the instructions do. `Opcode.Replaces` says that a stack changed as the table has it, and
`Machine.Leaves` lists what executing an instruction leaves of the stack: whatever the state of the
machine, a stack that passed the check has the operands of its instruction, and a frame that goes
on, waits or halts has their places filled by the results. So no run finds an operand missing, and
none grows a stack past its limit.
-/

namespace EvmAtlas

variable {σ : Type}

namespace Machine

section Relations

variable (config : MachineConfig) (callers : List Suspended) (opcode : Opcode) (stack : List Word)

/-- A machine with the frames that wait, on which an instruction has put nothing yet. -/
structure Unfilled (machine : Machine σ) : Prop where
  callers_eq : machine.callers = callers
  length_le : machine.frame.stack.length ≤ stack.length

/-- What executing an instruction leaves of the stack that its frame had. That operands are missing
is not among the outcomes. -/
inductive Leaves : Status σ → Prop where
  | goesOn {after : Machine σ} (callers_eq : after.callers = callers)
      (replaced : opcode.Replaces stack after.frame.stack) : Leaves (.running after)
  /-- The frame waits for a callee, whose outcome will give it a flag. -/
  | waits {inner : Machine σ} {waiting : Suspended}
      (callers_eq : inner.callers = waiting :: callers)
      (replaced : ∀ flag, opcode.Replaces stack (flag :: waiting.frame.stack))
      (empty : inner.frame.stack = []) : Leaves (.running inner)
  | halts {last : Machine σ} (reverted : Bool) (data : Bytes) (callers_eq : last.callers = callers)
      (replaced : opcode.Replaces stack last.frame.stack) :
      Leaves (last.finish config (.ofHalt reverted data))
  | fails {failed : Machine σ} {fault : Fault} (unfilled : Unfilled callers stack failed) :
      Leaves (failed.fail config fault)
  | crashes {final : Machine σ} (unfilled : Unfilled callers stack final) :
      Leaves (.ended final (.crashed .memory))

end Relations

variable {config : MachineConfig} {callers : List Suspended} {opcode : Opcode} {stack : List Word}
variable {machine : Machine σ}

namespace Leaves

theorem resume (unfilled : Unfilled callers stack machine)
    (replaced : ∀ flag, opcode.Replaces stack (flag :: machine.frame.stack)) {output : Region}
    {flag : Word} {data : Bytes} :
    Leaves config callers opcode stack (machine.resume output flag data) := by
  unfold Machine.resume
  dsimp only
  split
  · exact .goesOn unfilled.callers_eq (replaced flag)
  · exact .crashes unfilled

theorem staticCall {chain : Chain σ} (unfilled : Unfilled callers stack machine)
    (replaced : ∀ flag, opcode.Replaces stack (flag :: machine.frame.stack)) {callee : Address}
    {input : Bytes} {requested : UInt64} {output : Region} :
    Leaves config callers opcode stack
      (Machine.staticCall chain config machine callee input requested output) := by
  unfold Machine.staticCall
  split
  · exact .resume unfilled replaced
  · dsimp only
    split
    · split
      · apply Leaves.resume
        · exact { unfilled with }
        · exact replaced
      · exact .fails { unfilled with }
    · rw [enter_eq]
      split
      · simp only [finish, unwind, opened]
        apply Leaves.resume
        · exact { unfilled with }
        · exact replaced
      · exact .waits (congrArg _ unfilled.callers_eq) replaced rfl

end Leaves

theorem execute_leaves (chain : Chain σ) (environment : Environment) (machine : Machine σ)
    {opcode : Opcode} (enough : opcode.arity.pops ≤ machine.frame.stack.length) :
    Leaves environment.config machine.callers opcode machine.frame.stack
      (execute chain environment machine opcode) := by
  have comesTo := execute_comesTo chain environment machine enough
  generalize execute chain environment machine opcode = status at comesTo
  cases comesTo with
  | goesOn _ leads _ _ => exact .goesOn rfl leads.replaces
  | calls operands _ isCall stack_eq =>
      subst isCall
      apply Leaves.staticCall
      · constructor
        · rfl
        · rw [stack_eq]
          exact Nat.le_add_right _ 6
      · intro flag
        rw [stack_eq]
        exact (Opcode.Leads.call machine.frame.code machine.frame.pc operands flag).replaces
  | halts _ replaced reverted data => exact .halts reverted data rfl replaced
  | fails => exact .fails ⟨rfl, Nat.le_refl _⟩
  | crashes => exact .crashes ⟨rfl, Nat.le_refl _⟩

/-! ## How a machine ends -/

theorem ending_of_resume {output : Region} {flag : Word} {data : Bytes} {final : Machine σ}
    {ending : Ending} (resumed : machine.resume output flag data = .ended final ending) :
    ending = .crashed .memory := by
  unfold resume at resumed
  dsimp only at resumed
  split at resumed
  · cases resumed
  · cases resumed
    rfl

/-- A machine that ends with a frame that halts does so with this frame, unless the memory of a
waiting frame is missing. -/
theorem ending_of_halts {last final : Machine σ} {reverted : Bool} {data : Bytes}
    {ending : Ending}
    (finished : last.finish config (.ofHalt reverted data) = .ended final ending) :
    ending = .crashed .memory ∨
      ending = .ofHalt reverted data ∧ final.frame = last.frame := by
  obtain ⟨frame, callers, registers, state⟩ := last
  cases callers with
  | nil =>
      cases finished
      exact .inr ⟨rfl, rfl⟩
  | cons waiting callers =>
      cases reverted with
      | true => exact .inl (ending_of_resume finished)
      | false => exact .inl (ending_of_resume finished)

theorem ending_of_fails {last final : Machine σ} {fault : Fault} {ending : Ending}
    (unwound : unwind config callers last (.failed fault) = .ended final ending) :
    ending = .crashed .memory ∨ ∃ outer, ending = .failed outer := by
  induction callers generalizing last fault with
  | nil =>
      cases unwound
      exact .inr ⟨fault, rfl⟩
  | cons waiting callers ih =>
      simp only [unwind] at unwound
      split at unwound
      · exact .inl (ending_of_resume unwound)
      · exact ih unwound

/-- A machine that goes on after a frame has ended has fewer frames that wait. -/
theorem fewer_of_finish {last after : Machine σ} {ending : Ending}
    (finished : last.finish config ending = .running after) :
    after.callers.length < last.callers.length := by
  obtain ⟨_, _, suffix, -⟩ := unwind_eq_running finished
  exact suffix.length_le

namespace Leaves

variable {status : Status σ} (leaves : Leaves config callers opcode stack status)

include leaves

/-- A machine that runs on with no fewer frames that wait has the results in the place of the
operands, or its frame waits and will have them. -/
theorem runs_on {after : Machine σ} (runs : status = .running after)
    (level : callers.length ≤ after.callers.length) :
    (after.callers = callers ∧ opcode.Replaces stack after.frame.stack) ∨
      ∃ waiting, after.callers = waiting :: callers ∧
        ∀ flag, opcode.Replaces stack (flag :: waiting.frame.stack) := by
  cases leaves with
  | goesOn callers_eq replaced =>
      cases runs
      exact .inl ⟨callers_eq, replaced⟩
  | waits callers_eq replaced =>
      cases runs
      exact .inr ⟨_, callers_eq, replaced⟩
  | halts _ _ callers_eq =>
      have fewer := fewer_of_finish runs
      rw [callers_eq] at fewer
      exact absurd level (Nat.not_le_of_lt fewer)
  | fails unfilled =>
      have fewer := fewer_of_finish runs
      rw [unfilled.callers_eq] at fewer
      exact absurd level (Nat.not_le_of_lt fewer)
  | crashes => cases runs

/-- A machine that ends lacks memory, or an instruction has failed, or its frame has halted. -/
theorem ended {final : Machine σ} {ending : Ending} (ends : status = .ended final ending) :
    ending = .crashed .memory ∨ (∃ fault, ending = .failed fault) ∨
      ∃ reverted data, ending = .ofHalt reverted data ∧
        opcode.Replaces stack final.frame.stack := by
  cases leaves with
  | goesOn => cases ends
  | waits => cases ends
  | halts reverted data _ replaced =>
      rcases ending_of_halts ends with crashed | ⟨halted, frame_eq⟩
      · exact .inl crashed
      · rw [frame_eq]
        exact .inr (.inr ⟨reverted, data, halted, replaced⟩)
  | fails =>
      rcases ending_of_fails ends with crashed | failed
      · exact .inl crashed
      · exact .inr (.inl failed)
  | crashes =>
      cases ends
      exact .inl rfl

theorem replaced_of_running {after : Machine σ} (runs : status = .running after)
    (callers_eq : after.callers = callers) : opcode.Replaces stack after.frame.stack := by
  have level : callers.length ≤ after.callers.length := by rw [callers_eq]
  rcases leaves.runs_on runs level with ⟨-, replaced⟩ | ⟨waiting, deeper, -⟩
  · exact replaced
  · exact absurd (deeper.symm.trans callers_eq) (List.cons_ne_self _ _)

theorem replaced_of_waits {inner : Machine σ} {waiting : Suspended}
    (runs : status = .running inner) (callers_eq : inner.callers = waiting :: callers)
    (flag : Word) : opcode.Replaces stack (flag :: waiting.frame.stack) := by
  have level : callers.length ≤ inner.callers.length := by
    rw [callers_eq]
    exact Nat.le_succ _
  rcases leaves.runs_on runs level with ⟨same, -⟩ | ⟨_, same, replaced⟩
  · exact absurd (callers_eq.symm.trans same) (List.cons_ne_self _ _)
  · cases callers_eq.symm.trans same
    exact replaced flag

theorem replaced_of_halts {final : Machine σ} {reverted : Bool} {data : Bytes}
    (ends : status = .ended final (.ofHalt reverted data)) :
    opcode.Replaces stack final.frame.stack := by
  rcases leaves.ended ends with crashed | ⟨fault, failed⟩ | ⟨_, _, -, replaced⟩
  · exact absurd crashed Ending.ofHalt_ne_crashed
  · exact absurd failed Ending.ofHalt_ne_failed
  · exact replaced

theorem ne_stackCrash (final : Machine σ) : status ≠ .ended final (.crashed .stack) := by
  intro ends
  rcases leaves.ended ends with crashed | ⟨fault, failed⟩ | ⟨_, _, halted, -⟩
  · cases crashed
  · cases failed
  · exact absurd halted.symm Ending.ofHalt_ne_crashed

end Leaves

/-! ## Runs -/

/-- A machine none of whose stacks is higher than the limit. A frame that waits has room for its
flag. -/
structure Low (machine : Machine σ) : Prop where
  running : machine.frame.stack.length ≤ stackLimit
  waiting : ∀ waiting ∈ machine.callers, waiting.frame.stack.length < stackLimit

theorem resume_low {output : Region} {flag : Word} {data : Bytes}
    (room : machine.frame.stack.length < stackLimit)
    (others : ∀ waiting ∈ machine.callers, waiting.frame.stack.length < stackLimit) :
    (machine.resume output flag data).machine.Low := by
  unfold resume
  dsimp only
  split
  · exact ⟨room, others⟩
  · exact ⟨Nat.le_of_lt room, others⟩

theorem unwind_low (low : machine.Low)
    (others : ∀ waiting ∈ callers, waiting.frame.stack.length < stackLimit) (ending : Ending) :
    (unwind config callers machine ending).machine.Low := by
  induction callers generalizing machine ending with
  | nil => exact { low with }
  | cons waiting callers ih =>
      rw [List.forall_mem_cons] at others
      obtain ⟨room, others⟩ := others
      cases ending with
      | returned data => exact resume_low room others
      | reverted data => exact resume_low room others
      | crashed crash => exact low
      | failed fault =>
          simp only [unwind]
          split
          · exact resume_low room others
          · exact ih ⟨Nat.le_of_lt room, others⟩ others _

theorem Leaves.low {status : Status σ} (leaves : Leaves config callers opcode stack status)
    (fits : opcode.arity.check stack.length = .ok ()) (limited : stack.length ≤ stackLimit)
    (others : ∀ waiting ∈ callers, waiting.frame.stack.length < stackLimit) :
    status.machine.Low := by
  have unfilledLow {failed : Machine σ} (unfilled : Unfilled callers stack failed) :
      failed.Low := by
    constructor
    · exact unfilled.length_le.trans limited
    · rw [unfilled.callers_eq]
      exact others
  cases leaves with
  | goesOn callers_eq replaced =>
      constructor
      · exact replaced.length_le fits
      · intro waiting member
        exact others waiting (callers_eq ▸ member)
  | @waits inner waiting callers_eq replaced empty =>
      constructor
      · change inner.frame.stack.length ≤ stackLimit
        rw [empty]
        exact Nat.zero_le _
      · intro waiting member
        rcases List.mem_cons.mp (callers_eq ▸ member) with rfl | member
        · exact (replaced 0).length_le fits
        · exact others waiting member
  | @halts last reverted data callers_eq replaced =>
      have low : last.Low := by
        constructor
        · exact replaced.length_le fits
        · rw [callers_eq]
          exact others
      exact unwind_low low low.waiting _
  | fails unfilled =>
      have low := unfilledLow unfilled
      exact unwind_low low low.waiting _
  | crashes unfilled => exact unfilledLow unfilled

section Run

variable {chain : Chain σ} {environment : Environment}

/-- A step refuses its instruction, or it executes one that the stack has passed the check of. -/
theorem step_leaves (chain : Chain σ) (environment : Environment) (machine : Machine σ) :
    (∃ fault, machine.step chain environment = machine.fail environment.config fault) ∨
      ∃ opcode, machine.fetched? = some opcode ∧
        opcode.arity.check machine.frame.stack.length = .ok () ∧
        Leaves environment.config machine.callers opcode machine.frame.stack
          (machine.step chain environment) := by
  unfold step
  dsimp only
  split
  · exact .inl ⟨_, rfl⟩
  · next opcode fetched =>
      split
      · exact .inl ⟨_, rfl⟩
      · next fits =>
          split
          · exact .inl ⟨_, rfl⟩
          · split
            · exact .inl ⟨_, rfl⟩
            · next charged paid =>
                obtain ⟨gas, rfl⟩ := charge?_eq_some paid
                have enough := (Arity.check_eq_ok_iff.mp fits).1
                obtain ⟨regions, regions_eq⟩ := Opcode.exists_regions? enough
                refine .inr ⟨opcode, fetched, fits, ?_⟩
                simp only [expand, regions_eq]
                split
                · exact .fails ⟨rfl, Nat.le_refl _⟩
                · split
                  · exact .fails ⟨rfl, Nat.le_refl _⟩
                  · let charged : Machine σ := { machine with frame := { machine.frame with gas } }
                    exact execute_leaves chain environment (charged.mapMemory _) enough

theorem step_low (low : machine.Low) : (machine.step chain environment).machine.Low := by
  rcases step_leaves chain environment machine with ⟨fault, refused⟩ | ⟨_, _, fits, leaves⟩
  · rw [refused]
    exact unwind_low low low.waiting _
  · exact leaves.low fits low.running low.waiting

theorem step_ne_stackCrash (final : Machine σ) :
    machine.step chain environment ≠ .ended final (.crashed .stack) := by
  rcases step_leaves chain environment machine with ⟨fault, refused⟩ | ⟨_, _, _, leaves⟩
  · rw [refused]
    intro ends
    rcases ending_of_fails ends with crashed | ⟨outer, failed⟩
    · cases crashed
    · cases failed
  · exact leaves.ne_stackCrash final

theorem run_low (steps : Nat) {status : Status σ} (low : status.machine.Low) :
    (run chain environment steps status).machine.Low := by
  induction steps generalizing status with
  | zero => exact low
  | succ steps ih =>
      cases status with
      | running machine => exact ih (step_low low)
      | ended final ending => exact low

theorem run_ne_stackCrash (steps : Nat) {status : Status σ}
    (operands : ∀ final, status ≠ .ended final (.crashed .stack)) (final : Machine σ) :
    run chain environment steps status ≠ .ended final (.crashed .stack) := by
  induction steps generalizing status with
  | zero => exact operands final
  | succ steps ih =>
      cases status with
      | running machine => exact ih step_ne_stackCrash
      | ended machine ending => exact operands final

theorem begin_low (config : MachineConfig) (registers : Registers) (call : Call) (code : Bytes)
    (state : σ) : (begin config registers call code state).machine.Low := by
  unfold begin
  dsimp only
  split
  · exact ⟨Nat.zero_le _, nofun⟩
  · exact ⟨Nat.zero_le _, nofun⟩

theorem begin_ne_stackCrash (config : MachineConfig) (registers : Registers) (call : Call)
    (code : Bytes) (state : σ) (final : Machine σ) :
    begin config registers call code state ≠ .ended final (.crashed .stack) := by
  unfold begin
  dsimp only
  split
  · nofun
  · nofun

/-- A frame that has executed an instruction, and any call that it made, has the results in the
place of the operands. -/
theorem Executes.replaced {after : Machine σ} (executes : machine.Executes chain environment after)
    (fetched : machine.fetched? = some opcode) :
    opcode.Replaces machine.frame.stack after.frame.stack := by
  obtain ⟨size, cleared⟩ := executes.exists_cleared fetched
  cases executes.executed cleared with
  | moves _ stepped =>
      rcases step_leaves chain environment machine with ⟨fault, refused⟩ | ⟨_, other, _, leaves⟩
      · have fewer := fewer_of_finish (refused.symm.trans stepped)
        rw [executes.callers_eq] at fewer
        exact absurd fewer (Nat.lt_irrefl _)
      · cases fetched.symm.trans other
        exact leaves.replaced_of_running stepped executes.callers_eq
  | @calls operands frame flag data called asks _ resumed =>
      subst called
      have before_eq : machine.frame.stack = operands.stack := asks.stack_eq
      apply Opcode.Replaces.of_results [flag] rfl
      rw [resumed.stack_eq, asks.rest_eq, before_eq]
      rfl

end Run

end Machine

/-- The arity table describes what instructions do. Executing an instruction on a stack that passed
its check never finds an operand missing, whatever the rest of the machine's state. If the frame
goes on, as many results as the table says stand in the place of as many operands, and nothing
below has changed; if it waits for a callee, they will once it is given its flag; and if it halts,
they do on the stack that it leaves. The same holds of a frame that has executed an instruction of
its code together with any call that it made. So at every point of every run, and also where it
ends, no frame has a stack above the limit, and no run crashes for want of an operand. -/
theorem arity_describes_stack (chain : Chain σ) :
    (∀ (environment : Environment) (machine : Machine σ) (opcode : Opcode),
      opcode.arity.check machine.frame.stack.length = .ok () →
      (∀ after, Machine.execute chain environment machine opcode = .running after →
        after.callers = machine.callers →
        opcode.Replaces machine.frame.stack after.frame.stack) ∧
      (∀ inner waiting, Machine.execute chain environment machine opcode = .running inner →
        inner.callers = waiting :: machine.callers →
        ∀ flag, opcode.Replaces machine.frame.stack (flag :: waiting.frame.stack)) ∧
      (∀ final reverted data,
        Machine.execute chain environment machine opcode =
          .ended final (.ofHalt reverted data) →
        opcode.Replaces machine.frame.stack final.frame.stack) ∧
      ∀ final, Machine.execute chain environment machine opcode ≠
        .ended final (.crashed .stack)) ∧
    (∀ (environment : Environment) (machine after : Machine σ) (opcode : Opcode),
      machine.fetched? = some opcode → machine.Executes chain environment after →
      opcode.Replaces machine.frame.stack after.frame.stack) ∧
    ∀ (interpreter : Interpreter) (call : Call) (state after : σ) (code : Bytes),
      chain.code call.address state = (.ok code, after) → ∀ steps,
      let status := Machine.run chain interpreter.environment steps
        (Machine.begin interpreter.environment.config interpreter.registers call code after)
      status.machine.frame.stack.length ≤ stackLimit ∧
      (∀ waiting ∈ status.machine.callers, waiting.frame.stack.length < stackLimit) ∧
      ∀ final, status ≠ .ended final (.crashed .stack) := by
  refine ⟨?_, ?_, ?_⟩
  · intro environment machine opcode fits
    have leaves := Machine.execute_leaves chain environment machine
      (Arity.check_eq_ok_iff.mp fits).1
    refine ⟨?_, ?_, ?_, leaves.ne_stackCrash⟩
    · intro after runs callers_eq
      exact leaves.replaced_of_running runs callers_eq
    · intro inner waiting runs callers_eq flag
      exact leaves.replaced_of_waits runs callers_eq flag
    · intro final reverted data ends
      exact leaves.replaced_of_halts ends
  · intro environment machine after opcode fetched executes
    exact executes.replaced fetched
  · intro interpreter call state after code _ steps
    obtain ⟨running, waiting⟩ := Machine.run_low steps
      (Machine.begin_low interpreter.environment.config interpreter.registers call code after)
    refine ⟨running, waiting, ?_⟩
    exact Machine.run_ne_stackCrash steps (Machine.begin_ne_stackCrash _ _ call code after)

/-- An account whose code puts another word on the stack each time around. -/
def growingAccounts : StateSet :=
  ({} : StateSet).setCode 0 (Bytes.ofList [0x5b, 0x60, 0x00, 0x60, 0x00, 0x56])

/-- An exchange keeps its cells, a static call leaves a flag for its six operands, and a loop that
pushes does not get past the limit however long it runs. -/
theorem growingAccounts_stack_le :
    (∃ after, Machine.execute (StateSet.chain .whole) meteringInterpreter.environment
        forwardingCaller (.swap 1) = .running after ∧
      after.frame.stack.length = 6 ∧ after.frame.stack.drop 3 = [0, 0, 0]) ∧
    (afterForwarding (afterForwarding (afterForwarding (afterForwarding
      forwardingCaller)))).frame.stack.length = 1 ∧
    ∀ steps, (Machine.run (StateSet.chain .whole) meteringInterpreter.environment steps
      (Machine.begin meteringInterpreter.environment.config {} { gas := 1000000 }
        (growingAccounts.account 0).code growingAccounts)).machine.frame.stack.length ≤ 1024 := by
  have words : forwardingCaller.frame.stack = [100, 1, 0, 0, 0, 0] := by decide +kernel
  refine ⟨?_, ?_, ?_⟩
  · obtain ⟨goesOn, -⟩ := (arity_describes_stack (StateSet.chain .whole)).1
      meteringInterpreter.environment forwardingCaller (.swap 1) (by rw [words]; decide)
    have moved : Machine.execute (StateSet.chain .whole) meteringInterpreter.environment
        forwardingCaller (.swap 1) = forwardingCaller.next [0, 1, 100, 0, 0, 0] := by
      simp only [Machine.execute, words]
      rfl
    have replaced := goesOn _ moved rfl
    refine ⟨_, moved, ?_, ?_⟩
    · rw [replaced.length_eq, words]
      rfl
    · rw [show 3 = (Opcode.swap 1).arity.pushes from rfl, replaced.below_eq, words]
      rfl
  · have replaced := (arity_describes_stack (StateSet.chain .whole)).2.1
      meteringInterpreter.environment forwardingCaller _ .staticcall (by decide +kernel)
      forwardingCaller_executes
    rw [replaced.length_eq, words]
    rfl
  · intro steps
    exact ((arity_describes_stack (StateSet.chain .whole)).2.2 meteringInterpreter
      { gas := 1000000 } growingAccounts growingAccounts _ rfl steps).1

end EvmAtlas
