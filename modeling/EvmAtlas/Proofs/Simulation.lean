import EvmAtlas.Chain.Records
import EvmAtlas.Proofs.Coupling

/-!
# Chains that answer alike

Two chains over different states answer alike if questions and writes to related states
give one answer and leave related states behind. A machine cannot tell such chains apart:
`call_alike` says that a call comes to the same verdict on both, with the same registers,
and that the states it leaves are related again.
-/

namespace EvmAtlas

variable {σ τ : Type}

section Alike

variable (related : σ → τ → Prop)

/-- Questions to related states that have one answer and leave related states. -/
def Access.Alike {α : Type} (left : Access σ α) (right : Access τ α) : Prop :=
  ∀ ⦃state : σ⦄ ⦃other : τ⦄, related state other →
    (left state).1 = (right other).1 ∧ related (left state).2 (right other).2

/-- Chains that answer every question and every write alike. -/
structure Chain.Alike (left : Chain σ) (right : Chain τ) : Prop where
  block : Access.Alike related left.block right.block
  nonce : ∀ address, Access.Alike related (left.nonce address) (right.nonce address)
  balance : ∀ address, Access.Alike related (left.balance address) (right.balance address)
  code : ∀ address, Access.Alike related (left.code address) (right.code address)
  storage : ∀ address slot,
    Access.Alike related (left.storage address slot) (right.storage address slot)
  writer : Option.Rel
    (fun left right => ∀ write, Access.Alike related (left.perform write) (right.perform write))
    left.writer right.writer

/-- Machines that differ in the state of their chain at most. -/
inductive Status.Alike : Status σ → Status τ → Prop where
  | running {frame : Frame} {callers : List Suspended} {registers : Registers} {state : σ}
      {other : τ} (near : related state other) :
      Alike (.running ⟨frame, callers, registers, state⟩)
        (.running ⟨frame, callers, registers, other⟩)
  | ended {frame : Frame} {callers : List Suspended} {registers : Registers} {ending : Ending}
      {state : σ} {other : τ} (near : related state other) :
      Alike (.ended ⟨frame, callers, registers, state⟩ ending)
        (.ended ⟨frame, callers, registers, other⟩ ending)

end Alike

theorem Access.Alike.exists_answer {α : Type} {related : σ → τ → Prop} {left : Access σ α}
    {right : Access τ α} (alike : Access.Alike related left right) {state : σ} {other : τ}
    (near : related state other) :
    ∃ answer after otherAfter, left state = (answer, after) ∧
      right other = (answer, otherAfter) ∧ related after otherAfter := by
  obtain ⟨same, stillNear⟩ := alike near
  exact ⟨_, _, _, rfl, Prod.ext same.symm rfl, stillNear⟩

/-- Both sides of a test that does not look at the chain. -/
theorem Status.Alike.ite {related : σ → τ → Prop} {test : Prop} [Decidable test]
    {holds fails : Status σ} {otherHolds otherFails : Status τ}
    (ifHolds : Status.Alike related holds otherHolds)
    (ifFails : Status.Alike related fails otherFails) :
    Status.Alike related (if test then holds else fails)
      (if test then otherHolds else otherFails) := by
  split
  · exact ifHolds
  · exact ifFails

namespace Machine

variable {related : σ → τ → Prop} {state : σ} {other : τ}
variable {frame : Frame} {callers : List Suspended} {registers : Registers}
variable {config : MachineConfig} {environment : Environment} {opcode : Opcode}

theorem resume_alike {output : Region} {flag : Word} {data : Bytes}
    (near : related state other) :
    Status.Alike related (resume ⟨frame, callers, registers, state⟩ output flag data)
      (resume ⟨frame, callers, registers, other⟩ output flag data) := by
  apply Status.Alike.ite
  · exact .running near
  · exact .ended near

theorem load_alike {offset length : Word} {left : Bytes → Status σ} {right : Bytes → Status τ}
    (near : related state other)
    (used : ∀ data, Status.Alike related (left data) (right data)) :
    Status.Alike related (load ⟨frame, callers, registers, state⟩ offset length left)
      (load ⟨frame, callers, registers, other⟩ offset length right) := by
  unfold load
  cases read : frame.memory.readWords? offset length with
  | none => exact .ended near
  | some data => exact used data

/-- The frames that wait are the same on both sides, so the same one goes on. -/
theorem unwind_alike {waiting : List Suspended} {ending : Ending}
    (near : related state other) :
    Status.Alike related (unwind config waiting ⟨frame, callers, registers, state⟩ ending)
      (unwind config waiting ⟨frame, callers, registers, other⟩ ending) := by
  induction waiting generalizing frame callers registers ending with
  | nil => exact .ended near
  | cons suspended waiting ih =>
      cases ending with
      | returned data => exact resume_alike near
      | reverted data => exact resume_alike near
      | failed fault =>
          apply Status.Alike.ite
          · exact resume_alike near
          · exact ih
      | crashed crash => exact .ended near

theorem ask_alike {α : Type} {left : Access σ α} {right : Access τ α} {context : Context}
    {use : α → Machine σ → Status σ} {useOther : α → Machine τ → Status τ}
    (alike : Access.Alike related left right) (near : related state other)
    (used : ∀ answer state other, related state other → Status.Alike related
      (use answer ⟨frame, callers, registers, state⟩)
      (useOther answer ⟨frame, callers, registers, other⟩)) :
    Status.Alike related (ask config ⟨frame, callers, registers, state⟩ left context use)
      (ask config ⟨frame, callers, registers, other⟩ right context useOther) := by
  obtain ⟨answer, after, otherAfter, asked, otherAsked, near⟩ := alike.exists_answer near
  unfold ask
  rw [asked, otherAsked]
  cases answer with
  | ok answer => exact used answer after otherAfter near
  | error fault => exact unwind_alike near

theorem enter_alike {callee : Address} {code input : Bytes} {gas : UInt64} {output : Region}
    (near : related state other) :
    Status.Alike related
      (enter config ⟨frame, callers, registers, state⟩ callee code input gas output)
      (enter config ⟨frame, callers, registers, other⟩ callee code input gas output) := by
  apply Status.Alike.ite
  · exact unwind_alike near
  · exact .running near

theorem begin_alike (near : related state other) (config : MachineConfig)
    (registers : Registers) (call : Call) (code : Bytes) :
    Status.Alike related (begin config registers call code state)
      (begin config registers call code other) := by
  apply Status.Alike.ite
  · exact unwind_alike near
  · exact .running near

theorem answersBoth_of_alike {α : Type} {left : Access σ α} {right : Access τ α}
    (alike : Access.Alike related left right) :
    AnswersBoth (fun machine twin => Status.Alike related (.running machine) (.running twin))
      left right := by
  rintro _ _ ⟨near⟩
  obtain ⟨answer, after, otherAfter, asked, otherAsked, near⟩ := alike.exists_answer near
  exact ⟨answer, after, otherAfter, asked, otherAsked, .running near⟩

section Chains

variable {left : Chain σ} {right : Chain τ} (alike : Chain.Alike related left right)

include alike

theorem staticCall_alike {callee : Address} {input : Bytes} {requested : UInt64}
    {output : Region} (near : related state other) :
    Status.Alike related
      (staticCall left config ⟨frame, callers, registers, state⟩ callee input requested output)
      (staticCall right config ⟨frame, callers, registers, other⟩ callee input requested
        output) := by
  apply Status.Alike.ite
  · exact resume_alike near
  · obtain ⟨answer, after, otherAfter, asked, otherAsked, near⟩ :=
      (alike.code callee).exists_answer near
    rw [asked, otherAsked]
    cases answer with
    | ok code => exact enter_alike near
    | error fault =>
        apply Status.Alike.ite
        · exact resume_alike near
        · exact unwind_alike near

theorem coupling_alike (config : MachineConfig) :
    Coupling left right config config
      (fun machine twin => Status.Alike related (.running machine) (.running twin))
      (Status.Alike related) where
  memoryLimit_eq := rfl
  frame_eq := by
    rintro _ _ ⟨near⟩
    rfl
  returnData_eq := by
    rintro _ _ ⟨near⟩
    rfl
  moves := by
    rintro _ _ ⟨near⟩ stack pc memory
    exact .running near
  goesOn := id
  ends := by
    rintro _ _ ⟨near⟩ ending
    exact unwind_alike near
  crashes := by
    rintro _ _ ⟨near⟩ crash
    exact .ended near
  nonce address := answersBoth_of_alike (alike.nonce address)
  balance address := answersBoth_of_alike (alike.balance address)
  code address := answersBoth_of_alike (alike.code address)
  storage address slot := answersBoth_of_alike (alike.storage address slot)
  calls := by
    rintro _ _ ⟨near⟩ callee input requested output
    exact staticCall_alike alike near

theorem execute_writing_alike (writes : opcode.writes = true) (near : related state other) :
    Status.Alike related
      (execute left environment ⟨frame, callers, registers, state⟩ opcode)
      (execute right environment ⟨frame, callers, registers, other⟩ opcode) := by
  obtain ⟨caller, address, code, input, value, gas, pc, stack, memory⟩ := frame
  cases opcode with
  | sstore =>
      have writer := alike.writer
      simp only [execute]
      generalize left.writer = first at writer
      generalize right.writer = second at writer
      cases writer with
      | none => exact unwind_alike near
      | some performs =>
          rcases stack with _ | ⟨slot, _ | ⟨value, rest⟩⟩
          · exact .ended near
          · exact .ended near
          · refine ask_alike (performs (.storage address slot value)) near
              fun _ _ _ near => ?_
            exact .running near
  | log topics =>
      rcases stack with _ | ⟨offset, _ | ⟨length, rest⟩⟩
      · exact .ended near
      · exact .ended near
      · apply Status.Alike.ite
        · exact .ended near
        · exact load_alike near fun data => .running near
  | unsupported => exact unwind_alike near
  | _ => cases writes

theorem expand_alike (near : related state other) :
    Status.Alike related
      (expand left environment ⟨frame, callers, registers, state⟩ opcode)
      (expand right environment ⟨frame, callers, registers, other⟩ opcode) := by
  refine (coupling_alike alike environment.config).expand (.running near) ?_ fun _ => rfl
  rintro writes _ _ ⟨near⟩
  exact execute_writing_alike alike writes near

theorem step_alike (near : related state other) :
    Status.Alike related
      (step left environment ⟨frame, callers, registers, state⟩)
      (step right environment ⟨frame, callers, registers, other⟩) := by
  unfold step
  dsimp only
  cases Opcode.ofByte? (frame.code.byteAt frame.pc) with
  | none => exact unwind_alike near
  | some opcode =>
      dsimp only
      cases opcode.arity.check frame.stack.length with
      | error fault => exact unwind_alike near
      | ok _ =>
          apply Status.Alike.ite
          · exact unwind_alike near
          · cases charge? environment.config frame opcode with
            | none => exact unwind_alike near
            | some charged => exact expand_alike alike near

/-- Machines that differ in the state of their chain only never come to differ in more. -/
theorem run_alike (environment : Environment) (steps : Nat) {status : Status σ}
    {otherStatus : Status τ} (near : Status.Alike related status otherStatus) :
    Status.Alike related (run left environment steps status)
      (run right environment steps otherStatus) := by
  induction steps generalizing status otherStatus with
  | zero => exact near
  | succ steps ih =>
      cases near with
      | running near => exact ih (step_alike alike near)
      | ended near => exact .ended near

end Chains

end Machine

/-- A call comes to the same on chains that answer alike. -/
theorem Interpreter.call_alike {related : σ → τ → Prop} {left : Chain σ} {right : Chain τ}
    (alike : Chain.Alike related left right) (interpreter : Interpreter) (call : Call)
    (steps : Nat) {state : σ} {other : τ} (near : related state other) :
    (interpreter.call left call steps state).1 = (interpreter.call right call steps other).1 ∧
      (interpreter.call left call steps state).2.1 =
        (interpreter.call right call steps other).2.1 ∧
      related (interpreter.call left call steps state).2.2
        (interpreter.call right call steps other).2.2 := by
  obtain ⟨answer, after, otherAfter, asked, otherAsked, near⟩ :=
    (alike.code call.address).exists_answer near
  unfold Interpreter.call
  rw [asked, otherAsked]
  cases answer with
  | error fault => exact ⟨rfl, rfl, near⟩
  | ok code =>
      have ran := Machine.run_alike alike interpreter.environment steps
        (Machine.begin_alike near interpreter.environment.config interpreter.registers call
          code)
      dsimp only
      generalize Machine.run left interpreter.environment steps _ = status at ran
      generalize Machine.run right interpreter.environment steps _ = otherStatus at ran
      cases ran with
      | running near => exact ⟨rfl, rfl, near⟩
      | ended near => exact ⟨rfl, rfl, near⟩

theorem evaluate_alike {related : σ → τ → Prop} {left : Chain σ} {right : Chain τ}
    (alike : Chain.Alike related left right) (block : Option BlockInfo)
    (transaction : Option TransactionInfo) (call : Call) (config : Option MachineConfig)
    (steps : Nat) {state : σ} {other : τ} (near : related state other) :
    (evaluate left block transaction call config steps state).1 =
        (evaluate right block transaction call config steps other).1 ∧
      related (evaluate left block transaction call config steps state).2
        (evaluate right block transaction call config steps other).2 := by
  have ran (block : BlockInfo) {state : σ} {other : τ} (near : related state other) :=
    (Interpreter.fresh (some block) transaction config).call_alike alike call steps near
  cases block with
  | some block =>
      obtain ⟨verdict_eq, -, near⟩ := ran block near
      exact ⟨verdict_eq, near⟩
  | none =>
      obtain ⟨answer, after, otherAfter, asked, otherAsked, near⟩ :=
        alike.block.exists_answer near
      unfold evaluate
      rw [asked, otherAsked]
      cases answer with
      | error fault => exact ⟨rfl, near⟩
      | ok block =>
          obtain ⟨verdict_eq, -, near⟩ := ran block near
          exact ⟨verdict_eq, near⟩

end EvmAtlas
