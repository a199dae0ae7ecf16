import EvmAtlas.Proofs.Execution

/-!
# What one step can do

`Code.Moves` says what an instruction that completes does to the position and the stack of
its frame, and `Code.Raises` with which faults the frame can stop. Everything that one step
of a machine can lead to is listed in `Machine.Outcome`, and `step_outcome` shows that
nothing else happens: the frame goes on, it waits for a call it makes, it ends, or it
fails.
-/

namespace EvmAtlas

variable {σ : Type}

namespace Arity

variable {arity : Arity} {height : Nat}

theorem cause_of_check {fault : Fault} (failed : arity.check height = .error fault) :
    (fault.cause = .stackUnderflow ∧ height < arity.pops) ∨
      (fault.cause = .stackOverflow ∧ stackLimit + arity.pops < height + arity.pushes) := by
  unfold check at failed
  dsimp only at failed
  split at failed
  · cases failed
    exact .inl ⟨rfl, by omega⟩
  · split at failed
    · cases failed
      exact .inr ⟨rfl, by omega⟩
    · cases failed

end Arity

namespace Code

/-- What an instruction that completes does to the position and the stack of its frame.
The results of most instructions are told apart only as far as they can be computed
ahead. -/
inductive Moves (code : Code) (pc : UInt64) (stack : List Word) :
    UInt64 → List Word → Prop where
  | straight {opcode : Opcode} {after : List Word}
      (fetched : Opcode.ofByte? (code.byteAt pc) = some opcode)
      (straight : opcode.isStraight = true)
      (fits : opcode.arity.check stack.length = .ok ())
      (described : SymStack.Describes (opcode.applySym (stack.map some)) after) :
      Moves code pc stack (pc + 1) after
  | push {index : Fin 32} (fetched : Opcode.ofByte? (code.byteAt pc) = some (.push index))
      (fits : (Opcode.push index).arity.check stack.length = .ok ()) :
      Moves code pc stack (pc + UInt64.ofNat (index.val + 2))
        (code.immediate (pc + 1) (index.val + 1) :: stack)
  | jump {destination : Word} {rest : List Word}
      (fetched : Opcode.ofByte? (code.byteAt pc) = some .jump)
      (operands : stack = destination :: rest)
      (lands : code.isJumpDestination destination = true) :
      Moves code pc stack destination.low64 rest
  | branch {destination condition : Word} {rest : List Word}
      (fetched : Opcode.ofByte? (code.byteAt pc) = some .jumpi)
      (operands : stack = destination :: condition :: rest) (holds : condition ≠ 0)
      (lands : code.isJumpDestination destination = true) :
      Moves code pc stack destination.low64 rest
  | next {destination : Word} {rest : List Word}
      (fetched : Opcode.ofByte? (code.byteAt pc) = some .jumpi)
      (operands : stack = destination :: 0 :: rest) :
      Moves code pc stack (pc + 1) rest

end Code

/-- Whether a fault is the chain's answer to a question, rather than the frame's own. -/
def Fault.isAnswer (fault : Fault) : Bool :=
  fault.contexts.head?.any Context.isQuestion

/-- Whether a cause is a right or a resource that ran out, or an instruction that the
machine does not run. -/
def Cause.isRefusal : Cause → Bool
  | .writeProtection | .readOnlyState | .outOfGas | .memoryLimit | .gasOverflow => true
  | .unsupportedOpcode _ => true
  | _ => false

namespace Code

/-- The faults that a frame can stop with. -/
inductive Raises (code : Code) (pc : UInt64) (stack : List Word) : Fault → Prop where
  | unassigned (absent : Opcode.ofByte? (code.byteAt pc) = none) :
      Raises code pc stack (.met (.invalidByteAt (code.byteAt pc) pc) .invalidOpcode)
  | arity {opcode : Opcode} {fault : Fault}
      (fetched : Opcode.ofByte? (code.byteAt pc) = some opcode)
      (check : opcode.arity.check stack.length = .error fault) :
      Raises code pc stack (fault.within (.instruction opcode pc))
  | jump {opcode : Opcode} {destination : Word} {rest : List Word}
      (fetched : Opcode.ofByte? (code.byteAt pc) = some opcode)
      (jumps : opcode = .jump ∨ opcode = .jumpi) (operands : stack = destination :: rest)
      (nowhere : code.isJumpDestination destination = false) :
      Raises code pc stack (.met (.destination destination) .invalidJump)
  | refused {fault : Fault} (refusal : fault.cause.isRefusal = true) :
      Raises code pc stack fault
  | answered {opcode : Opcode} {fault : Fault} {question : Context}
      (fetched : Opcode.ofByte? (code.byteAt pc) = some opcode)
      (straight : opcode.isStraight = true) (asked : question.isQuestion = true) :
      Raises code pc stack (fault.within question)

end Code

theorem Opcode.Leads.moves {code : Code} {pc after : UInt64} {stack left : List Word}
    {opcode : Opcode} (leads : opcode.Leads code pc stack after left)
    (fetched : Opcode.ofByte? (code.byteAt pc) = some opcode)
    (fits : opcode.arity.check stack.length = .ok ()) : code.Moves pc stack after left := by
  cases leads with
  | straight straight described => exact .straight fetched straight fits described
  | push => exact .push fetched fits
  | jump operands lands => exact .jump fetched operands lands
  | branch operands holds lands => exact .branch fetched operands holds lands
  | next operands => exact .next fetched operands

theorem Opcode.Meets.raises {chain : Chain σ} {code : Code} {pc : UInt64} {stack : List Word}
    {opcode : Opcode} {fault : Fault} (meets : opcode.Meets chain code stack fault)
    (fetched : Opcode.ofByte? (code.byteAt pc) = some opcode) : code.Raises pc stack fault := by
  cases meets with
  | answered straight asked => exact .answered fetched straight asked
  | nowhere jumps operands nowhere => exact .jump fetched jumps operands nowhere
  | readOnly | unsupported => exact .refused rfl

namespace Machine

/-- What one step of a machine can lead to, given the program, the position and the stack of
its frame and the frames that wait. -/
inductive Outcome (config : MachineConfig) (code : Code) (pc : UInt64) (stack : List Word)
    (callers : List Suspended) : Status σ → Prop where
  /-- The frame goes on. -/
  | moves {after : Machine σ} (callers_eq : after.callers = callers)
      (code_eq : after.frame.code = code)
      (moves : code.Moves pc stack after.frame.pc after.frame.stack) :
      Outcome config code pc stack callers (.running after)
  /-- The frame waits for a call, and goes on when the call gives it a flag. -/
  | calls {after : Machine σ} {waiting : Suspended} {callee : Bytes} {opcode : Opcode}
      (callers_eq : after.callers = waiting :: callers)
      (fetched : Opcode.ofByte? (code.byteAt pc) = some opcode)
      (straight : opcode.isStraight = true)
      (code_eq : waiting.frame.code = code)
      (returns : ∀ flag, code.Moves pc stack (waiting.frame.pc + 1)
        (flag :: waiting.frame.stack))
      (fresh : after.frame.code = Code.ofBytes callee) (entry : after.frame.pc = 0)
      (empty : after.frame.stack = []) :
      Outcome config code pc stack callers (.running after)
  | finishes {after : Machine σ} {ending : Ending} {opcode : Opcode}
      (callers_eq : after.callers = callers)
      (fetched : Opcode.ofByte? (code.byteAt pc) = some opcode)
      (halts : opcode.isHalt = true) (ends : ∀ fault, ending ≠ .failed fault) :
      Outcome config code pc stack callers (after.finish config ending)
  | fails {after : Machine σ} {fault : Fault} (callers_eq : after.callers = callers)
      (raises : code.Raises pc stack fault) :
      Outcome config code pc stack callers (after.fail config fault)
  | crashes {after : Machine σ} {crash : Crash} :
      Outcome config code pc stack callers (.ended after (.crashed crash))

namespace Outcome

variable {config : MachineConfig} {code : Code} {pc : UInt64} {stack after : List Word}
variable {callers : List Suspended} {machine : Machine σ} {opcode : Opcode}

theorem resume (callers_eq : machine.callers = callers) (code_eq : machine.frame.code = code)
    (returns : ∀ flag,
      code.Moves pc stack (machine.frame.pc + 1) (flag :: machine.frame.stack))
    (output : Region) (flag : Word) (data : Bytes) :
    Outcome config code pc stack callers (machine.resume output flag data) := by
  unfold Machine.resume
  dsimp only
  split
  · exact .moves callers_eq code_eq (returns flag)
  · exact .crashes

theorem enter (fetched : Opcode.ofByte? (code.byteAt pc) = some opcode)
    (straight : opcode.isStraight = true) (callers_eq : machine.callers = callers)
    (code_eq : machine.frame.code = code)
    (returns : ∀ flag,
      code.Moves pc stack (machine.frame.pc + 1) (flag :: machine.frame.stack))
    (callee : Address) (callCode input : Bytes) (gas : UInt64) (output : Region) :
    Outcome config code pc stack callers
      (machine.enter config callee callCode input gas output) := by
  unfold Machine.enter
  dsimp only
  split
  · simp only [finish, unwind]
    refine .resume ?_ ?_ ?_ output 1 ByteArray.empty
    · exact callers_eq
    · exact code_eq
    · exact returns
  · exact .calls (congrArg _ callers_eq) fetched straight code_eq returns rfl rfl rfl

theorem staticCall {chain : Chain σ}
    (fetched : Opcode.ofByte? (code.byteAt pc) = some opcode)
    (straight : opcode.isStraight = true) (callers_eq : machine.callers = callers)
    (code_eq : machine.frame.code = code)
    (returns : ∀ flag,
      code.Moves pc stack (machine.frame.pc + 1) (flag :: machine.frame.stack))
    (callee : Address) (input : Bytes) (requested : UInt64) (output : Region) :
    Outcome config code pc stack callers
      (Machine.staticCall chain config machine callee input requested output) := by
  unfold Machine.staticCall
  split
  · exact .resume callers_eq code_eq returns output 0 ByteArray.empty
  · split
    · dsimp only
      split
      · refine .resume ?_ ?_ ?_ output 0 ByteArray.empty
        · exact callers_eq
        · exact code_eq
        · exact returns
      · exact .fails callers_eq (.answered fetched straight rfl)
    · refine .enter fetched straight ?_ ?_ ?_ callee _ input _ output
      · exact callers_eq
      · exact code_eq
      · exact returns

end Outcome

theorem execute_outcome (chain : Chain σ) (environment : Environment) (machine : Machine σ)
    {opcode : Opcode}
    (fetched : Opcode.ofByte? (machine.frame.code.byteAt machine.frame.pc) = some opcode)
    (fits : opcode.arity.check machine.frame.stack.length = .ok ()) :
    Outcome environment.config machine.frame.code machine.frame.pc machine.frame.stack
      machine.callers (execute chain environment machine opcode) := by
  have comesTo :=
    execute_comesTo chain environment machine (Arity.check_eq_ok_iff.mp fits).1
  generalize execute chain environment machine opcode = status at comesTo
  cases comesTo with
  | goesOn _ leads => exact .moves rfl rfl (leads.moves fetched fits)
  | calls operands data isCall stack_eq =>
      subst isCall
      refine .staticCall fetched rfl ?_ ?_ (fun flag => ?_) _ _ _ _
      · rfl
      · rfl
      · have leads := Opcode.Leads.call machine.frame.code machine.frame.pc operands flag
        rw [← stack_eq] at leads
        exact leads.moves fetched fits
  | halts halting => exact .finishes rfl fetched halting fun _ => Ending.ofHalt_ne_failed
  | fails meets => exact .fails rfl (meets.raises fetched)
  | crashes => exact .crashes

theorem expand_outcome (chain : Chain σ) (environment : Environment) (machine : Machine σ)
    {opcode : Opcode}
    (fetched : Opcode.ofByte? (machine.frame.code.byteAt machine.frame.pc) = some opcode)
    (fits : opcode.arity.check machine.frame.stack.length = .ok ()) :
    Outcome environment.config machine.frame.code machine.frame.pc machine.frame.stack
      machine.callers (expand chain environment machine opcode) := by
  unfold expand
  dsimp only
  split
  · exact .crashes
  · split
    · exact .fails rfl (.refused rfl)
    · split
      · exact .fails rfl (.refused rfl)
      · exact execute_outcome chain environment (machine.mapMemory _) fetched fits

theorem charge?_eq_some {config : MachineConfig} {frame charged : Frame} {opcode : Opcode}
    (paid : charge? config frame opcode = some charged) :
    ∃ gas, charged = { frame with gas } := by
  unfold charge? Frame.useGas? at paid
  split at paid
  · split at paid
    · cases paid
    · exact ⟨_, (Option.some.inj paid).symm⟩
  · exact ⟨frame.gas, (Option.some.inj paid).symm⟩

theorem step_outcome (chain : Chain σ) (environment : Environment) (machine : Machine σ) :
    Outcome environment.config machine.frame.code machine.frame.pc machine.frame.stack
      machine.callers (machine.step chain environment) := by
  unfold step
  dsimp only
  split
  · next absent => exact .fails rfl (.unassigned absent)
  · next opcode fetched =>
      split
      · next fault short => exact .fails rfl (.arity fetched short)
      · next fits =>
          split
          · exact .fails rfl (.refused rfl)
          · split
            · exact .fails rfl (.refused rfl)
            · next charged paid =>
                obtain ⟨gas, rfl⟩ := charge?_eq_some paid
                exact expand_outcome chain environment
                  { machine with frame := { machine.frame with gas } } fetched fits

end Machine

end EvmAtlas
