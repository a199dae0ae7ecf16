import EvmAtlas.Proofs.Step

/-!
# What a run can reach

`Code.Visits` collects the positions and stacks that a frame can have which starts at the
first byte of its code with an empty stack, whatever the frames around it do. The frames of
a machine that began with a call all stand at such a place, those that wait included:
`run_visiting` carries this through runs of any length.
-/

namespace EvmAtlas

variable {σ : Type}

/-- The positions and stacks that a frame can come to. -/
inductive Code.Visits (code : Code) : UInt64 → List Word → Prop where
  | entry : Visits code 0 []
  | move {pc pc' : UInt64} {stack stack' : List Word} (here : Visits code pc stack)
      (moves : code.Moves pc stack pc' stack') : Visits code pc' stack'

theorem Arity.passes_of_check {arity : Arity} {height : Nat} {fault : Fault}
    (failed : arity.check height = .error fault) (context : Context) :
    Machine.isAbsorbed (fault.within context) = false := by
  unfold Machine.isAbsorbed
  rw [Fault.cause_within]
  rcases cause_of_check failed with ⟨cause_eq, _⟩ | ⟨cause_eq, _⟩
  · rw [cause_eq]
    rfl
  · rw [cause_eq]
    rfl

/-- Of the faults that an instruction raises, only those that the chain answered with can be
absorbed by a waiting frame. -/
theorem Code.Raises.passes {code : Code} {pc : UInt64} {stack : List Word} {fault : Fault}
    {opcode : Opcode} (raises : code.Raises pc stack fault)
    (fetched : Opcode.ofByte? (code.byteAt pc) = some opcode)
    (diverts : opcode.isStraight = false) : Machine.isAbsorbed fault = false := by
  cases raises with
  | unassigned absent => rfl
  | arity _ check => exact Arity.passes_of_check check _
  | jump => rfl
  | refused refusal =>
      unfold Cause.isRefusal at refusal
      unfold Machine.isAbsorbed
      split at refusal <;> simp_all
  | answered other straight =>
      rw [fetched] at other
      cases other
      rw [diverts] at straight
      cases straight

theorem Code.Visits.length_le {code : Code} {pc : UInt64} {stack : List Word}
    (visits : code.Visits pc stack) : stack.length ≤ stackLimit := by
  induction visits with
  | entry => exact Nat.zero_le _
  | move _ moves ih =>
      cases moves with
      | @straight opcode after _ _ fits described =>
          obtain ⟨enough, room⟩ := Arity.check_eq_ok_iff.mp fits
          have heights := SymStack.Refines.length_eq described
          rw [opcode.length_applySym (by simpa using enough), List.length_map,
            List.length_map] at heights
          omega
      | @push index _ fits =>
          exact (Arity.check_eq_ok_iff.mp fits).2
      | jump _ operands _ =>
          subst operands
          exact Nat.le_of_succ_le ih
      | branch _ operands _ _ =>
          subst operands
          exact Nat.le_of_succ_le (Nat.le_of_succ_le ih)
      | next _ operands =>
          subst operands
          exact Nat.le_of_succ_le (Nat.le_of_succ_le ih)

namespace Machine

variable {config : MachineConfig} {machine after : Machine σ}

/-- A machine whose frames all stand where their code can come to. -/
structure Visiting (machine : Machine σ) : Prop where
  running : machine.frame.code.Visits machine.frame.pc machine.frame.stack
  /-- A waiting frame goes on behind its call, with a flag that the call decides. -/
  waiting : ∀ suspended ∈ machine.callers, ∀ flag,
    suspended.frame.code.Visits (suspended.frame.pc + 1) (flag :: suspended.frame.stack)

theorem resume_eq_running {output : Region} {flag : Word} {data : Bytes}
    (resumed : machine.resume output flag data = .running after) :
    after.callers = machine.callers ∧ after.frame.code = machine.frame.code ∧
      after.frame.pc = machine.frame.pc + 1 ∧
      after.frame.stack = flag :: machine.frame.stack := by
  unfold resume at resumed
  dsimp only at resumed
  split at resumed
  · cases resumed
    exact ⟨rfl, rfl, rfl, rfl⟩
  · cases resumed

/-- A machine that runs one of the frames that waited, behind its call. -/
def Resumes (callers : List Suspended) (after : Machine σ) : Prop :=
  ∃ suspended flag, suspended :: after.callers <:+ callers ∧
    after.frame.code = suspended.frame.code ∧ after.frame.pc = suspended.frame.pc + 1 ∧
    after.frame.stack = flag :: suspended.frame.stack

/-- A machine that still runs after a frame ended runs one of the frames that waited. -/
theorem unwind_eq_running {callers : List Suspended} {ending : Ending}
    (unwound : unwind config callers machine ending = .running after) :
    Resumes callers after := by
  induction callers generalizing machine ending with
  | nil => cases unwound
  | cons suspended callers ih =>
      have direct {back : Machine σ} {flag : Word} {data : Bytes} {gas : UInt64}
          (callers_eq : back.callers = callers)
          (frame_eq : back.frame = { suspended.frame with gas })
          (resumed : back.resume suspended.output flag data = .running after) :
          Resumes (suspended :: callers) after := by
        obtain ⟨kept, code_eq, pc_eq, stack_eq⟩ := resume_eq_running resumed
        rw [frame_eq] at code_eq pc_eq stack_eq
        have rest_eq : after.callers = callers := kept.trans callers_eq
        exact ⟨suspended, flag, rest_eq ▸ List.suffix_rfl, code_eq, pc_eq, stack_eq⟩
      cases ending with
      | returned data => exact direct rfl rfl unwound
      | reverted data => exact direct rfl rfl unwound
      | failed fault =>
          simp only [unwind] at unwound
          split at unwound
          · exact direct rfl rfl unwound
          · obtain ⟨resumed, flag, suffix, rest⟩ := ih unwound
            exact ⟨resumed, flag, suffix.trans (List.suffix_cons _ _), rest⟩
      | crashed crash => cases unwound

/-- A machine that fails as a whole fails with the fault of a frame, seen through every
frame that waited for it. -/
theorem unwind_eq_failed {callers : List Suspended} {ending : Ending} {total : Fault}
    (unwound : unwind config callers machine ending = .ended after (.failed total)) :
    ∃ fault around, ending = .failed fault ∧ around.length = callers.length ∧
      total = ⟨around ++ fault.contexts, fault.cause⟩ := by
  induction callers generalizing machine ending with
  | nil =>
      cases unwound
      exact ⟨total, [], rfl, rfl, rfl⟩
  | cons suspended callers ih =>
      have running {back : Machine σ} {flag : Word} {data : Bytes} :
          back.resume suspended.output flag data ≠ .ended after (.failed total) := by
        unfold resume
        dsimp only
        split <;> simp
      cases ending with
      | returned data => exact (running unwound).elim
      | reverted data => exact (running unwound).elim
      | failed fault =>
          simp only [unwind] at unwound
          split at unwound
          · exact (running unwound).elim
          · obtain ⟨inner, around, inner_eq, length_eq, rfl⟩ := ih unwound
            cases inner_eq
            let depth := machine.registers.depth - 1
            refine ⟨fault, around ++ [.staticCall suspended.callee depth], rfl, ?_, ?_⟩
            · simp [length_eq]
            · simp [Fault.within, depth]
      | crashed crash => cases unwound

theorem fail_eq_failed (config : MachineConfig) (machine : Machine σ) {fault : Fault}
    (passes : isAbsorbed fault = false) :
    ∃ final around, machine.fail config fault =
        .ended final (.failed ⟨around ++ fault.contexts, fault.cause⟩) ∧
      around.length = machine.callers.length := by
  have failed (callers : List Suspended) :
      ∃ final total, unwind config callers machine (.failed fault) =
        .ended final (.failed total) := by
    induction callers generalizing machine fault with
    | nil => exact ⟨_, _, rfl⟩
    | cons suspended callers ih =>
        simp only [unwind, passes, Bool.false_eq_true, if_false]
        exact ih _ passes
  obtain ⟨final, total, unwound⟩ := failed machine.callers
  obtain ⟨same, around, same_eq, length_eq, rfl⟩ := unwind_eq_failed unwound
  cases same_eq
  exact ⟨final, around, unwound, length_eq⟩

/-- A fault that no waiting frame absorbs can be told from how the machine ends. -/
theorem fault_eq_of_fail {failed other : Machine σ} {fault found : Fault}
    (waiting : failed.callers = other.callers) (passes : isAbsorbed fault = false)
    (same : failed.fail config fault = other.fail config found) : found = fault := by
  obtain ⟨final, around, ended, length_eq⟩ := fail_eq_failed config failed passes
  obtain ⟨_, others, ending_eq, others_eq, total_eq⟩ := unwind_eq_failed (same.symm.trans ended)
  cases ending_eq
  rw [← waiting, ← length_eq] at others_eq
  injection total_eq with contexts_eq cause_eq
  obtain ⟨-, inner_eq⟩ := List.append_inj contexts_eq others_eq.symm
  cases fault
  cases found
  cases inner_eq
  cases cause_eq
  rfl

/-- The running frame stops with a fault, which the waiting frames then pass on or absorb. -/
def Stops (chain : Chain σ) (environment : Environment) (machine : Machine σ)
    (fault : Fault) : Prop :=
  ∃ failed : Machine σ, failed.callers = machine.callers ∧
    machine.step chain environment = failed.fail environment.config fault

theorem Stops.raises {chain : Chain σ} {environment : Environment} {fault : Fault}
    (stops : machine.Stops chain environment fault) (passes : isAbsorbed fault = false) :
    machine.frame.code.Raises machine.frame.pc machine.frame.stack fault := by
  obtain ⟨failed, waiting, stepped⟩ := stops
  obtain ⟨final, around, ended, _⟩ := fail_eq_failed environment.config failed passes
  have outcome := step_outcome chain environment machine
  rw [stepped] at outcome
  generalize same : failed.fail environment.config fault = status at outcome
  cases outcome with
  | moves | calls | crashes => cases ended.symm.trans same
  | finishes _ _ _ ends =>
      obtain ⟨inner, _, ending_eq, _⟩ := unwind_eq_failed (same.symm.trans ended)
      exact (ends inner ending_eq).elim
  | fails callers_eq raises =>
      obtain rfl := fault_eq_of_fail (waiting.trans callers_eq.symm) passes same
      exact raises

/-- A frame whose instruction may divert control but does not end it goes on itself, or the
machine ends. -/
theorem moves_of_step {chain : Chain σ} {environment : Environment} {opcode : Opcode}
    (fetched : Opcode.ofByte? (machine.frame.code.byteAt machine.frame.pc) = some opcode)
    (diverts : opcode.isStraight = false) (goesOn : opcode.isHalt = false)
    (stepped : machine.step chain environment = .running after) :
    machine.frame.code.Moves machine.frame.pc machine.frame.stack
      after.frame.pc after.frame.stack := by
  have outcome := step_outcome chain environment machine
  rw [stepped] at outcome
  generalize after_eq : Status.running after = status at outcome
  cases outcome with
  | moves _ _ moves =>
      cases after_eq
      exact moves
  | calls _ other straight =>
      rw [fetched] at other
      cases other
      rw [diverts] at straight
      cases straight
  | finishes _ other halts =>
      rw [fetched] at other
      cases other
      rw [goesOn] at halts
      cases halts
  | @fails failed fault _ raises =>
      obtain ⟨final, around, ended, _⟩ :=
        fail_eq_failed environment.config failed (raises.passes fetched diverts)
      rw [ended] at after_eq
      cases after_eq
  | crashes => cases after_eq

theorem begin_visiting {registers : Registers} {call : Call} {code : Bytes} {state : σ}
    (began : begin config registers call code state = .running machine) :
    machine.Visiting := by
  unfold begin at began
  dsimp only at began
  split at began
  · cases began
  · cases began
    exact ⟨.entry, by simp⟩

theorem step_visiting {chain : Chain σ} {environment : Environment}
    (visiting : machine.Visiting)
    (stepped : machine.step chain environment = .running after) : after.Visiting := by
  have outcome := step_outcome chain environment machine
  have unwound {ended : Machine σ} {ending : Ending}
      (callers_eq : ended.callers = machine.callers)
      (finished : ended.finish environment.config ending = .running after) :
      after.Visiting := by
    obtain ⟨suspended, flag, suffix, code_eq, pc_eq, stack_eq⟩ := unwind_eq_running finished
    rw [callers_eq] at suffix
    constructor
    · rw [code_eq, pc_eq, stack_eq]
      exact visiting.waiting suspended (suffix.mem (by simp)) flag
    · intro other member
      exact visiting.waiting other (suffix.mem (by simp [member]))
  generalize stepped_eq : machine.step chain environment = status at outcome
  rw [stepped_eq] at stepped
  cases outcome with
  | crashes => cases stepped
  | finishes callers_eq => exact unwound callers_eq stepped
  | fails callers_eq => exact unwound callers_eq stepped
  | moves callers_eq code_eq moves =>
      cases stepped
      constructor
      · rw [code_eq]
        exact .move visiting.running moves
      · rw [callers_eq]
        exact visiting.waiting
  | calls callers_eq _ _ code_eq returns fresh entry empty =>
      cases stepped
      constructor
      · rw [entry, empty]
        exact .entry
      · rw [callers_eq]
        rintro suspended (_ | ⟨_, member⟩) flag
        · rw [code_eq]
          exact .move visiting.running (returns flag)
        · exact visiting.waiting suspended member flag

/-- All frames of a running machine stand where their code can come to. -/
theorem run_visiting {chain : Chain σ} {environment : Environment} {steps : Nat}
    {status : Status σ}
    (initial : ∀ first, status = .running first → first.Visiting)
    (ran : run chain environment steps status = .running machine) : machine.Visiting := by
  induction steps generalizing status with
  | zero => exact initial machine ran
  | succ steps ih =>
      cases status with
      | ended final ending => cases ran
      | running first =>
          exact ih (fun _ stepped => step_visiting (initial first rfl) stepped) ran

end Machine

/-- The machine of a status that runs. -/
def Status.running? : Status σ → Option (Machine σ)
  | .running machine => some machine
  | .ended _ _ => none

theorem Status.exists_running {status : Status σ} {look : Machine σ → Bool}
    (looked : status.running?.any look = true) :
    ∃ machine, status = .running machine ∧ look machine = true := by
  cases status with
  | running machine => exact ⟨machine, rfl, looked⟩
  | ended machine ending => cases looked

end EvmAtlas
