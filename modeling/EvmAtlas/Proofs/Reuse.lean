import EvmAtlas.Proofs.Trace

/-!
# Interpreters that are used again

An interpreter keeps its registers between calls. A call sets the data of the last call and
the logs anew, but it takes over the depth and the restriction to reading as it finds them.
`Balanced` says that the frames that wait account for both: one level of depth for each, and
the restriction is lifted by the frame whose static call imposed it. However a call ends, and
however many frames fail with it, its interpreter is then left as a new one would be.
-/

namespace EvmAtlas

variable {σ : Type}

/-- Whether the restriction to reading holds in a frame because of the frames that wait for
it, and is lifted once all of them have gone on. -/
def Lifted : List Suspended → Bool → Prop
  | [], readOnly => readOnly = false
  | waiting :: callers, readOnly => readOnly = true ∧ Lifted callers (!waiting.liftsReadOnly)

namespace Registers

/-- Registers that hold nothing that a later call would find. -/
structure Idle (registers : Registers) : Prop where
  depth_eq : registers.depth = 0
  readOnly_eq : registers.readOnly = false

/-- Registers whose depth and restriction are due to the running frame and those that wait. -/
structure Balanced (callers : List Suspended) (registers : Registers) : Prop where
  depth_eq : registers.depth = callers.length + 1
  lifted : Lifted callers registers.readOnly

theorem Balanced.leave {waiting : Suspended} {callers : List Suspended} {registers : Registers}
    (balanced : Balanced (waiting :: callers) registers) :
    Balanced callers (registers.leave waiting) := by
  obtain ⟨depth_eq, readOnly_eq, lifted⟩ := balanced
  constructor
  · exact congrArg (· - 1) depth_eq
  · rw [Registers.leave, readOnly_eq, Bool.true_and]
    exact lifted

end Registers

namespace Machine

/-- A machine that accounts for its registers, and leaves them idle once it has ended. -/
inductive Tidy : Status σ → Prop where
  | running {machine : Machine σ} (balanced : machine.registers.Balanced machine.callers) :
      Tidy (.running machine)
  | ended {machine : Machine σ} {ending : Ending} (idle : machine.registers.Idle) :
      Tidy (.ended machine ending)
  | crashed {machine : Machine σ} {crash : Crash} : Tidy (.ended machine (.crashed crash))

variable {config : MachineConfig} {chain : Chain σ} {environment : Environment}

/-- A frame that is back has the registers it was suspended with. -/
theorem resume_tidy {callers : List Suspended} {registers : Registers} {address : Address}
    {issued : List Write} {back : Machine (σ × List Write)}
    (balanced : registers.Balanced callers)
    (untouched : Untouched address callers registers issued back) (output : Region)
    (flag : Word) (data : Bytes) : Tidy (back.resume output flag data) := by
  rcases resume_cases untouched output flag data with ⟨after, resumed, same⟩ | resumed
  · rw [resumed]
    apply Tidy.running
    rw [same.callers_eq]
    exact ⟨same.depth_eq.trans balanced.depth_eq, same.readOnly_eq ▸ balanced.lifted⟩
  · rw [resumed]
    exact .crashed

/-- Every frame that ends takes back what it did to the registers, also where several of them
fail one after the other. -/
theorem unwind_tidy {callers : List Suspended} {machine : Machine (σ × List Write)}
    (balanced : machine.registers.Balanced callers) (ending : Ending) :
    Tidy (unwind config callers machine ending) := by
  induction callers generalizing machine ending with
  | nil =>
      apply Tidy.ended
      exact ⟨congrArg (· - 1) balanced.depth_eq, balanced.lifted⟩
  | cons waiting callers ih =>
      obtain ⟨back, untouched, outcome⟩ := unwind_cons config waiting callers machine ending
      rcases outcome with ⟨flag, data, unwound⟩ | ⟨fault, unwound⟩ | ⟨crash, unwound⟩
      · rw [unwound]
        exact resume_tidy balanced.leave untouched _ _ _
      · rw [unwound]
        apply ih
        exact ⟨untouched.depth_eq.trans balanced.leave.depth_eq,
          untouched.readOnly_eq ▸ balanced.leave.lifted⟩
      · rw [unwound]
        exact .crashed

theorem step_tidy {machine : Machine (σ × List Write)}
    (balanced : machine.registers.Balanced machine.callers) :
    Tidy (machine.step chain.recorded environment) := by
  have kept {after : Machine (σ × List Write)}
      (stands : Stands machine.frame.address machine.callers machine.registers after) :
      after.registers.Balanced after.callers := by
    rw [stands.callers_eq]
    exact ⟨stands.depth_eq.trans balanced.depth_eq, stands.readOnly_eq ▸ balanced.lifted⟩
  have conduct := step_conduct chain environment machine
  generalize machine.step chain.recorded environment = status at conduct
  cases conduct with
  | goesOn stands effect => exact .running (kept stands)
  | calls callers_eq _ lifts_eq depth_eq readOnly_eq =>
      apply Tidy.running
      rw [callers_eq]
      refine ⟨?_, readOnly_eq, ?_⟩
      · rw [depth_eq, balanced.depth_eq, List.length_cons]
      · rw [lifts_eq, Bool.not_not]
        exact balanced.lifted
  | finishes halts untouched => exact unwind_tidy (kept untouched.toStands) _
  | fails stands effect => exact unwind_tidy (kept stands) _
  | crashes untouched => exact .crashed

theorem run_tidy (steps : Nat) {status : Status (σ × List Write)} (tidy : Tidy status) :
    Tidy (run chain.recorded environment steps status) := by
  induction steps generalizing status with
  | zero => exact tidy
  | succ steps ih =>
      cases tidy with
      | running balanced => exact ih (step_tidy balanced)
      | ended idle => exact .ended idle
      | crashed => exact .crashed

theorem begin_tidy {registers : Registers} (idle : registers.Idle) (call : Call) (code : Bytes)
    (state : σ) : Tidy (begin config registers call code state) := by
  have depth_eq : registers.depth + 1 = 1 := congrArg (· + 1) idle.depth_eq
  unfold begin
  dsimp only
  split
  · exact .ended ⟨congrArg (· - 1) depth_eq, idle.readOnly_eq⟩
  · exact .running ⟨depth_eq, idle.readOnly_eq⟩

/-- A call begins alike with all registers that hold nothing for it to find. -/
theorem begin_eq_of_idle {registers others : Registers} (idle : registers.Idle)
    (otherIdle : others.Idle) (call : Call) (code : Bytes) (state : σ) :
    begin config registers call code state = begin config others call code state := by
  unfold begin
  rw [idle.depth_eq, idle.readOnly_eq, otherIdle.depth_eq, otherIdle.readOnly_eq]

end Machine

/-- Whether a call has come to an end that its caller is told of. -/
def Verdict.isReported : Verdict → Bool
  | .completed _ | .failed _ => true
  | .crashed _ | .unfinished => false

namespace Interpreter

variable {chain : Chain σ} {interpreter other : Interpreter} {call : Call} {steps : Nat}
variable {state : σ}

/-- What becomes of an interpreter through calls that came to an end, one after the other. The
chain may have been changed by others between them. -/
inductive Used (chain : Chain σ) (initial : Interpreter) : Interpreter → Prop where
  | unused : Used chain initial initial
  | calls {interpreter : Interpreter} {call : Call} {steps : Nat} {state : σ}
      (before : Used chain initial interpreter)
      (reported : (interpreter.call chain call steps state).1.isReported = true) :
      Used chain initial (interpreter.call chain call steps state).2.1

/-- The status that a call comes to on a chain that keeps a record of its writes. -/
theorem tidy_run (idle : interpreter.registers.Idle) (chain : Chain σ) (call : Call)
    (code : Bytes) (after : σ × List Write) (steps : Nat) :
    Machine.Tidy (Machine.run chain.recorded interpreter.environment steps
      (Machine.begin interpreter.environment.config interpreter.registers call code after)) :=
  Machine.run_tidy steps (Machine.begin_tidy idle call code after)

/-- At any moment of a call the frames that wait account for its registers. -/
theorem Reaches.balanced {machine : Machine σ}
    (reaches : interpreter.Reaches chain call steps state machine)
    (idle : interpreter.registers.Idle) : machine.registers.Balanced machine.callers := by
  obtain ⟨code, after, asked, ran⟩ := reaches
  have tidy := tidy_run idle chain call code (after, []) steps
  have begun : Status.Alike (fun (kept : σ × List Write) state => kept.1 = state)
      (Machine.begin interpreter.environment.config interpreter.registers call code (after, []))
      (Machine.begin interpreter.environment.config interpreter.registers call code after) := by
    apply Machine.begin_alike
    rfl
  have alike := Machine.run_alike chain.recorded_alike interpreter.environment steps begun
  rw [ran] at alike
  generalize Machine.run chain.recorded _ _ _ = status at tidy alike
  cases alike with
  | running near =>
      cases tidy with
      | running balanced => exact balanced

/-- However a call ends, it leaves its interpreter idle. -/
theorem call_idle (idle : interpreter.registers.Idle)
    (reported : (interpreter.call chain call steps state).1.isReported = true) :
    (interpreter.call chain call steps state).2.1.registers.Idle := by
  obtain ⟨same_verdict, same_next, -⟩ := interpreter.call_recorded chain call steps state
  rw [← same_verdict] at reported
  rw [← same_next]
  rcases asked : chain.recorded.code call.address (state, []) with ⟨_ | code, after⟩
  · rw [Interpreter.call, asked]
    exact idle
  · have tidy := tidy_run idle chain call code after steps
    rw [Interpreter.call, asked] at reported ⊢
    dsimp only at reported ⊢
    generalize Machine.run _ _ _ _ = status at tidy reported
    cases tidy with
    | running => cases reported
    | ended idle => exact idle
    | crashed => cases reported

theorem Used.environment_eq (used : interpreter.Used chain other) :
    other.environment = interpreter.environment := by
  induction used with
  | unused => rfl
  | @calls before call steps state _ _ ih =>
      rw [← ih, Interpreter.call]
      split
      · rfl
      · rfl

theorem Used.idle (used : interpreter.Used chain other) (idle : interpreter.registers.Idle) :
    other.registers.Idle := by
  induction used with
  | unused => exact idle
  | calls _ reported ih => exact call_idle ih reported

theorem fresh_idle (block : Option BlockInfo) (transaction : Option TransactionInfo)
    (config : Option MachineConfig) :
    (Interpreter.fresh block transaction config).registers.Idle :=
  ⟨rfl, rfl⟩

/-- Idle interpreters in one environment cannot be told apart by what they answer and do. -/
theorem call_eq_of_idle (same : other.environment = interpreter.environment)
    (idle : interpreter.registers.Idle) (otherIdle : other.registers.Idle) (chain : Chain σ)
    (call : Call) (steps : Nat) (state : σ) :
    (other.call chain call steps state).1 = (interpreter.call chain call steps state).1 ∧
      (other.call chain call steps state).2.2 =
        (interpreter.call chain call steps state).2.2 := by
  rcases asked : chain.code call.address state with ⟨_ | code, after⟩
  · rw [Interpreter.call, Interpreter.call, asked]
    exact ⟨rfl, rfl⟩
  · rw [Interpreter.call, Interpreter.call, asked, same]
    dsimp only
    rw [Machine.begin_eq_of_idle otherIdle idle call code after]
    exact ⟨rfl, rfl⟩

end Interpreter

/-- An interpreter has no memory of its calls. After calls that returned, reverted or failed,
at whatever depth, another call comes to the same verdict, with the same logs, and asks its
chain for the same writes as it does on a new interpreter, from any state of the chain. -/
theorem reused_interpreter_forgets (chain : Chain σ) (block : Option BlockInfo)
    (transaction : Option TransactionInfo) (config : Option MachineConfig)
    {interpreter : Interpreter}
    (used : (Interpreter.fresh block transaction config).Used chain interpreter) (call : Call)
    (steps : Nat) (state : σ) :
    (interpreter.call chain call steps state).1 =
        ((Interpreter.fresh block transaction config).call chain call steps state).1 ∧
      interpreter.writes chain call steps state =
        (Interpreter.fresh block transaction config).writes chain call steps state ∧
      (interpreter.call chain call steps state).2.2 =
        ((Interpreter.fresh block transaction config).call chain call steps state).2.2 := by
  have same := used.environment_eq
  have idle := Interpreter.fresh_idle block transaction config
  obtain ⟨same_verdict, same_state⟩ :=
    Interpreter.call_eq_of_idle same idle (used.idle idle) chain call steps state
  obtain ⟨-, same_record⟩ :=
    Interpreter.call_eq_of_idle same idle (used.idle idle) chain.recorded call steps (state, [])
  exact ⟨same_verdict, congrArg Prod.snd same_record, same_state⟩

/-- Account 0, which makes a static call to account 1, and account 1, which stores a word. -/
def guardedAccounts : StateSet :=
  (({} : StateSet).setCode 0 (Bytes.ofList [0x60, 0x00, 0x60, 0x00, 0x60, 0x00, 0x60, 0x00,
    0x60, 0x01, 0x60, 0x64, 0xfa, 0x00])).setCode 1
      (Bytes.ofList [0x60, 0x07, 0x60, 0x01, 0x55, 0x00])

/-- The interpreter that is used after a call of account 0, which fails in its static call. -/
def guardedInterpreter : Interpreter :=
  ((Interpreter.fresh none none none).call (StateSet.chain .whole) {} 10 guardedAccounts).2.1

/-- Account 1 may not store its word as long as it is called by account 0. Called on its own
afterwards, it may. -/
theorem guardedAccounts_forget :
    ((Interpreter.fresh none none none).call (StateSet.chain .whole) {} 10
        guardedAccounts).1.fault?.isSome = true ∧
      (guardedInterpreter.writes (StateSet.chain .whole) { address := 1 } 4
        guardedAccounts).length = 1 := by
  have fails : ((Interpreter.fresh none none none).call (StateSet.chain .whole) {} 10
      guardedAccounts).1.fault?.isSome = true := by
    decide +kernel
  have used : (Interpreter.fresh none none none).Used (StateSet.chain .whole)
      guardedInterpreter := by
    apply Interpreter.Used.calls .unused
    decide +kernel
  refine ⟨fails, ?_⟩
  rw [(reused_interpreter_forgets (StateSet.chain .whole) none none none used { address := 1 } 4
    guardedAccounts).2.1]
  decide +kernel

end EvmAtlas
