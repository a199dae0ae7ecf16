import EvmAtlas.Chain.StateSet
import EvmAtlas.Proofs.Effects
import EvmAtlas.Proofs.Frames

/-!
# Where a call writes

A static call makes the machine read-only, and only the frame that made it so lifts that
again when the call is over. `Machine.Inside` says how deep in a static call a machine is
and which of the waiting frames lift the restriction; a step keeps it, until the call is
over and its frame finds everything as it left it. The writes and the logs of a call
therefore all come from its outermost frame.
-/

namespace EvmAtlas

variable {σ : Type}

/-- A write to a storage slot of an account. -/
def Write.StoresAt (address : Address) (write : Write) : Prop :=
  ∃ slot value, write = .storage address slot value

namespace Machine

section StaticCall

-- A frame about to make a static call, with everything around it.
variable (caller : Machine (σ × List Write))

/-- A machine inside a static call, whose frame is `waiting` and has the frames `above`
waiting above it. Of all these only `waiting` may lift the restriction to reading. -/
structure Inside (above : List Suspended) (waiting : Suspended)
    (inner : Machine (σ × List Write)) : Prop where
  address_eq : waiting.frame.address = caller.frame.address
  lifts_eq : waiting.liftsReadOnly = !caller.registers.readOnly
  above_eq : ∀ other ∈ above, other.liftsReadOnly = false
  depth_eq : inner.registers.depth = caller.registers.depth + above.length + 1
  readOnly_eq : inner.registers.readOnly = true
  logs_eq : inner.registers.logs = caller.registers.logs
  issued_eq : inner.chain.2 = caller.chain.2

/-- A machine inside a static call of another. -/
def Nested (inner : Machine (σ × List Write)) : Prop :=
  ∃ above waiting, inner.callers = above ++ waiting :: caller.callers ∧
    caller.Inside above waiting inner

/-- A machine whose running frame has everything around it as `caller` had it. -/
def Restored (after : Machine (σ × List Write)) : Prop :=
  Untouched caller.frame.address caller.callers caller.registers caller.chain.2 after

/-- What a static call can have come to. -/
inductive Serving (config : MachineConfig) : Status (σ × List Write) → Prop where
  /-- The callee runs, or a frame that it waits for. -/
  | inside {inner : Machine (σ × List Write)} (nested : caller.Nested inner) :
      Serving config (.running inner)
  /-- The caller goes on. -/
  | back {after : Machine (σ × List Write)} (restored : caller.Restored after) :
      Serving config (.running after)
  /-- The caller fails with the call. -/
  | fails {after : Machine (σ × List Write)} {fault : Fault}
      (restored : caller.Restored after) : Serving config (after.fail config fault)
  | crashes {after : Machine (σ × List Write)} {crash : Crash}
      (logs_eq : after.registers.logs = caller.registers.logs)
      (issued_eq : after.chain.2 = caller.chain.2) :
      Serving config (.ended after (.crashed crash))

/-- The statuses of a machine from the instruction of a static call until the frame that
made the call runs again. -/
inductive During (chain : Chain (σ × List Write)) (environment : Environment) :
    Status (σ × List Write) → Prop where
  | enters : During chain environment (caller.step chain environment)
  | goesOn {inner : Machine (σ × List Write)}
      (before : During chain environment (.running inner))
      (deeper : caller.callers.length < inner.callers.length) :
      During chain environment (inner.step chain environment)

end StaticCall

variable {caller inner : Machine (σ × List Write)} {above : List Suspended}
variable {waiting : Suspended} {config : MachineConfig}

theorem Restored.resume {back : Machine (σ × List Write)} (restored : caller.Restored back)
    (output : Region) (flag : Word) (data : Bytes) :
    caller.Serving config (back.resume output flag data) := by
  rcases resume_cases restored output flag data with ⟨after, resumed, same⟩ | resumed
  · rw [resumed]
    exact .back same
  · rw [resumed]
    exact .crashes restored.logs_eq restored.issued_eq

/-- Once the callee has ended, the frame that called it finds everything as it left it. -/
theorem Inside.restored (inside : caller.Inside [] waiting inner)
    {back : Machine (σ × List Write)}
    (untouched : Untouched waiting.frame.address caller.callers
      (inner.registers.leave waiting) inner.chain.2 back) :
    caller.Restored back := by
  refine ⟨⟨untouched.address_eq.trans inside.address_eq, untouched.callers_eq, ?_, ?_⟩,
    untouched.logs_eq.trans inside.logs_eq, untouched.issued_eq.trans inside.issued_eq⟩
  · exact untouched.depth_eq.trans (congrArg (· - 1) inside.depth_eq)
  · rw [untouched.readOnly_eq, Registers.leave, inside.readOnly_eq, inside.lifts_eq, Bool.not_not,
      Bool.true_and]

/-- The frames above the call that entered it do not lift the restriction when they end. -/
theorem Inside.leave {other : Suspended} (inside : caller.Inside (other :: above) waiting inner)
    {callers : List Suspended} {back : Machine (σ × List Write)}
    (untouched : Untouched other.frame.address callers (inner.registers.leave other)
      inner.chain.2 back) :
    caller.Inside above waiting back := by
  refine { inside with above_eq := ?_, depth_eq := ?_, readOnly_eq := ?_,
                       logs_eq := untouched.logs_eq.trans inside.logs_eq
                       issued_eq := untouched.issued_eq.trans inside.issued_eq }
  · intro another member
    exact inside.above_eq another (List.mem_cons_of_mem other member)
  · exact untouched.depth_eq.trans (congrArg (· - 1) inside.depth_eq)
  · rw [untouched.readOnly_eq, Registers.leave, inside.readOnly_eq,
      inside.above_eq other List.mem_cons_self]
    rfl

/-- The frame that ended inside a static call gives its outcome to the frame that waits for
it, at any depth. -/
theorem Inside.unwind (inside : caller.Inside above waiting inner) (ending : Ending) :
    caller.Serving config
      (Machine.unwind config (above ++ waiting :: caller.callers) inner ending) := by
  induction above generalizing inner ending with
  | nil =>
      obtain ⟨back, untouched, outcome⟩ :=
        unwind_cons config waiting caller.callers inner ending
      have restored := inside.restored untouched
      rw [List.nil_append]
      rcases outcome with ⟨flag, data, unwound⟩ | ⟨fault, unwound⟩ | ⟨crash, unwound⟩
      · rw [unwound]
        exact restored.resume waiting.output flag data
      · rw [unwound, ← restored.callers_eq]
        exact .fails restored
      · rw [unwound]
        exact .crashes inside.logs_eq inside.issued_eq
  | cons other above ih =>
      obtain ⟨back, untouched, outcome⟩ :=
        unwind_cons config other (above ++ waiting :: caller.callers) inner ending
      have stillInside := inside.leave untouched
      rw [List.cons_append]
      rcases outcome with ⟨flag, data, unwound⟩ | ⟨fault, unwound⟩ | ⟨crash, unwound⟩
      · rw [unwound]
        rcases resume_cases untouched other.output flag data with
          ⟨after, resumed, same⟩ | resumed
        · rw [resumed]
          exact .inside ⟨above, waiting, same.callers_eq, inside.leave same⟩
        · rw [resumed]
          exact .crashes stillInside.logs_eq stillInside.issued_eq
      · rw [unwound]
        exact ih stillInside (.failed fault)
      · rw [unwound]
        exact .crashes inside.logs_eq inside.issued_eq

theorem Inside.finish (inside : caller.Inside above waiting inner)
    (callers_eq : inner.callers = above ++ waiting :: caller.callers) (ending : Ending) :
    caller.Serving config (inner.finish config ending) := by
  unfold Machine.finish
  rw [callers_eq]
  exact inside.unwind ending

theorem Effect.eq_of_not_writable {address : Address} {issued : List Write} {writable : Prop}
    {logs : List Log} {after : Machine (σ × List Write)}
    (effect : Effect address issued writable logs after) (denied : ¬ writable) :
    after.registers.logs = logs ∧ after.chain.2 = issued := by
  cases effect with
  | none logs_eq issued_eq => exact ⟨logs_eq, issued_eq⟩
  | log allowed => exact (denied allowed).elim
  | store allowed => exact (denied allowed).elim

theorem Nested.step (nested : caller.Nested inner) (chain : Chain σ)
    (environment : Environment) :
    caller.Serving environment.config (inner.step chain.recorded environment) := by
  obtain ⟨above, waiting, callers_eq, inside⟩ := nested
  have denied (opcode : Option Opcode) :
      ¬ (inner.registers.readOnly = false ∧ opcode.any Opcode.writes = true) := by
    rw [inside.readOnly_eq]
    simp
  have kept {after : Machine (σ × List Write)}
      (stands : Stands inner.frame.address inner.callers inner.registers after)
      (same : after.registers.logs = inner.registers.logs ∧ after.chain.2 = inner.chain.2) :
      caller.Inside above waiting after :=
    { inside with
      depth_eq := stands.depth_eq.trans inside.depth_eq
      readOnly_eq := stands.readOnly_eq.trans inside.readOnly_eq
      logs_eq := same.1.trans inside.logs_eq
      issued_eq := same.2.trans inside.issued_eq }
  have conduct := step_conduct chain environment inner
  generalize inner.step chain.recorded environment = status at conduct
  cases conduct with
  | goesOn stands effect =>
      exact .inside ⟨above, waiting, stands.callers_eq.trans callers_eq,
        kept stands (effect.eq_of_not_writable (denied _))⟩
  | @calls after other same _ lifts_eq depth_eq readOnly_eq logs_eq issued_eq =>
      refine .inside ⟨other :: above, waiting, ?_, ?_⟩
      · rw [same, callers_eq, List.cons_append]
      · refine { inside with above_eq := ?_, depth_eq := ?_, readOnly_eq,
                             logs_eq := logs_eq.trans inside.logs_eq
                             issued_eq := issued_eq.trans inside.issued_eq }
        · rintro another (_ | ⟨_, member⟩)
          · rw [lifts_eq, inside.readOnly_eq, Bool.not_true]
          · exact inside.above_eq another member
        · rw [depth_eq, inside.depth_eq, List.length_cons, Nat.add_assoc _ above.length 1]
  | finishes _ untouched =>
      have ended := kept untouched.toStands ⟨untouched.logs_eq, untouched.issued_eq⟩
      exact ended.finish (untouched.callers_eq.trans callers_eq) _
  | fails stands effect =>
      have ended := kept stands (effect.eq_of_not_writable (denied _))
      exact ended.finish (stands.callers_eq.trans callers_eq) _
  | crashes untouched =>
      exact .crashes (untouched.logs_eq.trans inside.logs_eq)
        (untouched.issued_eq.trans inside.issued_eq)

/-- The instruction of a static call enters the call, or the call is over at once. -/
theorem serving_of_staticcall (chain : Chain σ) (environment : Environment)
    (fetched : Opcode.ofByte? (caller.frame.code.byteAt caller.frame.pc) = some .staticcall) :
    caller.Serving environment.config (caller.step chain.recorded environment) := by
  have conduct := step_conduct chain environment caller
  rw [fetched] at conduct
  have denied : ¬ (caller.registers.readOnly = false ∧
      (some Opcode.staticcall).any Opcode.writes = true) := by
    simp [Opcode.writes]
  generalize caller.step chain.recorded environment = status at conduct
  cases conduct with
  | goesOn stands effect =>
      obtain ⟨logs_eq, issued_eq⟩ := effect.eq_of_not_writable denied
      exact .back ⟨stands, logs_eq, issued_eq⟩
  | @calls _ waiting callers_eq address_eq lifts_eq depth_eq readOnly_eq logs_eq issued_eq =>
      exact .inside ⟨[], waiting, callers_eq, address_eq, lifts_eq, by simp, depth_eq,
        readOnly_eq, logs_eq, issued_eq⟩
  | finishes halts => cases halts
  | fails stands effect =>
      obtain ⟨logs_eq, issued_eq⟩ := effect.eq_of_not_writable denied
      exact .fails ⟨stands, logs_eq, issued_eq⟩
  | crashes untouched => exact .crashes untouched.logs_eq untouched.issued_eq

/-- As long as more frames wait than before a static call, the call is not over. -/
theorem Serving.nested_of_deeper (serving : caller.Serving config (.running inner))
    (deeper : caller.callers.length < inner.callers.length) : caller.Nested inner := by
  generalize inner_eq : Status.running inner = status at serving
  cases serving with
  | inside nested =>
      cases inner_eq
      exact nested
  | back restored =>
      cases inner_eq
      rw [restored.callers_eq] at deeper
      exact (Nat.lt_irrefl _ deeper).elim
  | fails restored =>
      obtain ⟨_, _, suffix, _⟩ := unwind_eq_running inner_eq.symm
      have shorter := suffix.length_le
      rw [restored.callers_eq, List.length_cons] at shorter
      omega
  | crashes => cases inner_eq

/-- Until the frame that made a static call runs again, or fails, all is inside the call. -/
theorem During.serving {chain : Chain σ} {environment : Environment}
    {status : Status (σ × List Write)}
    (during : caller.During chain.recorded environment status)
    (fetched : Opcode.ofByte? (caller.frame.code.byteAt caller.frame.pc) = some .staticcall) :
    caller.Serving environment.config status := by
  induction during with
  | enters => exact serving_of_staticcall chain environment fetched
  | goesOn _ deeper ih => exact (ih.nested_of_deeper deeper).step chain environment

/-- A static call leaves nothing behind, at any time. -/
theorem Serving.keeps {status : Status (σ × List Write)}
    (serving : caller.Serving config status) :
    status.machine.registers.logs = caller.registers.logs ∧
      status.machine.chain.2 = caller.chain.2 := by
  cases serving with
  | inside nested =>
      obtain ⟨_, _, _, inside⟩ := nested
      exact ⟨inside.logs_eq, inside.issued_eq⟩
  | back restored => exact ⟨restored.logs_eq, restored.issued_eq⟩
  | @fails after fault restored =>
      obtain ⟨logs_eq, issued_eq⟩ := unwind_keeps config after.callers after (.failed fault)
      exact ⟨logs_eq.trans restored.logs_eq, issued_eq.trans restored.issued_eq⟩
  | crashes logs_eq issued_eq => exact ⟨logs_eq, issued_eq⟩

section Run

variable {address : Address} {machine : Machine (σ × List Write)}

/-- A machine whose logs and writes so far all belong to one account. -/
structure Confined (address : Address) (machine : Machine (σ × List Write)) : Prop where
  logs : ∀ log ∈ machine.registers.logs, log.address = address
  writes : ∀ write ∈ machine.chain.2, write.StoresAt address

/-- A machine that runs the outermost frame of a call to an account. -/
structure Outermost (address : Address) (machine : Machine (σ × List Write)) : Prop where
  callers_eq : machine.callers = []
  address_eq : machine.frame.address = address

/-- A machine that runs the outermost frame of a call, or is inside a static call of that
frame. -/
def Rooted (address : Address) (machine : Machine (σ × List Write)) : Prop :=
  machine.Outermost address ∨
    ∃ outermost, Outermost address outermost ∧ outermost.Nested machine

theorem Rooted.outermost (rooted : machine.Rooted address)
    (writable : machine.registers.readOnly = false) : machine.Outermost address := by
  rcases rooted with outermost | ⟨_, _, _, _, _, inside⟩
  · exact outermost
  · rw [inside.readOnly_eq] at writable
    cases writable

theorem Rooted.step_effect (rooted : machine.Rooted address) (chain : Chain σ)
    (environment : Environment) :
    Effect address machine.chain.2 (machine.callers = []) machine.registers.logs
      (machine.step chain.recorded environment).machine := by
  cases Machine.step_effect chain environment machine with
  | none logs_eq issued_eq => exact .none logs_eq issued_eq
  | log allowed own logs_eq issued_eq =>
      obtain ⟨callers_eq, address_eq⟩ := rooted.outermost allowed.1
      exact .log callers_eq (own.trans address_eq) logs_eq issued_eq
  | store allowed logs_eq issued_eq =>
      obtain ⟨callers_eq, address_eq⟩ := rooted.outermost allowed.1
      rw [address_eq] at issued_eq
      exact .store callers_eq logs_eq issued_eq

theorem Confined.of_effect {after : Machine (σ × List Write)} {writable : Prop}
    (confined : machine.Confined address)
    (effect : Effect address machine.chain.2 writable machine.registers.logs after) :
    after.Confined address := by
  cases effect with
  | none logs_eq issued_eq =>
      constructor
      · rw [logs_eq]
        exact confined.logs
      · rw [issued_eq]
        exact confined.writes
  | log _ own logs_eq issued_eq =>
      constructor
      · rw [logs_eq]
        exact List.forall_mem_cons.mpr ⟨own, confined.logs⟩
      · rw [issued_eq]
        exact confined.writes
  | store _ logs_eq issued_eq =>
      constructor
      · rw [logs_eq]
        exact confined.logs
      · rw [issued_eq]
        exact List.forall_mem_append.mpr
          ⟨confined.writes, List.forall_mem_singleton.mpr ⟨_, _, rfl⟩⟩

/-- No frame waits for the outermost one, so the machine ends with it. -/
theorem finish_ne_running {ended after : Machine (σ × List Write)} {ending : Ending}
    (callers_eq : ended.callers = []) : ended.finish config ending ≠ .running after := by
  unfold finish
  rw [callers_eq]
  intro absurd
  cases absurd

/-- The outermost frame goes on or makes a static call, as long as the machine runs. -/
theorem Outermost.rooted_of_step (outermost : machine.Outermost address) {chain : Chain σ}
    {environment : Environment} {after : Machine (σ × List Write)}
    (stepped : machine.step chain.recorded environment = .running after) :
    after.Rooted address := by
  have conduct := step_conduct chain environment machine
  generalize machine.step chain.recorded environment = status at conduct stepped
  cases conduct with
  | goesOn stands =>
      cases stepped
      exact .inl ⟨stands.callers_eq.trans outermost.callers_eq,
        stands.address_eq.trans outermost.address_eq⟩
  | @calls _ waiting callers_eq address_eq lifts_eq depth_eq readOnly_eq logs_eq issued_eq =>
      cases stepped
      exact .inr ⟨machine, outermost, [], waiting, callers_eq, address_eq, lifts_eq, by simp,
        depth_eq, readOnly_eq, logs_eq, issued_eq⟩
  | finishes _ untouched =>
      exact (finish_ne_running (untouched.callers_eq.trans outermost.callers_eq) stepped).elim
  | fails stands =>
      exact (finish_ne_running (stands.callers_eq.trans outermost.callers_eq) stepped).elim
  | crashes => cases stepped

theorem Rooted.step (rooted : machine.Rooted address) {chain : Chain σ}
    {environment : Environment} {after : Machine (σ × List Write)}
    (stepped : machine.step chain.recorded environment = .running after) :
    after.Rooted address := by
  rcases rooted with outermost | ⟨outermost, bottom, nested⟩
  · exact outermost.rooted_of_step stepped
  · have serving := nested.step chain environment
    generalize machine.step chain.recorded environment = status at serving stepped
    cases serving with
    | inside nested =>
        cases stepped
        exact .inr ⟨outermost, bottom, nested⟩
    | back restored =>
        cases stepped
        exact .inl ⟨restored.callers_eq.trans bottom.callers_eq,
          restored.address_eq.trans bottom.address_eq⟩
    | fails restored =>
        exact (finish_ne_running (restored.callers_eq.trans bottom.callers_eq) stepped).elim
    | crashes => cases stepped

/-- A status whose logs and writes all belong to the account of the outermost frame. -/
structure Accounted (address : Address) (status : Status (σ × List Write)) : Prop where
  confined : status.machine.Confined address
  rooted : ∀ machine, status = .running machine → machine.Rooted address

/-- A call begins with no logs, and on a chain that was asked for no writes. -/
theorem begin_accounted (registers : Registers) (call : Call) (code : Bytes)
    {state : σ × List Write} (fresh : state.2 = []) :
    Accounted call.address (begin config registers call code state) := by
  have confined {machine : Machine (σ × List Write)} (logs_eq : machine.registers.logs = [])
      (chain_eq : machine.chain = state) : machine.Confined call.address := by
    constructor
    · simp [logs_eq]
    · simp [chain_eq, fresh]
  unfold begin
  dsimp only
  split
  · refine ⟨confined rfl rfl, ?_⟩
    intro machine running
    exact (finish_ne_running rfl running).elim
  · refine ⟨confined rfl rfl, ?_⟩
    intro machine running
    cases running
    exact .inl ⟨rfl, rfl⟩

theorem Accounted.step {chain : Chain σ} {environment : Environment}
    (accounted : Accounted address (.running machine)) :
    Accounted address (machine.step chain.recorded environment) := by
  have rooted := accounted.rooted machine rfl
  constructor
  · exact accounted.confined.of_effect (rooted.step_effect chain environment)
  · intro after stepped
    exact rooted.step stepped

theorem Accounted.run {chain : Chain σ} {environment : Environment}
    {status : Status (σ × List Write)} (accounted : Accounted address status) (steps : Nat) :
    Accounted address (run chain.recorded environment steps status) := by
  induction steps generalizing status with
  | zero => exact accounted
  | succ steps ih =>
      cases status with
      | running machine => exact ih accounted.step
      | ended machine ending => exact accounted

end Run

end Machine

theorem Status.mem_logs_of_verdict {status : Status σ} {result : CallResult}
    (completed : status.verdict = .completed result) {log : Log} (member : log ∈ result.logs) :
    log ∈ status.machine.registers.logs := by
  cases status with
  | running => cases completed
  | ended machine ending =>
      cases ending with
      | returned data =>
          cases completed
          exact List.mem_reverse.mp member
      | reverted data =>
          cases completed
          cases member
      | failed fault =>
          unfold verdict at completed
          dsimp only at completed
          split at completed
          · cases completed
            cases member
          · cases completed
      | crashed crash => cases completed

/-- A machine that a call comes to after a number of steps. -/
def Interpreter.Reaches (interpreter : Interpreter) (chain : Chain σ) (call : Call)
    (steps : Nat) (state : σ) (machine : Machine σ) : Prop :=
  ∃ code after, chain.code call.address state = (.ok code, after) ∧
    Machine.run chain interpreter.environment steps
      (Machine.begin interpreter.environment.config interpreter.registers call code after) =
        .running machine

theorem Interpreter.accounted_run (interpreter : Interpreter) {chain : Chain σ} {call : Call}
    {state : σ} {code : Bytes} {after : σ × List Write}
    (asked : chain.recorded.code call.address (state, []) = (.ok code, after)) (steps : Nat) :
    Machine.Accounted call.address
      (Machine.run chain.recorded interpreter.environment steps
        (Machine.begin interpreter.environment.config interpreter.registers call code
          after)) := by
  apply Machine.Accounted.run
  apply Machine.begin_accounted
  have read : (chain.recorded.code call.address (state, [])).2.2 = [] :=
    Chain.record_code call.address (state, [])
  rwa [asked] at read

/-- The logs and the writes of a call all belong to the called account. -/
theorem Interpreter.call_confined (interpreter : Interpreter) {chain : Chain σ} {call : Call}
    {steps : Nat} {state after : σ} {verdict : Verdict} {next : Interpreter}
    {issued : List Write} (called : interpreter.call chain.recorded call steps (state, []) =
      (verdict, next, after, issued)) :
    (∀ write ∈ issued, write.StoresAt call.address) ∧
      ∀ result, verdict = .completed result →
        ∀ log ∈ result.logs, log.address = call.address := by
  have read : (chain.recorded.code call.address (state, [])).2.2 = [] :=
    Chain.record_code call.address (state, [])
  unfold Interpreter.call at called
  split at called
  · next fault final asked =>
      rw [asked] at read
      cases called
      constructor
      · simp [show issued = [] from read]
      · intro result completed
        cases completed
  · next code final asked =>
      have accounted := interpreter.accounted_run asked steps
      simp only [Prod.mk.injEq] at called
      obtain ⟨rfl, -, chain_eq⟩ := called
      constructor
      · have writes := accounted.confined.writes
        rwa [chain_eq] at writes
      · intro result completed log member
        exact accounted.confined.logs log (Status.mem_logs_of_verdict completed member)

/-- All that a call leaves behind comes from its outermost frame. The writes that it asks of
the chain, kept in the record, are stores to the called account, each issued while no frame
waits, and its logs are logs of that account. A static call writes nothing and logs
nothing, however it goes and however long it takes, and the frame that made it goes on, or
fails, with the depth and the right to write that it had. -/
theorem call_effects_confined (chain : Chain σ) (interpreter : Interpreter) (call : Call)
    (steps : Nat) (state : σ) :
    (∃ verdict next after issued,
      interpreter.call chain.recorded call steps (state, []) = (verdict, next, after, issued) ∧
      interpreter.call chain call steps state = (verdict, next, after) ∧
      (∀ write ∈ issued, ∃ slot value, write = .storage call.address slot value) ∧
      ∀ result, verdict = .completed result →
        ∀ log ∈ result.logs, log.address = call.address) ∧
    ∀ machine, interpreter.Reaches chain.recorded call steps (state, []) machine →
      (∃ writes, (machine.step chain.recorded interpreter.environment).machine.chain.2 =
          machine.chain.2 ++ writes ∧
        (writes = [] ∨ machine.callers = [] ∧
          ∃ slot value, writes = [.storage call.address slot value])) ∧
      (Opcode.ofByte? (machine.frame.code.byteAt machine.frame.pc) = some .staticcall →
        ∀ status, machine.During chain.recorded interpreter.environment status →
          status.machine.chain.2 = machine.chain.2 ∧
          status.machine.registers.logs = machine.registers.logs ∧
          machine.Serving interpreter.environment.config status) := by
  constructor
  · have alike := interpreter.call_alike chain.recorded_alike call steps
      (rfl : (state, ([] : List Write)).1 = state)
    rcases called : interpreter.call chain.recorded call steps (state, []) with
      ⟨verdict, next, after, issued⟩
    rw [called] at alike
    obtain ⟨verdict_eq, next_eq, after_eq⟩ := alike
    obtain ⟨stores, logs⟩ := interpreter.call_confined called
    refine ⟨verdict, next, after, issued, rfl, ?_, stores, logs⟩
    exact Prod.ext verdict_eq.symm (Prod.ext next_eq.symm after_eq.symm)
  · rintro machine ⟨code, after, asked, ran⟩
    have accounted := interpreter.accounted_run asked steps
    rw [ran] at accounted
    have rooted := accounted.rooted machine rfl
    constructor
    · cases rooted.step_effect chain interpreter.environment with
      | none _ issued_eq => exact ⟨[], by rw [issued_eq, List.append_nil], .inl rfl⟩
      | log _ _ _ issued_eq => exact ⟨[], by rw [issued_eq, List.append_nil], .inl rfl⟩
      | store outermost _ issued_eq => exact ⟨_, issued_eq, .inr ⟨outermost, _, _, rfl⟩⟩
    · intro fetched status during
      have serving := during.serving fetched
      exact ⟨serving.keeps.2, serving.keeps.1, serving⟩

/-- A store of 1 to slot 0, a static call of account 1 and a stop. -/
def storingCode : Bytes :=
  Bytes.ofList [0x60, 0x01, 0x60, 0x00, 0x55, 0x60, 0x00, 0x60, 0x00, 0x60, 0x00, 0x60, 0x00,
    0x60, 0x01, 0x60, 0x00, 0xfa, 0x00]

/-- Account 0, and account 1 whose code tries to store as well. -/
def storingAccounts : StateSet :=
  (({} : StateSet).setCode 0 storingCode).setCode 1
    (Bytes.ofList [0x60, 0x01, 0x60, 0x00, 0x55])

/-- After nine steps the machine has stored a word and stands at a static call, which stores
nothing. -/
theorem storingCode_effects_confined :
    ∃ machine, (Interpreter.fresh none none none).Reaches (StateSet.chain .whole).recorded {} 9
        (storingAccounts, []) machine ∧
      machine.chain.2.length = 1 ∧
      ∀ status, machine.During (StateSet.chain .whole).recorded (.of none none none) status →
        status.machine.chain.2 = machine.chain.2 := by
  have comes : (Machine.run (StateSet.chain .whole).recorded (.of none none none) 9
      (Machine.begin (Environment.of none none none).config {} {}
        (storingAccounts.account 0).code (storingAccounts, []))).running?.any
      (fun machine => machine.chain.2.length == 1 &&
        Opcode.ofByte? (machine.frame.code.byteAt machine.frame.pc) == some .staticcall) =
      true := by
    decide +kernel
  obtain ⟨machine, ran, seen⟩ := Status.exists_running comes
  simp only [Bool.and_eq_true, beq_iff_eq] at seen
  obtain ⟨stored, fetched⟩ := seen
  have reaches : (Interpreter.fresh none none none).Reaches
      (StateSet.chain .whole).recorded {} 9 (storingAccounts, []) machine :=
    ⟨_, _, rfl, ran⟩
  obtain ⟨_, confined⟩ := call_effects_confined (StateSet.chain .whole)
    (.fresh none none none) {} 9 storingAccounts
  refine ⟨machine, reaches, stored, fun status during => ?_⟩
  exact ((confined machine reaches).2 fetched status during).1

end EvmAtlas
