import EvmAtlas.Proofs.Isolation
import EvmAtlas.Proofs.Reuse

/-!
# Static calls are calls

What the caller of a static call is given is what a new interpreter makes of the same call. The
frame of the static call and the frame of the new interpreter mirror each other for as long as
the static call lasts, so that they come to the same instruction that halts. There the caller
goes on with a flag, the data and the gas, and the new interpreter has its result.
-/

namespace EvmAtlas

variable {σ : Type}

namespace Machine

variable {chain : Chain σ} {base : σ} {depth : Nat}
variable {machine : Machine σ} {twin : Machine (σ × List Write)}
variable {config : MachineConfig} {environment : Environment}

section Halting

variable {τ : Type} (twinChain : Chain τ) (twinEnvironment : Environment) {other : Machine τ}
variable {opcode : Opcode} {after : Machine σ}

theorem load_halts {twinConfig : MachineConfig} {offset length : Word} (left : Frame)
    (reverted : Bool) (frame_eq : other.frame = machine.frame)
    (loaded : machine.load offset length
      (fun data => finish config { machine with frame := left } (.ofHalt reverted data)) =
        .running after) :
    ∃ data, finish config { machine with frame := left } (.ofHalt reverted data) =
        .running after ∧
      other.load offset length
          (fun data => finish twinConfig { other with frame := left } (.ofHalt reverted data)) =
        finish twinConfig { other with frame := left } (.ofHalt reverted data) := by
  unfold load at loaded ⊢
  rw [frame_eq]
  split at loaded
  · cases loaded
  · next data found => exact ⟨data, loaded, rfl⟩

/-- Equal frames that halt do so in the same way, and leave the same frame. -/
theorem execute_halts (halts : opcode.isHalt = true) (frame_eq : other.frame = machine.frame)
    (executed : execute chain environment machine opcode = .running after) :
    ∃ left reverted data,
      finish environment.config { machine with frame := left } (.ofHalt reverted data) =
          .running after ∧
        execute twinChain twinEnvironment other opcode =
          finish twinEnvironment.config { other with frame := left } (.ofHalt reverted data) := by
  have same := frame_eq
  obtain ⟨frame, waiting, registers, state⟩ := other
  cases frame_eq
  obtain ⟨frame, callers, registers, state⟩ := machine
  obtain ⟨caller, address, code, input, value, gas, pc, stack, memory⟩ := frame
  cases opcode with
  | stop => exact ⟨_, false, ByteArray.empty, executed, rfl⟩
  | «return» =>
      rcases stack with _ | ⟨_, _ | _⟩
      · cases executed
      · cases executed
      · exact ⟨_, false, load_halts _ false same executed⟩
  | revert =>
      rcases stack with _ | ⟨_, _ | _⟩
      · cases executed
      · cases executed
      · exact ⟨_, true, load_halts _ true same executed⟩
  | _ => cases halts

theorem expand_halts (halts : opcode.isHalt = true) (frame_eq : other.frame = machine.frame)
    (limit_eq : twinEnvironment.config.memoryLimit = environment.config.memoryLimit)
    (expanded : expand chain environment machine opcode = .running after) :
    ∃ left reverted data,
      finish environment.config { machine with frame := left } (.ofHalt reverted data) =
          .running after ∧
        expand twinChain twinEnvironment other opcode =
          finish twinEnvironment.config { other with frame := left } (.ofHalt reverted data) := by
  obtain ⟨regions, size, touched, needed, fits⟩ := expand_eq_running expanded
  rw [expand_eq touched needed fits] at expanded
  rw [← frame_eq] at touched
  rw [← limit_eq] at fits
  rw [expand_eq touched needed fits]
  have grown_eq : (other.mapMemory (·.grow size.toNat)).frame =
      (machine.mapMemory (·.grow size.toNat)).frame := by
    rw [mapMemory_eq, mapMemory_eq, frame_eq]
  obtain ⟨left, reverted, data, finished, twinFinished⟩ :=
    execute_halts twinChain twinEnvironment halts grown_eq expanded
  exact ⟨left, reverted, data, finished, twinFinished⟩

end Halting

section Conclusion

variable {waiting : Suspended} {callers : List Suspended} {after : Machine σ}
variable {final : Machine (σ × List Write)} {reverted : Bool} {data : Bytes}

variable (chain base config waiting after final reverted data) in
/-- The end of a static call, after which its caller goes on as `after`, and of the same call on
its own, which leaves the machine `final`. -/
structure Concludes : Prop where
  stack_eq : after.frame.stack = (if reverted then 0 else 1) :: waiting.frame.stack
  returnData_eq : after.registers.returnData = data
  gas_eq : after.frame.gas = waiting.regain config final.frame.gas
  reads : chain.Reads base after.chain
  logs_eq : final.registers.logs = []
  unwritten : final.chain.2 = []

/-- The frame of a static call that halts gives its caller a flag and its data. -/
theorem Mirrors.concludes (mirrors : Mirrors chain base (waiting :: callers) depth machine twin)
    (bottom : twin.callers = [])
    (ended : machine.finish config (.ofHalt reverted data) = .running after) :
    ∃ final, twin.finish (config.shallower depth) (.ofHalt reverted data) =
        .ended final (.ofHalt reverted data) ∧
      Concludes chain base config waiting after final reverted data := by
  have above := mirrors.above
  rw [bottom] at above
  generalize callers_eq : machine.callers = others at above
  generalize twin.registers.readOnly = readOnly at above
  cases above with
  | outermost =>
      have resumed : (machine.back config waiting callers).resume waiting.output
          (if reverted then 0 else 1) data = .running after := by
        rw [← ended, Machine.finish, callers_eq]
        cases reverted with
        | true => rfl
        | false => rfl
      unfold Machine.resume at resumed
      dsimp only at resumed
      rw [Machine.finish, bottom]
      refine ⟨_, rfl, ?_⟩
      split at resumed
      · cases resumed
        refine ⟨rfl, rfl, ?_, mirrors.reads, mirrors.logs_eq, mirrors.unwritten⟩
        rw [mirrors.frame_eq]
        rfl
      · cases resumed

variable (chain environment) in
/-- A static call whose frame, and those that it calls, have a number of frames waiting for
them at least, until it halts and its caller goes on as `after`. -/
inductive Halts (height : Nat) : Machine σ → Machine σ → Prop where
  | halts {inner after : Machine σ} (own : inner.callers.length = height)
      (halting : inner.fetched?.any Opcode.isHalt = true)
      (stepped : inner.step chain environment = .running after) : Halts height inner after
  | goesOn {inner next after : Machine σ}
      (stepped : inner.step chain environment = .running next)
      (inside : height ≤ next.callers.length) (rest : Halts height next after) :
      Halts height inner after

/-- On its own, the call runs alongside and ends with the static call. -/
theorem Halts.concludes (steady : chain.Steady base)
    (halts : Halts chain environment (waiting :: callers).length machine after)
    (mirrors : Mirrors chain base (waiting :: callers) depth machine twin) :
    ∃ steps final reverted data,
      run chain.recorded (environment.shallower depth) steps (.running twin) =
          .ended final (.ofHalt reverted data) ∧
        Concludes chain base environment.config waiting after final reverted data := by
  induction halts generalizing twin with
  | @halts inner after own halting stepped =>
      have length_eq := mirrors.above.length_eq
      have bottom : twin.callers = [] := by
        apply List.eq_nil_of_length_eq_zero
        omega
      rcases exists_admits chain environment inner with failed | ⟨opcode, charged, admits⟩
      · obtain ⟨final, fault, ended, -⟩ := failed
        rw [stepped] at ended
        cases ended
      · rw [admits.fetched] at halting
        rw [admits.step_eq] at stepped
        obtain ⟨-, twinAdmits⟩ := mirrors.admits admits
        have charged_eq : ({ twin with frame := charged } : Machine (σ × List Write)).frame =
          ({ inner with frame := charged } : Machine σ).frame := rfl
        have limit_eq : (environment.shallower depth).config.memoryLimit =
          environment.config.memoryLimit := rfl
        obtain ⟨left, reverted, data, ended, twinEnded⟩ :=
          expand_halts chain.recorded (environment.shallower depth) halting charged_eq limit_eq
            stepped
        have halted : Mirrors chain base (waiting :: callers) depth
            { inner with frame := left } { twin with frame := left } :=
          { mirrors with frame_eq := rfl }
        obtain ⟨final, finished, concludes⟩ := halted.concludes bottom ended
        refine ⟨1, final, reverted, data, ?_, concludes⟩
        rw [run, run, twinAdmits.step_eq, twinEnded]
        exact finished
  | goesOn stepped inside rest ih =>
      obtain ⟨other, twinStepped, mirrors⟩ := step_follows steady mirrors _ stepped inside
      obtain ⟨steps, final, reverted, data, ran, concludes⟩ := ih mirrors
      refine ⟨steps + 1, final, reverted, data, ?_, concludes⟩
      rw [run, twinStepped]
      exact ran

end Conclusion

section Requests

variable {caller next : Machine σ}

/-- The call that a frame makes with the instruction of a static call. -/
def request? (config : MachineConfig) (caller : Machine σ) : Option Call :=
  match caller.frame.stack with
  | gas :: callee :: inOffset :: inLength :: outOffset :: outLength :: _ =>
      match Region.needed? [⟨outOffset, outLength⟩, ⟨inOffset, inLength⟩] with
      | none => none
      | some size =>
          match (caller.frame.memory.grow size.toNat).readWords? inOffset inLength with
          | none => none
          | some input =>
              let available := caller.frame.gas - config.cost .staticcall
              some
                { sender := caller.frame.address
                  address := callee.toAddress
                  value := some 0
                  gas :=
                    if config.meterGas && available < gas.clamp64 then available
                    else gas.clamp64
                  input }
  | _ => none

/-- What the frame that makes a static call keeps until the call is over. -/
structure Calls (config : MachineConfig) (caller ready : Machine σ) (request : Call) : Prop where
  request_eq : caller.request? config = some request
  sender_eq : request.sender = ready.frame.address
  value_eq : request.value = some 0
  covered : config.cost .staticcall ≤ caller.frame.gas
  gas_eq : ready.frame.gas = caller.frame.gas - config.cost .staticcall
  given_le : config.meterGas = true → request.gas ≤ ready.frame.gas
  stack_eq : ready.frame.stack = caller.frame.stack.drop 6
  callers_eq : ready.callers = caller.callers
  registers_eq : ready.registers = caller.registers
  chain_eq : ready.chain = caller.chain

variable (chain config next) in
/-- What a static call comes to that is not refused for its depth. -/
inductive Entered (ready : Machine σ) (callee : Address) (input : Bytes) (gas : UInt64)
    (output : Region) : Prop where
  /-- The chain fails in a way that the caller absorbs. -/
  | absorbed {fault : Fault} {state : σ}
      (asked : chain.code callee ready.chain = (.error fault, state))
      (callers_eq : next.callers = ready.callers)
  | entered {code : Bytes} {state : σ} (asked : chain.code callee ready.chain = (.ok code, state))
      (called : enter config { ready with chain := state } callee code input gas output =
        .running next)

theorem staticCall_eq_running {ready : Machine σ} {callee : Address} {input : Bytes}
    {requested : UInt64} {output : Region}
    (shallow : (ready.registers.depth : Int) < config.maxCallDepth)
    (called : staticCall chain config ready callee input requested output = .running next) :
    Entered chain config next ready callee input
      (if config.meterGas && ready.frame.gas < requested then ready.frame.gas else requested)
      output := by
  rw [staticCall, if_neg (Int.not_le.mpr shallow)] at called
  rcases asked : chain.code callee ready.chain with ⟨fault | code, state⟩
  · rw [asked] at called
    dsimp only at called
    split at called
    · exact .absorbed asked (resume_eq_running called).1
    · next passes =>
        obtain ⟨final, total, ended, -⟩ := fail_failedOutright config { ready with chain := state }
          (Bool.eq_false_iff.mpr passes)
        rw [called] at ended
        cases ended
  · rw [asked] at called
    exact .entered asked called

/-- The instruction of a static call makes the call that is requested. -/
theorem exists_calls (fetched : caller.fetched? = some .staticcall)
    (shallow : (caller.registers.depth : Int) < environment.config.maxCallDepth)
    (stepped : caller.step chain environment = .running next) :
    ∃ ready request output, Calls environment.config caller ready request ∧
      Entered chain environment.config next ready request.address request.input request.gas
        output := by
  rcases exists_admits chain environment caller with failed | ⟨opcode, charged, admits⟩
  · obtain ⟨final, fault, ended, -⟩ := failed
    rw [stepped] at ended
    cases ended
  · cases admits.fetched.symm.trans fetched
    obtain ⟨covered, rfl⟩ := charge?_eq_some_iff.mp admits.paid
    rw [admits.step_eq] at stepped
    obtain ⟨regions, size, touched, needed, fits⟩ := expand_eq_running stepped
    rw [expand_eq touched needed fits] at stepped
    obtain ⟨⟨sender, address, code, input, value, own, pc, stack, memory⟩, callers, registers,
      state⟩ := caller
    rcases stack with _ | ⟨gas, _ | ⟨callee, _ | ⟨inOffset, _ | ⟨inLength, _ | ⟨outOffset,
      _ | ⟨outLength, rest⟩⟩⟩⟩⟩⟩
    case cons.cons.cons.cons.cons.cons =>
      cases touched
      let held := own - environment.config.cost .staticcall
      let ready : Machine σ :=
        ⟨⟨sender, address, code, input, value, held, pc, rest, memory.grow size.toNat⟩, callers,
          registers, state⟩
      change load ⟨{ ready.frame with stack := _ }, _, _, _⟩ inOffset inLength (fun data =>
        staticCall chain environment.config ready callee.toAddress data gas.clamp64
          ⟨outOffset, outLength⟩) = .running next at stepped
      unfold load at stepped
      split at stepped
      · cases stepped
      · next data found =>
          let given :=
            if environment.config.meterGas && held < gas.clamp64 then held else gas.clamp64
          refine ⟨ready, ⟨address, callee.toAddress, some 0, given, data⟩, ⟨outOffset, outLength⟩,
            ⟨?_, rfl, rfl, covered, rfl, ?_, rfl, rfl, rfl, rfl⟩,
            staticCall_eq_running shallow stepped⟩
          · simp only [request?, needed]
            rw [found]
          · intro counts
            dsimp only [given]
            grind
    all_goals cases touched

/-- The frame that has made a call, as it waits for the outcome. -/
def waitingFor (ready : Machine σ) (request : Call) (output : Region) : Suspended :=
  ⟨ready.frame, request.address, request.gas, output, !ready.registers.readOnly⟩

/-- The machine in which a new interpreter begins a call. -/
def outset (request : Call) (code : Bytes) (state : σ) : Machine σ where
  frame := .start request.sender request.address code request.input (request.value.getD 0)
    request.gas
  callers := []
  registers := { depth := 1 }
  chain := state

theorem begin_eq (config : MachineConfig) (request : Call) (code : Bytes) (state : σ) :
    begin config {} request code state =
      if code.size = 0 then
        (outset request code state).finish config (.ofHalt false ByteArray.empty)
      else .running (outset request code state) :=
  rfl

/-- A static call and the same call on its own begin in frames that mirror each other. -/
theorem Calls.mirrors {ready : Machine σ} {request : Call}
    (calls : Calls config caller ready request) (code : Bytes) (output : Region)
    {state other : σ} (reads : chain.Reads caller.chain state)
    (otherReads : chain.Reads caller.chain other) :
    Mirrors chain caller.chain (ready.waitingFor request output :: caller.callers)
      caller.registers.depth
      (opened { ready with chain := state } request.address code request.input request.gas
        output)
      (outset request code (other, [])) := by
  refine { frame_eq := ?_, returnData_eq := rfl, readOnly_eq := rfl, depth_eq := ?_,
           twinDepth_eq := rfl, above := ?_, logs_eq := rfl, unwritten := rfl, reads := reads,
           twinReads := otherReads }
  · rw [outset, calls.sender_eq, calls.value_eq]
    rfl
  · change ready.registers.depth + 1 = 1 + caller.registers.depth
    rw [calls.registers_eq, Nat.add_comm]
  · rw [← calls.callers_eq]
    exact .outermost

/-- A chain that was only read gives the same code once more. -/
theorem asked_again {callee : Address} {code : Bytes} {state other : σ}
    (steady : chain.Steady base) (reads : chain.Reads base other)
    (asked : chain.code callee base = (.ok code, state)) :
    chain.Reads base state ∧ ∃ after, chain.Reads base after ∧
      chain.recorded.code callee (other, []) = (.ok code, (after, [])) := by
  constructor
  · have read := Chain.Reads.code (.nothing : chain.Reads base _) callee
    rwa [asked] at read
  · have answered : (chain.code callee other).1 = .ok code := by
      have same := congrFun (congrArg Answers.code (steady other reads)) callee
      change (chain.code callee other).1 = (chain.code callee base).1 at same
      rw [same, asked]
    refine ⟨(chain.code callee other).2, reads.code callee, ?_⟩
    rw [← answered]
    rfl

variable (chain environment caller next) in
/-- A static call of `caller` that completes, after which its frame goes on as `next`: the
callee has no code, or it runs until it halts. -/
inductive Completes : Prop where
  | empty {request : Call} {code : Bytes}
      (requested : caller.request? environment.config = some request)
      (answered : (chain.code request.address caller.chain).1 = .ok code)
      (nothing : code.size = 0) (stepped : caller.step chain environment = .running next)
  | runs {inner : Machine σ} (stepped : caller.step chain environment = .running inner)
      (entered : inner.callers.length = caller.callers.length + 1)
      (halts : Halts chain environment (caller.callers.length + 1) inner next)

/-- A static call that completes ends as the same call does on its own, with the limit on the
depth lowered by the depth of the caller. -/
theorem Completes.concludes (completes : Completes chain environment caller next)
    (fetched : caller.fetched? = some .staticcall)
    (shallow : (caller.registers.depth : Int) < environment.config.maxCallDepth)
    (steady : chain.Steady caller.chain) {other : σ} (reads : chain.Reads caller.chain other) :
    ∃ ready request output code state steps final reverted data,
      Calls environment.config caller ready request ∧
      chain.recorded.code request.address (other, []) = (.ok code, (state, [])) ∧
      run chain.recorded (environment.shallower caller.registers.depth) steps
          (begin (environment.shallower caller.registers.depth).config {} request code
            (state, [])) =
        .ended final (.ofHalt reverted data) ∧
      Concludes chain caller.chain environment.config (ready.waitingFor request output) next
        final reverted data := by
  cases completes with
  | @empty _ code request_eq answered nothing stepped =>
      obtain ⟨ready, request, output, calls, entered⟩ := exists_calls fetched shallow stepped
      cases request_eq.symm.trans calls.request_eq
      cases entered with
      | absorbed asked =>
          rw [calls.chain_eq] at asked
          rw [asked] at answered
          cases answered
      | entered asked called =>
          rw [calls.chain_eq] at asked
          rw [asked] at answered
          cases answered
          obtain ⟨codeReads, after, afterReads, otherAsked⟩ := asked_again steady reads asked
          have mirrors := calls.mirrors code output codeReads afterReads
          rw [enter_eq, if_pos nothing] at called
          have ended : finish environment.config _ (.ofHalt false ByteArray.empty) =
            .running next := called
          obtain ⟨final, finished, concludes⟩ := mirrors.concludes rfl ended
          refine ⟨ready, _, output, code, after, 0, final, false, ByteArray.empty, calls,
            otherAsked, ?_, concludes⟩
          rw [run, begin_eq, if_pos nothing]
          exact finished
  | @runs inner stepped deeper halts =>
      obtain ⟨ready, request, output, calls, entered⟩ := exists_calls fetched shallow stepped
      cases entered with
      | absorbed asked callers_eq =>
          rw [callers_eq, calls.callers_eq] at deeper
          omega
      | @entered code state asked called =>
          rw [calls.chain_eq] at asked
          obtain ⟨codeReads, after, afterReads, otherAsked⟩ := asked_again steady reads asked
          have mirrors := calls.mirrors code output codeReads afterReads
          rw [enter_eq] at called
          split at called
          · -- Without code the callee would have ended at once.
            obtain ⟨suspended, flag, suffix, -⟩ := unwind_eq_running called
            have shorter := suffix.length_le
            rw [opened, calls.callers_eq, List.length_cons, List.length_cons] at shorter
            omega
          · next something =>
              cases called
              obtain ⟨steps, final, reverted, data, ran, concludes⟩ :=
                halts.concludes steady mirrors
              refine ⟨ready, request, output, code, after, steps, final, reverted, data, calls,
                otherAsked, ?_, concludes⟩
              rw [begin_eq, if_neg something]
              exact ran

/-- The callee has left what its caller was not charged for it. -/
theorem Concludes.gasLeft_eq {ready : Machine σ} {request : Call} {output : Region}
    {final : Machine (σ × List Write)} {reverted : Bool} {data : Bytes}
    (concludes : Concludes chain base config (ready.waitingFor request output) next final
      reverted data)
    (calls : Calls config caller ready request) (counted : config.meterGas = true)
    (part : final.frame.gas ≤ request.gas) :
    (final.frame.gas.toNat : Int) = request.gas.toNat -
      (caller.frame.gas.toNat - Opcode.staticcall.baseGas.toNat - next.frame.gas.toNat) := by
  have price_eq : config.cost .staticcall = Opcode.staticcall.baseGas := if_pos counted
  have covered := calls.covered
  have regained : next.frame.gas.toNat + request.gas.toNat =
      ready.frame.gas.toNat + final.frame.gas.toNat := by
    rw [concludes.gas_eq]
    exact toNat_regain counted part (calls.given_le counted)
  rw [calls.gas_eq, price_eq] at regained
  rw [price_eq] at covered
  rw [UInt64.toNat_sub_of_le _ _ covered] at regained
  rw [UInt64.le_iff_toNat_le] at covered
  omega

end Requests

end Machine

theorem MachineConfig.orDefault_eq {config : MachineConfig} (deep : config.maxCallDepth ≠ 0)
    (limited : config.memoryLimit ≠ 0) : config.orDefault = config := by
  simp only [orDefault, if_neg deep, if_neg limited]

/-- The limits of an environment can be lowered by less than their depth, without a default
taking their place. -/
theorem Environment.of_shallower (block : Option BlockInfo)
    (transaction : Option TransactionInfo) (config : Option MachineConfig) {depth : Nat}
    (shallow : (depth : Int) < (Environment.of block transaction config).config.maxCallDepth) :
    Environment.of block transaction
        (some ((Environment.of block transaction config).config.shallower depth)) =
      (Environment.of block transaction config).shallower depth := by
  have limited : (Environment.of block transaction config).config.memoryLimit ≠ 0 := by
    cases config with
    | none => exact (by decide : ({} : MachineConfig).memoryLimit ≠ 0)
    | some config =>
        simp only [Environment.of, Option.map_some, Option.getD_some, MachineConfig.orDefault]
        split
        · decide
        · assumption
  have deep : (Environment.of block transaction config).config.maxCallDepth - depth ≠ 0 := by
    omega
  exact congrArg (Environment.mk _ _) (MachineConfig.orDefault_eq deep limited)

/-- A static call is a call. If the instruction of a static call is not refused for its depth
and completes, a new interpreter, whose limit on the depth is lowered by the depth of the
caller, completes the requested call with the outcome that the caller is given: it has reverted
exactly where the flag is zero, its data is the return data of the caller, it logs and writes
nothing, and it has the gas that the caller was not charged for it. It may find the chain in
any state that the chain comes to from that of the caller by being read. -/
theorem static_call_is_call (chain : Chain σ) (block : Option BlockInfo)
    (transaction : Option TransactionInfo) (config : Option MachineConfig)
    {interpreter : Interpreter}
    (used : (Interpreter.fresh block transaction config).Used chain interpreter)
    {call : Call} {steps : Nat} {state : σ} {caller after : Machine σ}
    (reaches : interpreter.Reaches chain call steps state caller)
    (fetched : caller.fetched? = some .staticcall)
    (shallow : ((caller.callers.length + 1 : Nat) : Int) <
      interpreter.environment.config.maxCallDepth)
    (completes : Machine.Completes chain interpreter.environment caller after)
    (steady : chain.Steady caller.chain) {other : σ} (reads : chain.Reads caller.chain other) :
    let alone := Interpreter.fresh block transaction
      (some (interpreter.environment.config.shallower (caller.callers.length + 1)))
    ∃ request enough result flag,
      caller.request? interpreter.environment.config = some request ∧
      (alone.call chain request enough other).1 = .completed result ∧
      alone.writes chain request enough other = [] ∧
      result.logs = [] ∧
      after.frame.stack = flag :: caller.frame.stack.drop 6 ∧
      result.reverted = decide (flag = 0) ∧
      result.data = after.registers.returnData ∧
      (interpreter.environment.config.meterGas = true →
        (result.gasLeft.toNat : Int) = request.gas.toNat -
          (caller.frame.gas.toNat - Opcode.staticcall.baseGas.toNat - after.frame.gas.toNat)) ∧
      chain.Reads caller.chain after.chain := by
  intro alone
  have balanced := reaches.balanced (used.idle (Interpreter.fresh_idle _ _ _))
  have environment_eq : interpreter.environment = Environment.of block transaction config :=
    used.environment_eq
  rw [← balanced.depth_eq] at shallow
  have alone_eq : alone.environment =
      interpreter.environment.shallower caller.registers.depth := by
    rw [environment_eq] at shallow ⊢
    rw [← Environment.of_shallower _ _ _ shallow, ← environment_eq, balanced.depth_eq]
    rfl
  obtain ⟨ready, request, output, code, later, enough, final, reverted, data, calls, asked, ran,
    concludes⟩ := completes.concludes fetched shallow steady reads
  rw [← alone_eq] at ran
  have called := Interpreter.call_eq_of_ended asked ran
  rw [Status.verdict_ofHalt, concludes.logs_eq, List.reverse_nil, ite_self] at called
  have completed : (alone.call chain request enough other).1 =
      .completed { reverted, data, gasLeft := final.frame.gas } := by
    rw [← (alone.call_recorded chain request enough other).1, called]
  refine ⟨request, enough, _, if reverted then 0 else 1, calls.request_eq, completed, ?_, rfl, ?_,
    ?_, concludes.returnData_eq.symm, ?_, concludes.reads⟩
  · rw [Interpreter.writes, called]
    exact concludes.unwritten
  · rw [concludes.stack_eq, Machine.waitingFor, calls.stack_eq]
  · cases reverted with
    | true => rfl
    | false => rfl
  · intro counted
    apply concludes.gasLeft_eq calls counted
    rw [UInt64.le_iff_toNat_le, ← Interpreter.gasLeft_add_spent completed]
    exact Nat.le_add_right _ _

theorem Status.eq_running_machine {status : Status σ} (runs : status.running?.isSome = true) :
    status = .running status.machine := by
  cases status with
  | running machine => rfl
  | ended machine ending => cases runs

/-- The machine in which account 0 is about to call account 1. -/
def forwardingCaller : Machine StateSet :=
  (Machine.run (StateSet.chain .whole) meteringInterpreter.environment 6
    (Machine.begin meteringInterpreter.environment.config {} { gas := 1000 }
      (forwardingAccounts.account 0).code forwardingAccounts)).machine

/-- The machine of these accounts after another step. -/
def afterForwarding (machine : Machine StateSet) : Machine StateSet :=
  (machine.step (StateSet.chain .whole) meteringInterpreter.environment).machine

theorem step_eq_afterForwarding {machine : Machine StateSet}
    (runs : (machine.step (StateSet.chain .whole)
      meteringInterpreter.environment).running?.isSome = true) :
    machine.step (StateSet.chain .whole) meteringInterpreter.environment =
      .running (afterForwarding machine) :=
  Status.eq_running_machine runs

theorem forwardingCaller_completes :
    Machine.Completes (StateSet.chain .whole) meteringInterpreter.environment forwardingCaller
      (afterForwarding (afterForwarding (afterForwarding (afterForwarding
        forwardingCaller)))) := by
  apply Machine.Completes.runs (step_eq_afterForwarding (by decide +kernel)) (by decide +kernel)
  apply Machine.Halts.goesOn (step_eq_afterForwarding (by decide +kernel)) (by decide +kernel)
  apply Machine.Halts.goesOn (step_eq_afterForwarding (by decide +kernel)) (by decide +kernel)
  exact .halts (by decide +kernel) (by decide +kernel)
    (step_eq_afterForwarding (by decide +kernel))

/-- Account 1 uses 5 of the 100 gas that it is given, whether it is called by account 0 or on
its own. -/
theorem forwardingCaller_static_call :
    ∃ request enough result,
      ((Interpreter.fresh none none (some (meteringInterpreter.environment.config.shallower
        (forwardingCaller.callers.length + 1)))).call (StateSet.chain .whole) request enough
          forwardingCaller.chain).1 = .completed result ∧
      request.gas = 100 ∧ result.reverted = false ∧ result.gasLeft = 95 := by
  have used : (Interpreter.fresh none none (some { meterGas := true })).Used
      (StateSet.chain .whole) meteringInterpreter := .unused
  have reaches : meteringInterpreter.Reaches (StateSet.chain .whole) { gas := 1000 } 6
      forwardingAccounts forwardingCaller :=
    ⟨_, _, rfl, Status.eq_running_machine (by decide +kernel)⟩
  obtain ⟨request, enough, result, flag, request_eq, completed, -, -, stack_eq, reverted_eq, -,
    gas_eq, -⟩ := static_call_is_call (StateSet.chain .whole) none none
      (some { meterGas := true }) used reaches (by decide +kernel) (by decide +kernel)
      forwardingCaller_completes (StateSet.chain_keeps.steady _) .nothing
  have given : (forwardingCaller.request? meteringInterpreter.environment.config).map Call.gas =
      some 100 := by
    decide +kernel
  have seen : (afterForwarding (afterForwarding (afterForwarding (afterForwarding
      forwardingCaller)))).frame.stack.head? = some 1 ∧
      (afterForwarding (afterForwarding (afterForwarding (afterForwarding
        forwardingCaller)))).frame.gas = 277 ∧ forwardingCaller.frame.gas = 982 := by
    decide +kernel
  obtain ⟨pushed, left_eq, held_eq⟩ := seen
  rw [request_eq, Option.map_some, Option.some_inj] at given
  rw [stack_eq, List.head?_cons, Option.some_inj] at pushed
  rw [pushed] at reverted_eq
  have gas_eq := gas_eq rfl
  rw [left_eq, held_eq, given] at gas_eq
  refine ⟨request, enough, result, completed, given, reverted_eq, ?_⟩
  apply UInt64.toNat_inj.mp
  change (result.gasLeft.toNat : Int) = 100 - (982 - 700 - 277) at gas_eq
  change result.gasLeft.toNat = 95
  omega

end EvmAtlas
