import EvmAtlas.Proofs.Lockstep

/-!
# What the gas of a call decides

A call that never looks at its gas does the same with more of it, and without metering, as
long as the gas it was given suffices. `Funded` relates the gas of the frames of two such
runs. The outermost frame has a fixed amount more in the second run. A callee may be given
more there as well, because what it asks for is clipped to what its caller has, but it uses
up the same amount, so that its caller is charged the same for it.
-/

namespace EvmAtlas

variable {σ : Type}

/-- Frames that wait for the same callees in two runs, and the gas of the running frames. If
the second run is not metered, its gas is of no concern. -/
inductive Funded (metered : Bool) (extra : Nat) :
    List Suspended → UInt64 → List Suspended → UInt64 → Prop where
  | outermost {gas more : UInt64} (surplus : metered = true → more.toNat = gas.toNat + extra) :
      Funded metered extra [] gas [] more
  | waiting {waiting : Suspended} {callers richer : List Suspended}
      {gas more held forwarded : UInt64} (enough : metered = true → gas ≤ more)
      (used_eq : metered = true → forwarded - more = waiting.forwarded - gas)
      (rest : Funded metered extra callers waiting.frame.gas richer held) :
      Funded metered extra (waiting :: callers) gas
        ({ waiting with frame := { waiting.frame with gas := held }, forwarded } :: richer) more

namespace Funded

variable {metered : Bool} {extra : Nat} {callers richer : List Suspended}
variable {gas more price twinPrice : UInt64}

theorem le (funded : Funded metered extra callers gas richer more) (counts : metered = true) :
    gas ≤ more := by
  cases funded with
  | outermost surplus =>
      rw [UInt64.le_iff_toNat_le, surplus counts]
      exact Nat.le_add_right _ _
  | waiting enough used_eq rest => exact enough counts

/-- A price that is paid in both runs leaves them as far apart as they were. -/
theorem spend (funded : Funded metered extra callers gas richer more) (covered : price ≤ gas)
    (same : metered = true → twinPrice = price) :
    Funded metered extra callers (gas - price) richer (more - twinPrice) := by
  have pays (counts : metered = true) :
      (gas - price).toNat + price.toNat = gas.toNat ∧
        (more - twinPrice).toNat + price.toNat = more.toNat := by
    have enough := UInt64.le_trans covered (funded.le counts)
    rw [same counts, UInt64.toNat_sub_of_le _ _ covered, UInt64.toNat_sub_of_le _ _ enough]
    rw [UInt64.le_iff_toNat_le] at covered enough
    omega
  cases funded with
  | outermost surplus =>
      apply outermost
      intro counts
      have paid := pays counts
      have apart := surplus counts
      omega
  | waiting enough used_eq rest =>
      refine waiting ?_ ?_ rest
      · intro counts
        have paid := pays counts
        have ordered := enough counts
        rw [UInt64.le_iff_toNat_le] at ordered ⊢
        omega
      · intro counts
        have used_eq := used_eq counts
        rw [same counts]
        grind

end Funded

/-- Machines that do the same with different gas. The first one is metered. -/
structure Machine.Supplied (metered : Bool) (extra : Nat) (machine twin : Machine σ) :
    Prop where
  frame_eq : twin.frame = { machine.frame with gas := twin.frame.gas }
  registers_eq : twin.registers = machine.registers
  chain_eq : twin.chain = machine.chain
  backed : Backed machine.callers machine.frame.gas
  funded : Funded metered extra machine.callers machine.frame.gas twin.callers twin.frame.gas

/-- What such machines come to. -/
inductive Status.Supplied (metered : Bool) (extra : Nat) : Status σ → Status σ → Prop where
  | running {machine twin : Machine σ} (near : Machine.Supplied metered extra machine twin) :
      Supplied metered extra (.running machine) (.running twin)
  | ended {machine twin : Machine σ} {ending : Ending}
      (registers_eq : twin.registers = machine.registers)
      (chain_eq : twin.chain = machine.chain)
      (surplus : metered = true →
        twin.frame.gas.toNat = machine.frame.gas.toNat + extra) :
      Supplied metered extra (.ended machine ending) (.ended twin ending)
  | crashed {machine twin : Machine σ} {crash : Crash} :
      Supplied metered extra (.ended machine (.crashed crash)) (.ended twin (.crashed crash))

/-- The same environment with or without metering. -/
def Environment.metering (environment : Environment) (metered : Bool) : Environment :=
  { environment with config := { environment.config with meterGas := metered } }

/-- The same interpreter with or without metering. -/
def Interpreter.metering (interpreter : Interpreter) (metered : Bool) : Interpreter :=
  { interpreter with environment := interpreter.environment.metering metered }

namespace Machine

variable {metered : Bool} {extra : Nat} {machine twin : Machine σ}
variable {chain : Chain σ} {config : MachineConfig} {environment : Environment}

namespace Supplied

theorem exists_twin_eq (near : Supplied metered extra machine twin) :
    ∃ gas callers,
      twin = ⟨{ machine.frame with gas }, callers, machine.registers, machine.chain⟩ := by
  obtain ⟨frame, callers, registers, state⟩ := twin
  obtain ⟨frame_eq, rfl, rfl, -, -⟩ := near
  exact ⟨frame.gas, callers, congrArg (Machine.mk · callers _ _) frame_eq⟩

/-- Gas is not among what a chain is asked. -/
theorem answers {α : Type} (access : Access σ α) :
    AnswersBoth (Supplied metered extra) access access := by
  intro machine twin near
  refine ⟨(access machine.chain).1, (access machine.chain).2, (access machine.chain).2, rfl, ?_,
    { near with chain_eq := rfl }⟩
  rw [near.chain_eq]

theorem resume (near : Supplied metered extra machine twin) (output : Region) (flag : Word)
    (data : Bytes) :
    Status.Supplied metered extra (machine.resume output flag data)
      (twin.resume output flag data) := by
  have backed := near.backed
  have funded := near.funded
  obtain ⟨gas, callers, rfl⟩ := near.exists_twin_eq
  unfold Machine.resume
  dsimp only
  split
  · exact .running ⟨rfl, rfl, rfl, backed, funded⟩
  · exact .crashed

end Supplied

/-- Frames that end alike leave the frames that wait for them funded. -/
theorem unwind_supplied (counted : config.meterGas = true) {callers richer : List Suspended}
    (backed : Backed callers machine.frame.gas)
    (funded : Funded metered extra callers machine.frame.gas richer twin.frame.gas)
    (registers_eq : twin.registers = machine.registers) (chain_eq : twin.chain = machine.chain)
    (ending : Ending) :
    Status.Supplied metered extra (unwind config callers machine ending)
      (unwind { config with meterGas := metered } richer twin ending) := by
  induction callers generalizing machine twin richer ending with
  | nil =>
      cases funded with
      | outermost surplus =>
          refine .ended ?_ chain_eq surplus
          rw [registers_eq]
  | cons waiting callers ih =>
      cases funded with
      | @waiting _ _ richer _ _ held forwarded enough used_eq rest =>
          have regained := backed.regain counted
          have left_eq := congrArg (Registers.leave · waiting) registers_eq
          have used_le : waiting.forwarded - machine.frame.gas ≤ waiting.frame.gas :=
            backed.settles.2.1
          have stillFunded : Funded metered extra callers
              (waiting.regain config machine.frame.gas) richer
              (if metered then held - (forwarded - twin.frame.gas) else held) := by
            rw [Suspended.regain, if_pos counted]
            cases metered with
            | true => exact rest.spend used_le used_eq
            | false =>
                have free : false = true → 0 = waiting.forwarded - machine.frame.gas := by
                  intro counts
                  cases counts
                simpa using rest.spend used_le free
          apply unwind_together
          · intro flag data
            apply Supplied.resume
            exact ⟨rfl, left_eq, chain_eq, regained, stillFunded⟩
          · intro fault _
            rw [registers_eq]
            apply ih
            · exact regained
            · exact stillFunded
            · exact left_eq
            · exact chain_eq
          · intro crash
            exact .crashed

namespace Supplied

theorem finish (near : Supplied metered extra machine twin) (counted : config.meterGas = true)
    (ending : Ending) :
    Status.Supplied metered extra (machine.finish config ending)
      (twin.finish { config with meterGas := metered } ending) :=
  unwind_supplied counted near.backed near.funded near.registers_eq near.chain_eq ending

/-- A callee is given what it asks for, as far as its caller has it. What it is given is no
less where its caller has more. -/
theorem enter (near : Supplied metered extra machine twin) (counted : config.meterGas = true)
    {gas more : UInt64} (given : gas ≤ machine.frame.gas) (enough : metered = true → gas ≤ more)
    (callee : Address) (code input : Bytes) (output : Region) :
    Status.Supplied metered extra (machine.enter config callee code input gas output)
      (twin.enter { config with meterGas := metered } callee code input more output) := by
  have opened : Supplied metered extra (machine.opened callee code input gas output)
      (twin.opened callee code input more output) := by
    have backed := near.backed
    have funded := near.funded
    obtain ⟨held, callers, rfl⟩ := near.exists_twin_eq
    refine ⟨rfl, rfl, rfl, ⟨UInt64.le_refl _, given, backed⟩, .waiting enough ?_ funded⟩
    intro _
    exact (UInt64.sub_self more).trans (UInt64.sub_self gas).symm
  apply enter_together
  · exact opened.finish counted _
  · exact .running opened

theorem staticCall (near : Supplied metered extra machine twin)
    (counted : config.meterGas = true) (callee : Address) (input : Bytes) (requested : UInt64)
    (output : Region) :
    Status.Supplied metered extra (staticCall chain config machine callee input requested output)
      (staticCall chain { config with meterGas := metered } twin callee input requested
        output) := by
  have depth_eq : twin.registers.depth = machine.registers.depth :=
    congrArg Registers.depth near.registers_eq
  obtain ⟨answer, state, other, asked, twinAsked, after⟩ := answers (chain.code callee) near
  unfold Machine.staticCall
  rw [asked, twinAsked, depth_eq]
  dsimp only
  split
  · exact near.resume _ _ _
  · cases answer with
    | error fault =>
        dsimp only
        split
        · exact after.resume _ _ _
        · exact after.finish counted _
    | ok code =>
        refine after.enter counted ?_ ?_ callee code input output
        · rw [counted, Bool.true_and]
          split
          · exact UInt64.le_refl _
          · next fits => exact UInt64.not_lt.mp (by simpa using fits)
        · intro counts
          have more := near.funded.le counts
          simp only [counted, counts, Bool.true_and, decide_eq_true_eq]
          grind

end Supplied

/-- Instructions that do not read their gas cannot tell such machines apart. -/
theorem supplied_coupling (counted : config.meterGas = true) :
    Coupling chain chain config { config with meterGas := metered }
      (Supplied metered extra) (Status.Supplied metered extra) where
  memoryLimit_eq := rfl
  frame_eq := Supplied.frame_eq
  returnData_eq := fun near => congrArg Registers.returnData near.registers_eq
  moves := by
    intro machine twin near stack pc memory
    refine ⟨?_, near.registers_eq, near.chain_eq, near.backed, near.funded⟩
    rw [place, near.frame_eq]
    rfl
  goesOn := .running
  ends := fun near => near.finish counted
  crashes := fun _ _ => .crashed
  nonce := fun address => Supplied.answers _
  balance := fun address => Supplied.answers _
  code := fun address => Supplied.answers _
  storage := fun address slot => Supplied.answers _
  calls := fun near => near.staticCall counted

theorem execute_supplied (near : Supplied metered extra machine twin)
    (counted : environment.config.meterGas = true) {opcode : Opcode}
    (writes : opcode.writes = true) :
    Status.Supplied metered extra (execute chain environment machine opcode)
      (execute chain (environment.metering metered) twin opcode) := by
  have coupling : Coupling chain chain environment.config
      { environment.config with meterGas := metered } (Supplied metered extra) _ :=
    supplied_coupling counted
  have backed := near.backed
  have funded := near.funded
  obtain ⟨gas, callers, rfl⟩ := near.exists_twin_eq
  obtain ⟨frame, waiting, registers, state⟩ := machine
  obtain ⟨caller, address, code, input, value, held, pc, stack, memory⟩ := frame
  cases opcode with
  | unsupported => exact coupling.ends near _
  | sstore =>
      simp only [execute]
      cases chain.writer with
      | none => exact coupling.ends near _
      | some writer =>
          rcases stack with _ | ⟨_, _ | _⟩
          · exact .crashed
          · exact .crashed
          · apply coupling.ask near (Supplied.answers _)
            intro answer state other near
            exact coupling.advance near _ _
  | log topics =>
      rcases stack with _ | ⟨_, _ | _⟩
      · exact .crashed
      · exact .crashed
      · simp only [execute]
        split
        · exact .crashed
        · apply coupling.load near
          intro data
          exact .running ⟨rfl, rfl, rfl, backed, funded⟩
  | _ => cases writes

/-- A step that does not read its gas, and that the first machine can pay for. -/
theorem step_supplied (near : Supplied metered extra machine twin)
    (counted : environment.config.meterGas = true)
    (unread : machine.fetched? ≠ some (.reading .gas)) :
    (machine.step chain environment).FailedOutright ∨
      Status.Supplied metered extra (machine.step chain environment)
        (twin.step chain (environment.metering metered)) := by
  refine (exists_admits chain environment machine).imp_right ?_
  rintro ⟨opcode, charged, admits⟩
  obtain ⟨covered, rfl⟩ := charge?_eq_some_iff.mp admits.paid
  have backed := near.backed
  have funded := near.funded
  obtain ⟨gas, callers, rfl⟩ := near.exists_twin_eq
  have price_eq (counts : metered = true) :
      (environment.metering metered).config.cost opcode = environment.config.cost opcode := by
    rw [MachineConfig.cost, MachineConfig.cost, if_pos counted]
    exact if_pos counts
  have twinCovered : (environment.metering metered).config.cost opcode ≤ gas := by
    cases metered with
    | true =>
        rw [price_eq rfl]
        exact UInt64.le_trans covered (funded.le rfl)
    | false => exact UInt64.zero_le
  have twinAdmits : Admits (environment.metering metered).config
      (⟨{ machine.frame with gas }, callers, machine.registers, machine.chain⟩ : Machine σ)
      opcode _ :=
    ⟨admits.fetched, admits.fits, admits.allowed, charge?_eq_some_iff.mpr ⟨twinCovered, rfl⟩⟩
  rw [admits.step_eq, twinAdmits.step_eq]
  apply (supplied_coupling counted).expand
  · exact ⟨rfl, rfl, rfl, backed.mono (UInt64.sub_le covered), funded.spend covered price_eq⟩
  · intro writes machine twin near
    exact execute_supplied near counted writes
  · rintro rfl
    exact (unread admits.fetched).elim

theorem run_supplied (counted : environment.config.meterGas = true) (steps : Nat)
    {status twin : Status σ} (near : Status.Supplied metered extra status twin)
    (unread : ∀ machine ∈ trace chain environment steps status,
      machine.fetched? ≠ some (.reading .gas)) :
    (run chain environment steps status).FailedOutright ∨
      Status.Supplied metered extra (run chain environment steps status)
        (run chain (environment.metering metered) steps twin) := by
  induction steps generalizing status twin with
  | zero => exact .inr near
  | succ steps ih =>
      cases near with
      | ended registers_eq chain_eq surplus =>
          exact .inr (.ended registers_eq chain_eq surplus)
      | crashed => exact .inr .crashed
      | running near =>
          rw [trace, List.forall_mem_cons] at unread
          rcases step_supplied near counted unread.1 with failed | near
          · exact .inl (run_failedOutright failed _ _ _)
          · exact ih near unread.2

theorem begin_supplied {call : Call} {gas : UInt64}
    (surplus : metered = true → gas.toNat = call.gas.toNat + extra) (config : MachineConfig)
    (registers : Registers) (code : Bytes) (state : σ) :
    Status.Supplied metered extra (begin config registers call code state)
      (begin { config with meterGas := metered } registers { call with gas } code state) := by
  unfold begin
  dsimp only
  split
  · exact .ended rfl rfl surplus
  · exact .running ⟨rfl, rfl, rfl, trivial, .outermost surplus⟩

end Machine

theorem Status.Supplied.exists_completed {metered : Bool} {extra : Nat}
    {status twin : Status σ} {result : CallResult}
    (near : Status.Supplied metered extra status twin)
    (completed : status.verdict = .completed result) :
    twin.machine.chain = status.machine.chain ∧
      ∃ left, twin.verdict = .completed { result with gasLeft := left } ∧
        (metered = true → left.toNat = result.gasLeft.toNat + extra) := by
  cases near with
  | running near => cases completed
  | crashed => cases completed
  | @ended machine twin ending registers_eq chain_eq surplus =>
      refine ⟨chain_eq, twin.frame.gas, ?_⟩
      cases ending with
      | crashed crash => cases completed
      | returned data =>
          cases completed
          exact ⟨by rw [verdict, registers_eq], surplus⟩
      | reverted data =>
          cases completed
          exact ⟨rfl, surplus⟩
      | failed fault =>
          unfold verdict at completed ⊢
          dsimp only at completed ⊢
          split at completed
          · next reverts =>
              cases completed
              rw [if_pos reverts]
              exact ⟨rfl, surplus⟩
          · cases completed

namespace Interpreter

variable {interpreter : Interpreter} {chain : Chain σ} {call : Call} {steps : Nat} {state : σ}
variable {metered : Bool} {extra : Nat} {gas : UInt64} {result : CallResult}

theorem call_supplied (counted : interpreter.environment.config.meterGas = true)
    (completed : (interpreter.call chain call steps state).1 = .completed result)
    (unread : ∀ machine ∈ interpreter.trace chain call steps state,
      machine.fetched? ≠ some (.reading .gas))
    (surplus : metered = true → gas.toNat = call.gas.toNat + extra) :
    ((interpreter.metering metered).call chain { call with gas } steps state).2.2 =
        (interpreter.call chain call steps state).2.2 ∧
      ∃ left, ((interpreter.metering metered).call chain { call with gas } steps state).1 =
          .completed { result with gasLeft := left } ∧
        (metered = true → left.toNat = result.gasLeft.toNat + extra) := by
  rcases asked : chain.code call.address state with ⟨_ | code, after⟩
  · rw [Interpreter.call, asked] at completed
    cases completed
  · rw [verdict_eq asked] at completed
    rw [trace_eq asked] at unread
    have begun := Machine.begin_supplied surplus interpreter.environment.config
      interpreter.registers code after
    rcases Machine.run_supplied counted steps begun unread with failed | near
    · exact (failed.not_completed completed).elim
    · unfold Interpreter.call
      dsimp only
      rw [asked]
      exact near.exists_completed completed

theorem writes_supplied (counted : interpreter.environment.config.meterGas = true)
    (completed : (interpreter.call chain call steps state).1 = .completed result)
    (unread : ∀ machine ∈ interpreter.trace chain call steps state,
      machine.fetched? ≠ some (.reading .gas))
    (surplus : metered = true → gas.toNat = call.gas.toNat + extra) :
    (interpreter.metering metered).writes chain { call with gas } steps state =
      interpreter.writes chain call steps state := by
  have recorded := interpreter.call_recorded chain call steps state
  have fetches := interpreter.map_fetched?_trace_recorded chain call steps state
  have stillUnread : ∀ machine ∈ interpreter.trace chain.recorded call steps (state, []),
      machine.fetched? ≠ some (.reading .gas) := by
    intro machine member reads
    have seen := List.mem_map_of_mem member (f := Machine.fetched?)
    rw [fetches, reads, List.mem_map] at seen
    obtain ⟨other, member, reads⟩ := seen
    exact unread other member reads
  exact congrArg Prod.snd
    (call_supplied counted (recorded.1.trans completed) stillUnread surplus).1

theorem metering_eq (counted : interpreter.environment.config.meterGas = true) :
    interpreter.metering true = interpreter := by
  rw [metering, Environment.metering, ← counted]

end Interpreter

/-- The gas of a call decides nothing but whether it suffices. If a metered call completes
without reading its gas in any frame, it does the same with more gas, and it uses as much of
that. Without metering it does the same with any gas. -/
theorem gas_supply_decides_nothing (chain : Chain σ) (interpreter : Interpreter) (call : Call)
    (steps : Nat) (state : σ) {result : CallResult}
    (counted : interpreter.environment.config.meterGas = true)
    (completed : (interpreter.call chain call steps state).1 = .completed result)
    (unread : ∀ machine ∈ interpreter.trace chain call steps state,
      machine.fetched? ≠ some (.reading .gas)) (gas : UInt64) :
    (call.gas ≤ gas → ∃ left,
      (interpreter.call chain { call with gas } steps state).1 =
          .completed { result with gasLeft := left } ∧
        (gas.toNat : Int) - left.toNat = call.gas.toNat - result.gasLeft.toNat ∧
        interpreter.writes chain { call with gas } steps state =
          interpreter.writes chain call steps state ∧
        (interpreter.call chain { call with gas } steps state).2.2 =
          (interpreter.call chain call steps state).2.2) ∧
    ∃ left,
      ((interpreter.metering false).call chain { call with gas } steps state).1 =
          .completed { result with gasLeft := left } ∧
        (interpreter.metering false).writes chain { call with gas } steps state =
          interpreter.writes chain call steps state ∧
        ((interpreter.metering false).call chain { call with gas } steps state).2.2 =
          (interpreter.call chain call steps state).2.2 := by
  constructor
  · intro enough
    obtain ⟨extra, surplus⟩ := Nat.exists_eq_add_of_le (UInt64.le_iff_toNat_le.mp enough)
    have same_writes := Interpreter.writes_supplied counted completed unread
      (fun _ : true = true => surplus)
    obtain ⟨same_state, left, twinCompleted, apart⟩ := Interpreter.call_supplied counted
      completed unread (fun _ : true = true => surplus)
    rw [Interpreter.metering_eq counted] at same_writes same_state twinCompleted
    refine ⟨left, twinCompleted, ?_, same_writes, same_state⟩
    have apart := apart rfl
    omega
  · have free : false = true → gas.toNat = call.gas.toNat + 0 := by
      intro counts
      cases counts
    have same_writes := Interpreter.writes_supplied counted completed unread free
    obtain ⟨same_state, left, twinCompleted, -⟩ := Interpreter.call_supplied counted
      completed unread free
    exact ⟨left, twinCompleted, same_writes, same_state⟩

/-- Account 0, which stores a word, asks for more gas for account 1 than it has and stops, and
account 1, which pushes a word and drops it again. -/
def clippingAccounts : StateSet :=
  (({} : StateSet).setCode 0 (Bytes.ofList [0x60, 0x07, 0x60, 0x01, 0x55, 0x60, 0x00, 0x60, 0x00,
    0x60, 0x00, 0x60, 0x00, 0x60, 0x01, 0x61, 0xff, 0xff, 0xfa, 0x00])).setCode 1
      (Bytes.ofList [0x60, 0x01, 0x50, 0x00])

/-- With 6000 gas the callee is given 276 of it and with 30000 gas it is given 24276. Both
times the call costs 5729 gas, and it needs none where nothing is charged. -/
theorem clippingAccounts_supply :
    ∃ result,
      (meteringInterpreter.call (StateSet.chain .whole) { gas := 6000 } 14
          clippingAccounts).1 = .completed result ∧
        result.gasLeft = 271 ∧
        (meteringInterpreter.call (StateSet.chain .whole) { gas := 30000 } 14
          clippingAccounts).1 = .completed { result with gasLeft := 24271 } ∧
        ∃ left, ((meteringInterpreter.metering false).call (StateSet.chain .whole) { gas := 0 }
          14 clippingAccounts).1 = .completed { result with gasLeft := left } := by
  have ends : (meteringInterpreter.call (StateSet.chain .whole) { gas := 6000 } 14
      clippingAccounts).1.result?.any (fun result => result.gasLeft == 271) = true := by
    decide +kernel
  obtain ⟨result, completed, seen⟩ := Verdict.exists_completed ends
  rw [beq_iff_eq] at seen
  have unread : ∀ machine ∈ meteringInterpreter.trace (StateSet.chain .whole) { gas := 6000 } 14
      clippingAccounts, machine.fetched? ≠ some (.reading .gas) := by
    decide +kernel
  obtain ⟨left, richer, spent_eq, -⟩ := (gas_supply_decides_nothing (StateSet.chain .whole)
    meteringInterpreter { gas := 6000 } 14 clippingAccounts rfl completed unread 30000).1
      (by decide)
  obtain ⟨free, unmetered, -⟩ := (gas_supply_decides_nothing (StateSet.chain .whole)
    meteringInterpreter { gas := 6000 } 14 clippingAccounts rfl completed unread 0).2
  have left_eq : left = 24271 := by
    rw [seen] at spent_eq
    change (30000 : Int) - left.toNat = 6000 - 271 at spent_eq
    apply UInt64.toNat_inj.mp
    change left.toNat = 24271
    omega
  rw [left_eq] at richer
  exact ⟨result, completed, seen, richer, free, unmetered⟩

end EvmAtlas
