import EvmAtlas.Proofs.Trace

/-!
# Where the gas of a call goes

Gas that a frame forwards stays counted with the frame until its callee ends. `settle` is
what the outermost frame is left with once every frame above it has handed back what it has
left, and `Backed` says that no frame was given more than the frame that waits for it has.
`Owes` ties the frames of a machine to the amount that they settle to. Every instruction
that is executed takes its price from that amount, in whichever frame it runs, and a frame
that ends takes nothing.
-/

namespace EvmAtlas

variable {σ : Type}

/-- The gas of a waiting frame after a callee that has some of its gas left. -/
def Suspended.regain (config : MachineConfig) (waiting : Suspended) (left : UInt64) : UInt64 :=
  if config.meterGas then waiting.frame.gas - (waiting.forwarded - left)
  else waiting.frame.gas

/-- The gas of the outermost frame after all frames above it have ended, the first of them
with some gas left. -/
def settle (config : MachineConfig) : List Suspended → UInt64 → UInt64
  | [], gas => gas
  | waiting :: callers, gas => settle config callers (waiting.regain config gas)

/-- Whether no subtraction goes below zero when a frame that has some gas left ends, and
after it every frame that waits. -/
def Settles : List Suspended → UInt64 → Prop
  | [], _ => True
  | waiting :: callers, gas =>
      gas ≤ waiting.forwarded ∧ waiting.forwarded - gas ≤ waiting.frame.gas ∧
        Settles callers (waiting.frame.gas - (waiting.forwarded - gas))

/-- Whether the gas of a frame is part of what it was given, and that part of what the
frame that waits for it has. -/
def Backed : List Suspended → UInt64 → Prop
  | [], _ => True
  | waiting :: callers, gas =>
      gas ≤ waiting.forwarded ∧ waiting.forwarded ≤ waiting.frame.gas ∧
        Backed callers waiting.frame.gas

section Settling

variable {config : MachineConfig} {waiting : Suspended} {callers : List Suspended}
variable {gas less : UInt64}

theorem Backed.mono (backed : Backed callers gas) (fewer : less ≤ gas) :
    Backed callers less := by
  cases callers with
  | nil => trivial
  | cons waiting callers =>
      obtain ⟨part, rest⟩ := backed
      exact ⟨UInt64.le_trans fewer part, rest⟩

/-- What a frame has used is missing from the gas of the frame that waits for it. -/
theorem toNat_regain (metered : config.meterGas = true) (part : gas ≤ waiting.forwarded)
    (given : waiting.forwarded ≤ waiting.frame.gas) :
    (waiting.regain config gas).toNat + waiting.forwarded.toNat =
      waiting.frame.gas.toNat + gas.toNat := by
  rw [UInt64.le_iff_toNat_le] at part given
  have used : (waiting.forwarded - gas).toNat = waiting.forwarded.toNat - gas.toNat :=
    UInt64.toNat_sub_of_le _ _ part
  rw [Suspended.regain, if_pos metered, UInt64.toNat_sub_of_le, used]
  · omega
  · rw [UInt64.le_iff_toNat_le, used]
    omega

theorem le_regain (metered : config.meterGas = true)
    (backed : Backed (waiting :: callers) gas) : gas ≤ waiting.regain config gas := by
  obtain ⟨part, given, -⟩ := backed
  have regained := toNat_regain metered part given
  rw [UInt64.le_iff_toNat_le] at given ⊢
  omega

theorem Backed.regain (metered : config.meterGas = true)
    (backed : Backed (waiting :: callers) gas) :
    Backed callers (waiting.regain config gas) := by
  obtain ⟨part, given, rest⟩ := backed
  apply rest.mono
  have regained := toNat_regain metered part given
  rw [UInt64.le_iff_toNat_le] at part ⊢
  omega

theorem Backed.settles (backed : Backed callers gas) : Settles callers gas := by
  induction callers generalizing gas with
  | nil => trivial
  | cons waiting callers ih =>
      have regained : Backed callers (waiting.regain { meterGas := true } gas) :=
        backed.regain rfl
      obtain ⟨part, given, -⟩ := backed
      refine ⟨part, UInt64.le_trans ?_ given, ih regained⟩
      rw [UInt64.le_iff_toNat_le, UInt64.toNat_sub_of_le _ _ part]
      exact Nat.sub_le _ _

theorem toNat_settle_sub (metered : config.meterGas = true) (backed : Backed callers gas)
    (covered : less ≤ gas) :
    (settle config callers (gas - less)).toNat + less.toNat =
      (settle config callers gas).toNat := by
  induction callers generalizing gas with
  | nil =>
      rw [settle, settle, UInt64.toNat_sub_of_le _ _ covered]
      exact Nat.sub_add_cancel (UInt64.le_iff_toNat_le.mp covered)
  | cons waiting callers ih =>
      have enough := UInt64.le_trans covered (le_regain metered backed)
      have regain_sub :
          waiting.regain config (gas - less) = waiting.regain config gas - less := by
        obtain ⟨part, given, -⟩ := backed
        have left := UInt64.toNat_sub_of_le _ _ covered
        have before := toNat_regain metered part given
        have after := toNat_regain metered (UInt64.le_trans (UInt64.sub_le covered) part) given
        apply UInt64.toNat_inj.mp
        rw [UInt64.le_iff_toNat_le] at covered
        rw [UInt64.toNat_sub_of_le _ _ enough]
        omega
      rw [settle, settle, regain_sub]
      exact ih (backed.regain metered) enough

end Settling

/-- Frames of which the outermost is left with a total once all of them have ended. -/
structure Owes (config : MachineConfig) (callers : List Suspended) (gas : UInt64)
    (total : Nat) : Prop where
  backed : config.meterGas = true → Backed callers gas
  total_eq : (settle config callers gas).toNat = total

/-- A status whose outermost frame ends, or has ended, with a total. -/
inductive Status.Owes (config : MachineConfig) (total : Nat) : Status σ → Prop where
  | running {machine : Machine σ}
      (owes : EvmAtlas.Owes config machine.callers machine.frame.gas total) :
      Owes config total (.running machine)
  | ended {machine : Machine σ} {ending : Ending}
      (left : machine.frame.gas.toNat = total) : Owes config total (.ended machine ending)
  | crashed {machine : Machine σ} {crash : Crash} :
      Owes config total (.ended machine (.crashed crash))

/-- A machine that failed with a fault that no frame absorbs. -/
def Status.FailedOutright (status : Status σ) : Prop :=
  ∃ final fault, status = .ended final (.failed fault) ∧ Machine.isAbsorbed fault = false

namespace Owes

variable {config : MachineConfig} {callers : List Suspended} {gas : UInt64} {total : Nat}

/-- What an instruction costs comes out of the total. -/
theorem pay {opcode : Opcode} (owes : Owes config callers gas total)
    (covered : config.cost opcode ≤ gas) :
    ∃ left, left + (config.cost opcode).toNat = total ∧
      Owes config callers (gas - config.cost opcode) left := by
  cases metered : config.meterGas with
  | true =>
      have backed := owes.backed metered
      refine ⟨_, (toNat_settle_sub metered backed covered).trans owes.total_eq, ?_, rfl⟩
      intro _
      exact backed.mono (UInt64.sub_le covered)
  | false =>
      have free : config.cost opcode = 0 := by
        rw [MachineConfig.cost, metered]
        rfl
      rw [free, UInt64.sub_zero]
      exact ⟨total, rfl, owes⟩

/-- A callee and the frame that waits for it have together what that frame had. -/
theorem push {waiting : Suspended} (owes : Owes config callers gas total)
    (held : waiting.frame.gas = gas)
    (given : config.meterGas = true → waiting.forwarded ≤ gas) :
    Owes config (waiting :: callers) waiting.forwarded total := by
  constructor
  · intro metered
    rw [← held] at given owes
    exact ⟨UInt64.le_refl _, given metered, owes.backed metered⟩
  · rw [settle, Suspended.regain, held, UInt64.sub_self, UInt64.sub_zero, ite_self]
    exact owes.total_eq

/-- What a frame has left goes back to the frame that waits for it. -/
theorem pop {waiting : Suspended} (owes : Owes config (waiting :: callers) gas total) :
    Owes config callers (waiting.regain config gas) total := by
  constructor
  · intro metered
    exact (owes.backed metered).regain metered
  · exact owes.total_eq

end Owes

namespace Machine

variable {config : MachineConfig} {machine : Machine σ} {total : Nat}

theorem resume_owes {output : Region} {flag : Word} {data : Bytes}
    (owes : Owes config machine.callers machine.frame.gas total) :
    (machine.resume output flag data).Owes config total := by
  unfold resume
  dsimp only
  split
  · exact .running owes
  · exact .crashed

/-- A frame that ends takes nothing from what the outermost frame ends with. -/
theorem unwind_owes {callers : List Suspended} {ending : Ending}
    (owes : Owes config callers machine.frame.gas total) :
    (unwind config callers machine ending).Owes config total := by
  induction callers generalizing machine ending with
  | nil => exact .ended owes.total_eq
  | cons waiting callers ih =>
      cases ending with
      | returned data => exact resume_owes owes.pop
      | reverted data => exact resume_owes owes.pop
      | failed fault =>
          simp only [unwind]
          split
          · exact resume_owes owes.pop
          · exact ih owes.pop
      | crashed crash => exact .crashed

theorem Course.owes {room : Prop} {gas : UInt64} {callers : List Suspended} {opcode : Opcode}
    {status : Status σ} (course : Course config room gas callers opcode status)
    (owes : Owes config callers gas total) : status.Owes config total := by
  have callee {waiting : Suspended} {inner : Machine σ}
      (opens : Opens config room gas callers waiting inner) :
      Owes config inner.callers inner.frame.gas total := by
    rw [opens.callers_eq, opens.given_eq]
    exact owes.push opens.held_eq opens.given_le
  have unchanged {after : Machine σ} (same : HasGas gas callers after) :
      Owes config after.callers after.frame.gas total := by
    rw [same.callers_eq, same.gas_eq]
    exact owes
  cases course with
  | goesOn lasts same => exact .running (unchanged same)
  | calls fetched opens => exact .running (callee opens)
  | returns fetched opens => exact unwind_owes (callee opens)
  | ends same orderly => exact unwind_owes (unchanged same)
  | crashes tight => exact .crashed

/-- A step takes the price of its instruction from the total, unless the instruction is
refused. -/
theorem step_owes (chain : Chain σ) (environment : Environment)
    (owes : Owes environment.config machine.callers machine.frame.gas total) :
    (machine.step chain environment).FailedOutright ∨
      ∃ opcode left, machine.fetched? = some opcode ∧
        left + (environment.config.cost opcode).toNat = total ∧
        (machine.step chain environment).Owes environment.config left := by
  have sequel := step_sequel chain environment machine
  generalize machine.step chain environment = status at sequel ⊢
  cases sequel with
  | @refused fault passes =>
      left
      obtain ⟨final, around, failed, -⟩ := fail_eq_failed environment.config machine passes
      exact ⟨final, _, failed, passes⟩
  | executed fetched covered course =>
      right
      obtain ⟨left, spends, owes⟩ := owes.pay covered
      exact ⟨_, left, fetched, spends, course.owes owes⟩

/-- What a run takes from the total is what its instructions cost. -/
theorem run_owes (chain : Chain σ) (environment : Environment) (steps : Nat)
    {status : Status σ} (owes : status.Owes environment.config total) :
    (run chain environment steps status).FailedOutright ∨
      ∃ left, left + spent environment.config.cost (trace chain environment steps status) =
          total ∧
        (run chain environment steps status).Owes environment.config left := by
  induction steps generalizing status total with
  | zero => exact .inr ⟨total, rfl, owes⟩
  | succ steps ih =>
      cases owes with
      | ended left => exact .inr ⟨total, rfl, .ended left⟩
      | crashed => exact .inr ⟨total, rfl, .crashed⟩
      | @running machine owes =>
          simp only [run, trace]
          rcases step_owes chain environment owes with
            failed | ⟨opcode, rest, fetched, charged, owes⟩
          · left
            obtain ⟨final, fault, stepped, passes⟩ := failed
            rw [stepped, run_ended]
            exact ⟨final, fault, rfl, passes⟩
          · rw [spent_cons fetched]
            apply (ih owes).imp_right
            rintro ⟨left, spends, owes⟩
            refine ⟨left, ?_, owes⟩
            omega

theorem begin_owes (config : MachineConfig) (registers : Registers) (call : Call) (code : Bytes)
    (state : σ) : (begin config registers call code state).Owes config call.gas.toNat := by
  unfold begin
  dsimp only
  split
  · exact .ended rfl
  · exact .running ⟨fun _ => trivial, rfl⟩

end Machine

theorem Status.Owes.gasLeft {config : MachineConfig} {total : Nat} {status : Status σ}
    {result : CallResult} (owes : status.Owes config total)
    (completed : status.verdict = .completed result) : result.gasLeft.toNat = total := by
  have judged := status.judged
  rw [completed] at judged
  cases judged with
  | completed gas_eq reverts orderly =>
      cases owes with
      | ended left =>
          rw [gas_eq]
          exact left
      | @crashed _ crash => exact (orderly crash rfl).elim

theorem Status.FailedOutright.not_completed {status : Status σ} {result : CallResult}
    (failed : status.FailedOutright) : status.verdict ≠ .completed result := by
  intro completed
  have judged := status.judged
  obtain ⟨final, fault, rfl, passes⟩ := failed
  rw [completed] at judged
  cases judged with
  | completed gas_eq reverts orderly =>
      rw [Machine.isAbsorbed, reverts fault rfl] at passes
      cases passes

namespace Interpreter

variable {interpreter : Interpreter} {chain : Chain σ} {call : Call} {steps : Nat} {state : σ}

/-- What a call that completes has left, and what its instructions cost, is what it was
given. -/
theorem gasLeft_add_spent {result : CallResult}
    (completed : (interpreter.call chain call steps state).1 = .completed result) :
    result.gasLeft.toNat + Machine.spent interpreter.environment.config.cost
      (interpreter.trace chain call steps state) = call.gas.toNat := by
  rcases asked : chain.code call.address state with ⟨_ | code, after⟩
  · rw [Interpreter.call, asked] at completed
    cases completed
  · rw [verdict_eq asked] at completed
    rw [trace_eq asked]
    have owes := Machine.begin_owes interpreter.environment.config interpreter.registers call
      code after
    rcases Machine.run_owes chain interpreter.environment steps owes with
      failed | ⟨left, spends, owes⟩
    · exact (failed.not_completed completed).elim
    · rw [owes.gasLeft completed]
      exact spends

/-- At any moment, what the outermost frame will end with and what was spent is what the
call was given. -/
theorem Reaches.owes {machine : Machine σ}
    (reaches : interpreter.Reaches chain call steps state machine) :
    ∃ left, left + Machine.spent interpreter.environment.config.cost
        (interpreter.trace chain call steps state) = call.gas.toNat ∧
      Owes interpreter.environment.config machine.callers machine.frame.gas left := by
  obtain ⟨code, after, asked, ran⟩ := reaches
  rw [trace_eq asked]
  have owes := Machine.begin_owes interpreter.environment.config interpreter.registers call
    code after
  rcases Machine.run_owes chain interpreter.environment steps owes with
    failed | ⟨left, spends, owes⟩
  · obtain ⟨final, fault, ended, -⟩ := failed
    rw [ran] at ended
    cases ended
  · rw [ran] at owes
    cases owes with
    | running owes => exact ⟨left, spends, owes⟩

end Interpreter

/-- Whether no subtraction goes below zero where the running frame ends with no more gas than
it has, nor where it calls with no more than that and the callee ends at once. -/
def Machine.Solvent (machine : Machine σ) : Prop :=
  ∀ left ≤ machine.frame.gas, Settles machine.callers left ∧
    ∀ waiting : Suspended, waiting.frame.gas = left → waiting.forwarded ≤ left →
      Settles (waiting :: machine.callers) waiting.forwarded

theorem Machine.solvent_of_backed {machine : Machine σ}
    (backed : Backed machine.callers machine.frame.gas) : machine.Solvent := by
  intro left fewer
  have still := backed.mono fewer
  refine ⟨still.settles, ?_⟩
  rintro waiting rfl given
  apply Backed.settles
  exact ⟨UInt64.le_refl _, given, still⟩

/-- Gas is conserved across all frames of a metered call. A call that completes has what it
was given less the prices of the instructions it ran, in all of its frames, and no
subtraction on the way goes below zero: a frame is charged no more than it has, and
whatever a frame has left when it ends, it and every frame that waits can be settled. The
machine is at any moment worth what the call was given less what was spent. Without
metering a call that completes has all of its gas. -/
theorem gas_conserved (chain : Chain σ) (interpreter : Interpreter) (call : Call) (steps : Nat)
    (state : σ) :
    (interpreter.environment.config.meterGas = true →
      (∀ result, (interpreter.call chain call steps state).1 = .completed result →
        result.gasLeft.toNat + Machine.spent Opcode.baseGas
          (interpreter.trace chain call steps state) = call.gas.toNat) ∧
      ∀ machine, interpreter.Reaches chain call steps state machine →
        (settle interpreter.environment.config machine.callers machine.frame.gas).toNat +
            Machine.spent Opcode.baseGas (interpreter.trace chain call steps state) =
          call.gas.toNat ∧
        machine.Solvent ∧
        machine.Sequel interpreter.environment
          (machine.step chain interpreter.environment)) ∧
    (interpreter.environment.config.meterGas = false →
      ∀ result, (interpreter.call chain call steps state).1 = .completed result →
        result.gasLeft = call.gas) := by
  constructor
  · intro metered
    have price : interpreter.environment.config.cost = Opcode.baseGas := by
      funext opcode
      rw [MachineConfig.cost, if_pos metered]
    rw [← price]
    constructor
    · intro result completed
      exact Interpreter.gasLeft_add_spent completed
    · intro machine reaches
      obtain ⟨left, spends, owes⟩ := reaches.owes
      refine ⟨?_, Machine.solvent_of_backed (owes.backed metered), Machine.step_sequel _ _ _⟩
      rw [owes.total_eq, spends]
  · intro unmetered result completed
    have price : interpreter.environment.config.cost = fun _ => 0 := by
      funext opcode
      rw [MachineConfig.cost, unmetered]
      rfl
    have conserved := Interpreter.gasLeft_add_spent completed
    rw [price] at conserved
    apply UInt64.toNat_inj.mp
    simpa [Machine.spent] using conserved

/-- Account 0, which forwards 100 gas to account 1 and stops, and account 1, which pushes a
word and drops it again. -/
def forwardingAccounts : StateSet :=
  (({} : StateSet).setCode 0 (Bytes.ofList [0x60, 0x00, 0x60, 0x00, 0x60, 0x00, 0x60, 0x00,
    0x60, 0x01, 0x60, 0x64, 0xfa, 0x00])).setCode 1 (Bytes.ofList [0x60, 0x01, 0x50, 0x00])

/-- A metered machine. -/
def meteringInterpreter : Interpreter :=
  .fresh none none (some { meterGas := true })

/-- Both frames are paid for: 718 gas in the outer one, 5 in the inner one. In the inner one
the machine is worth what is left of the gas of the call. -/
theorem forwardingAccounts_gas_conserved :
    (∃ result, (meteringInterpreter.call (StateSet.chain .whole) { gas := 1000 } 11
        forwardingAccounts).1 = .completed result ∧
      result.gasLeft = 277 ∧
      Machine.spent Opcode.baseGas (meteringInterpreter.trace (StateSet.chain .whole)
        { gas := 1000 } 11 forwardingAccounts) = 723) ∧
    ∃ machine, meteringInterpreter.Reaches (StateSet.chain .whole) { gas := 1000 } 8
        forwardingAccounts machine ∧
      machine.callers.length = 1 ∧ machine.frame.gas = 97 ∧
      Settles machine.callers machine.frame.gas := by
  constructor
  · have ends : (meteringInterpreter.call (StateSet.chain .whole) { gas := 1000 } 11
        forwardingAccounts).1.result?.any (fun result => result.gasLeft == 277) = true := by
      decide +kernel
    obtain ⟨result, completed, seen⟩ := Verdict.exists_completed ends
    rw [beq_iff_eq] at seen
    have conserved := ((gas_conserved (StateSet.chain .whole) meteringInterpreter
      { gas := 1000 } 11 forwardingAccounts).1 rfl).1 result completed
    rw [seen] at conserved
    exact ⟨result, completed, seen, Nat.add_left_cancel conserved⟩
  · have comes : (Machine.run (StateSet.chain .whole) meteringInterpreter.environment 8
        (Machine.begin meteringInterpreter.environment.config {} { gas := 1000 }
          (forwardingAccounts.account 0).code forwardingAccounts)).running?.any
        (fun machine => machine.callers.length == 1 && machine.frame.gas == 97) = true := by
      decide +kernel
    obtain ⟨machine, ran, seen⟩ := Status.exists_running comes
    rw [Bool.and_eq_true, beq_iff_eq, beq_iff_eq] at seen
    have reaches : meteringInterpreter.Reaches (StateSet.chain .whole) { gas := 1000 } 8
        forwardingAccounts machine := ⟨_, _, rfl, ran⟩
    obtain ⟨-, solvent, -⟩ := ((gas_conserved (StateSet.chain .whole) meteringInterpreter
      { gas := 1000 } 8 forwardingAccounts).1 rfl).2 machine reaches
    exact ⟨machine, reaches, seen.1, seen.2, (solvent _ (UInt64.le_refl _)).1⟩

end EvmAtlas
