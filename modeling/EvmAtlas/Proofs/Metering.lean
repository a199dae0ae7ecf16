import EvmAtlas.Proofs.Gas

/-!
# Metered calls end

A machine that goes on with its frame has paid for the instruction, and one that goes back
to a frame that waits has one frame less. The gas that the outermost frame will end with
and the number of frames that wait are therefore a measure of a metered machine: a step
lowers their sum unless it enters a frame, and one that enters a frame is paid for as well.
A call makes no more steps than its gas and the frames it enters allow.
-/

namespace EvmAtlas

variable {σ : Type}

theorem Opcode.baseGas_pos {opcode : Opcode} (lasts : opcode.isHalt = false) :
    0 < opcode.baseGas.toNat := by
  cases opcode with
  | stop | «return» | revert => cases lasts
  | binary operation | unsupported operation => cases operation <;> decide
  | log topics =>
      revert topics
      decide
  | _ => simp [baseGas]

namespace Machine

variable {chain : Chain σ} {environment : Environment} {machine after : Machine σ}
variable {total : Nat}

theorem entered_cons (machines : List (Machine σ)) :
    entered chain environment (machine :: machines) =
      entered chain environment machines + (machine.enters chain environment).toNat := by
  rw [entered, List.countP_cons, ← entered]
  cases machine.enters chain environment with
  | true => rfl
  | false => rfl

theorem enters_of_running (stepped : machine.step chain environment = .running after) :
    machine.enters chain environment =
      decide (machine.callers.length < after.callers.length) := by
  rw [enters, stepped]
  rfl

theorem enters_of_ended {ending : Ending}
    (stepped : machine.step chain environment = .ended after ending) :
    machine.enters chain environment = false := by
  rw [enters, stepped]
  rfl

/-- Back in a frame that waited, a machine has one frame less. -/
theorem length_of_resumes {callers : List Suspended} (resumes : Resumes callers after) :
    after.callers.length < callers.length := by
  obtain ⟨suspended, flag, suffix, -⟩ := resumes
  exact suffix.length_le

/-- A machine that goes on has paid for its instruction or has fewer frames that wait. One
that has entered a frame has paid for that. -/
theorem Course.length_callers {config : MachineConfig} {room : Prop} {gas : UInt64}
    {callers : List Suspended} {opcode : Opcode} {status : Status σ}
    (course : Course config room gas callers opcode status)
    (lasts : status = .running after) :
    let deeper := decide (callers.length < after.callers.length)
    after.callers.length < opcode.baseGas.toNat + callers.length + deeper.toNat ∧
      deeper.toNat ≤ opcode.baseGas.toNat := by
  have callPrice : 0 < Opcode.staticcall.baseGas.toNat := Opcode.baseGas_pos rfl
  dsimp only
  cases course with
  | goesOn goesOn same =>
      cases lasts
      have positive := Opcode.baseGas_pos goesOn
      rw [same.callers_eq, decide_eq_false (Nat.lt_irrefl _), Bool.toNat_false]
      omega
  | calls fetched opens =>
      cases lasts
      cases fetched
      rw [opens.callers_eq, List.length_cons, decide_eq_true (Nat.lt_succ_self _),
        Bool.toNat_true]
      omega
  | returns fetched opens =>
      cases fetched
      have fewer := length_of_resumes (unwind_eq_running lasts)
      rw [opens.callers_eq, List.length_cons] at fewer
      rw [decide_eq_false (by omega), Bool.toNat_false]
      omega
  | ends same orderly =>
      have fewer := length_of_resumes (unwind_eq_running lasts)
      rw [same.callers_eq] at fewer
      rw [decide_eq_false (by omega), Bool.toNat_false]
      omega
  | crashes => cases lasts

/-- A step that does not end the machine lowers its measure, or enters a frame. -/
theorem step_measure (metered : environment.config.meterGas = true)
    (owes : Owes environment.config machine.callers machine.frame.gas total)
    (stepped : machine.step chain environment = .running after) :
    ∃ left, Owes environment.config after.callers after.frame.gas left ∧
      left + after.callers.length <
        total + machine.callers.length + (machine.enters chain environment).toNat ∧
      left + (machine.enters chain environment).toNat ≤ total := by
  have sequel := step_sequel chain environment machine
  generalize status_eq : machine.step chain environment = status at sequel
  rw [stepped] at status_eq
  cases sequel with
  | refused passes =>
      obtain ⟨final, around, failed, -⟩ := fail_eq_failed environment.config machine passes
      rw [failed] at status_eq
      cases status_eq
  | executed fetched covered course =>
      obtain ⟨left, spends, owes⟩ := owes.pay covered
      rw [MachineConfig.cost, if_pos metered] at spends
      have measure := course.length_callers status_eq.symm
      have still := course.owes owes
      rw [← status_eq] at still
      cases still with
      | running still =>
          refine ⟨left, still, ?_⟩
          rw [enters_of_running stepped]
          omega

/-- A run makes no more steps than its measure and the frames it enters allow, and one more
that ends it. -/
theorem run_measure (chain : Chain σ) (metered : environment.config.meterGas = true)
    (owes : Owes environment.config machine.callers machine.frame.gas total) (steps : Nat) :
    (trace chain environment steps (.running machine)).length ≤
        total + machine.callers.length +
          entered chain environment (trace chain environment steps (.running machine)) + 1 ∧
      entered chain environment (trace chain environment steps (.running machine)) ≤ total := by
  induction steps generalizing machine total with
  | zero => exact ⟨Nat.zero_le _, Nat.zero_le _⟩
  | succ steps ih =>
      rw [trace, List.length_cons, entered_cons]
      cases stepped : machine.step chain environment with
      | running after =>
          obtain ⟨left, owes, lower, paid⟩ := step_measure metered owes stepped
          obtain ⟨length_le, entered_le⟩ := ih owes
          omega
      | ended final ending =>
          rw [trace_ended, enters_of_ended stepped]
          constructor
          · exact Nat.le_add_left _ _
          · exact Nat.zero_le _

end Machine

namespace Interpreter

variable {interpreter : Interpreter}

theorem trace_measure (metered : interpreter.environment.config.meterGas = true)
    (chain : Chain σ) (call : Call) (steps : Nat) (state : σ) :
    (interpreter.trace chain call steps state).length ≤
        call.gas.toNat + (1 + Machine.entered chain interpreter.environment
          (interpreter.trace chain call steps state)) ∧
      Machine.entered chain interpreter.environment
        (interpreter.trace chain call steps state) ≤ call.gas.toNat := by
  rcases asked : chain.code call.address state with ⟨_ | code, after⟩
  · rw [Interpreter.trace, asked]
    exact ⟨Nat.zero_le _, Nat.zero_le _⟩
  · rw [trace_eq asked]
    have owes := Machine.begin_owes interpreter.environment.config interpreter.registers call
      code after
    cases began : Machine.begin interpreter.environment.config interpreter.registers call code
        after with
    | ended machine ending =>
        rw [Machine.trace_ended]
        exact ⟨Nat.zero_le _, Nat.zero_le _⟩
    | running machine =>
        rw [began] at owes
        cases owes with
        | running owes =>
            obtain ⟨length_le, entered_le⟩ := Machine.run_measure chain metered owes steps
            rw [Machine.begin_callers began, List.length_nil] at length_le
            refine ⟨?_, entered_le⟩
            omega

/-- A metered call has come to its verdict after a number of steps that its gas bounds. -/
theorem verdict_ne_unfinished (metered : interpreter.environment.config.meterGas = true)
    (chain : Chain σ) (call : Call) {steps : Nat} (state : σ)
    (enough : 2 * call.gas.toNat + 1 < steps) :
    (interpreter.call chain call steps state).1 ≠ .unfinished := by
  intro unfinished
  obtain ⟨machine, code, after, asked, ran⟩ := exists_reaches unfinished
  obtain ⟨length_le, entered_le⟩ := trace_measure metered chain call steps state
  have length_eq : (interpreter.trace chain call steps state).length = steps := by
    rw [trace_eq asked]
    exact Machine.length_trace ran
  omega

end Interpreter

/-- Metered execution ends. However long a metered call is run, it executes no more
instructions, in all of its frames together, than it has gas and enters frames, the
outermost one included; and after some number of steps it has come to its verdict, which
further steps do not change. -/
theorem metered_call_ends (chain : Chain σ) (interpreter : Interpreter) (call : Call)
    (state : σ) (metered : interpreter.environment.config.meterGas = true) :
    (∀ steps, (interpreter.trace chain call steps state).length ≤
      call.gas.toNat + (1 + Machine.entered chain interpreter.environment
        (interpreter.trace chain call steps state))) ∧
    ∃ enough, ∀ steps, enough ≤ steps →
      (interpreter.call chain call steps state).1 ≠ .unfinished ∧
        interpreter.call chain call steps state = interpreter.call chain call enough state := by
  constructor
  · intro steps
    exact (Interpreter.trace_measure metered chain call steps state).1
  · refine ⟨2 * call.gas.toNat + 2, ?_⟩
    intro steps more
    have ended := interpreter.verdict_ne_unfinished metered chain call state
      (Nat.lt_succ_self (2 * call.gas.toNat + 1))
    have same := Interpreter.call_eq_of_le ended more
    refine ⟨?_, same⟩
    rw [same]
    exact ended

/-- An account whose code jumps back to its start forever. -/
def loopingAccounts : StateSet :=
  ({} : StateSet).setCode 0 (Bytes.ofList [0x5b, 0x60, 0x00, 0x56])

/-- A loop ends when its gas is used up. With 60 gas and one frame it comes to at most 61
instructions, and in fact to 16, the last of which it cannot pay for. -/
theorem loopingAccounts_call_ends :
    (meteringInterpreter.trace (StateSet.chain .whole) { gas := 60 } 100
      loopingAccounts).length = 16 ∧
    (∀ steps, (meteringInterpreter.trace (StateSet.chain .whole) { gas := 60 } steps
      loopingAccounts).length ≤ 60 + (1 + Machine.entered (StateSet.chain .whole)
        meteringInterpreter.environment (meteringInterpreter.trace (StateSet.chain .whole)
          { gas := 60 } steps loopingAccounts))) ∧
    ∃ enough, ∀ steps, enough ≤ steps →
      (meteringInterpreter.call (StateSet.chain .whole) { gas := 60 } steps
        loopingAccounts).1 ≠ .unfinished := by
  obtain ⟨bounded, enough, ends⟩ := metered_call_ends (StateSet.chain .whole)
    meteringInterpreter { gas := 60 } loopingAccounts rfl
  refine ⟨by decide +kernel, bounded, enough, ?_⟩
  intro steps more
  exact (ends steps more).1

end EvmAtlas
