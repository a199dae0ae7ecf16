import Mathlib.Algebra.Order.BigOperators.Group.List
import Mathlib.Algebra.Order.Group.Nat
import EvmAtlas.Proofs.Answers
import EvmAtlas.Proofs.Soundness
import EvmAtlas.Proofs.Upshot

/-!
# The path of a run

A run that makes no calls goes through the blocks of the recovered program, and what it is
charged is what the instructions of these blocks cost. `Within` says where in which block a
frame stands and which instructions of the block it still has to pay for. A step pays for the
first of them. It stays inside the block, or it leaves for another block when nothing is left
to pay: what a block ends with when it runs into a jump destination costs nothing, because
the jump destination is paid for in the next block.

A call also counts as reverted if the chain answers it with the fault that says so. Such a call may
end in the middle of a block, so `Chain.NeverReverts` keeps these chains out.
-/

namespace EvmAtlas

variable {σ : Type}

/-- What some instructions cost together, whatever their operands. -/
def Instruction.total (instructions : List Instruction) : Nat :=
  (instructions.map fun instruction => instruction.gas.toNat).sum

theorem Instruction.total_cons (first : Instruction) (rest : List Instruction) :
    Instruction.total (first :: rest) = first.gas.toNat + Instruction.total rest :=
  List.sum_cons

@[simp] theorem Instruction.gas_bare (instruction : Instruction) :
    instruction.bare.gas = instruction.gas := by
  obtain ⟨pc, action⟩ := instruction
  cases action <;> rfl

namespace Block

variable {code : Code} {start pc : UInt64} {opcode : Opcode}

theorem total_bare (block : Block) :
    Instruction.total block.bare.instructions = Instruction.total block.instructions := by
  simp [Instruction.total, instructions, bare]

/-- The gas of a block is a 64-bit number, so it is the cost of the block if that is one. -/
theorem toNat_staticGas {block : Block}
    (narrow : Instruction.total block.instructions < 2 ^ 64) :
    block.staticGas.toNat = Instruction.total block.instructions := by
  have folded (amounts : List UInt64) (amount : UInt64) :
      (amounts.foldl (· + ·) amount).toNat =
        (amount.toNat + (amounts.map UInt64.toNat).sum) % 2 ^ 64 := by
    induction amounts generalizing amount with
    | nil => simp [Nat.mod_eq_of_lt amount.toNat_lt]
    | cons first rest ih =>
        rw [List.foldl_cons, ih, List.map_cons, List.sum_cons, UInt64.toNat_add]
        omega
  rw [staticGas, folded, List.map_map, UInt64.toNat_zero, Nat.zero_add]
  exact Nat.mod_eq_of_lt narrow

/-- A decoded instruction costs what is charged for it, unless it is a jump destination that
is left to the next block. -/
theorem gas_decodeInstruction (fetched : Opcode.ofByte? (code.byteAt pc) = some opcode)
    (first : opcode = .jumpdest → pc = start) :
    (decodeInstruction code start pc).1.gas = opcode.baseGas := by
  have byte_eq := Opcode.toByte_of_ofByte? fetched
  have found : (decodeInstruction code start pc).1.byte? = some (code.byteAt pc) := by
    cases opcode with
    | push index =>
        rw [decodeInstruction_push fetched, ← byte_eq]
        rfl
    | jump =>
        rw [decodeInstruction_jump fetched, ← byte_eq]
        rfl
    | jumpi =>
        rw [decodeInstruction_jumpi fetched, ← byte_eq]
        rfl
    | _ =>
        rw [decodeInstruction_plain fetched (by simp) first, ← byte_eq]
        rfl
  simp only [Instruction.gas, found, Opcode.byteGas, fetched]

end Block

theorem Code.Moves.exists_fetched {code : Code} {pc pc' : UInt64} {stack stack' : List Word}
    (moves : code.Moves pc stack pc' stack') :
    ∃ opcode, Opcode.ofByte? (code.byteAt pc) = some opcode := by
  cases moves with
  | straight fetched => exact ⟨_, fetched⟩
  | push fetched => exact ⟨_, fetched⟩
  | jump fetched => exact ⟨_, fetched⟩
  | branch fetched => exact ⟨_, fetched⟩
  | next fetched => exact ⟨_, fetched⟩

/-- Where an instruction that goes on leads: to the next instruction of the block, or out of the
block by a jump. -/
theorem Code.Moves.next_or_jumps {code : Code} {start pc pc' : UInt64} {stack stack' : List Word}
    {opcode : Opcode} (moves : code.Moves pc stack pc' stack')
    (fetched : Opcode.ofByte? (code.byteAt pc) = some opcode)
    (first : opcode = .jumpdest → pc = start) :
    ((Block.decodeInstruction code start pc).1.isFinal = false ∧
        (Block.decodeInstruction code start pc).2 = pc') ∨
      ((Block.decodeInstruction code start pc).1.isFinal = true ∧
        (Block.decodeInstruction code start pc).1.kind ≠ .fall ∧
        (opcode = .jump ∨ opcode = .jumpi)) := by
  have jump (jumped : Opcode.ofByte? (code.byteAt pc) = some .jump) :
      (Block.decodeInstruction code start pc).1.isFinal = true ∧
        (Block.decodeInstruction code start pc).1.kind ≠ .fall ∧
        (opcode = .jump ∨ opcode = .jumpi) := by
    rw [Block.decodeInstruction_jump jumped]
    exact ⟨rfl, by simp [Instruction.kind], .inl (Option.some.inj (fetched.symm.trans jumped))⟩
  have branch (branched : Opcode.ofByte? (code.byteAt pc) = some .jumpi) :
      (Block.decodeInstruction code start pc).1.isFinal = true ∧
        (Block.decodeInstruction code start pc).1.kind ≠ .fall ∧
        (opcode = .jump ∨ opcode = .jumpi) := by
    rw [Block.decodeInstruction_jumpi branched]
    exact ⟨rfl, by simp [Instruction.kind], .inr (Option.some.inj (fetched.symm.trans branched))⟩
  cases moves with
  | @straight straightOpcode _ same straight =>
      cases fetched.symm.trans same
      obtain ⟨inner, plain⟩ := opcode.isBlockFinal_of_isStraight straight
      left
      rw [Block.decodeInstruction_plain fetched ⟨?_, plain⟩ first]
      · exact ⟨inner, rfl⟩
      · rintro rfl
        cases inner
  | push pushed =>
      left
      rw [Block.decodeInstruction_push pushed]
      exact ⟨rfl, Block.add_immediate_eq _ _⟩
  | jump jumped => exact .inr (jump jumped)
  | branch branched => exact .inr (branch branched)
  | next branched => exact .inr (branch branched)

namespace Recovery

variable {code : Code} {visited : List Visit} {program : Program} {block : Block}
variable {pc pc' : UInt64} {stack stack' : List Word} {opcode : Opcode}
variable {rest : List Instruction}

/-- A position inside a block of a program, and what is left of the block from there on. -/
structure Within (code : Code) (program : Program) (block : Block) (pc : UInt64)
    (rest : List Instruction) : Prop where
  known : program.block? block.start = some block
  reached : block.start.toNat ≤ pc.toNat
  remains : ∃ body, Block.Straight code block.start pc body (Block.decode code block.start).final ∧
    rest = body ++ [(Block.decode code block.start).final]
  /-- A position where a block begins is inside that block, and not at the end of another. -/
  begins : ∀ other, program.block? pc = some other → block.start = pc

/-- At the last instruction of a block nothing else is left of it. -/
theorem Within.eq_of_isFinal (within : Within code program block pc rest)
    (isFinal : (Block.decodeInstruction code block.start pc).1.isFinal = true) :
    rest = [(Block.decodeInstruction code block.start pc).1] ∧
      (Block.decode code block.start).final =
        (Block.decodeInstruction code block.start pc).1 := by
  obtain ⟨body, straight, rfl⟩ := within.remains
  generalize (Block.decode code block.start).final = final at straight
  cases straight with
  | last => exact ⟨rfl, rfl⟩
  | step inner => simp [isFinal] at inner

theorem Within.halts (within : Within code program block pc rest)
    (fetched : Opcode.ofByte? (code.byteAt pc) = some opcode) (halting : opcode.isHalt = true) :
    Instruction.total rest = opcode.baseGas.toNat := by
  have first : opcode = .jumpdest → pc = block.start := by
    rintro rfl
    cases halting
  have isFinal : (Block.decodeInstruction code block.start pc).1.isFinal = true := by
    cases opcode with
    | stop | «return» | revert =>
        rw [Block.decodeInstruction_plain fetched (by simp) first]
        rfl
    | _ => cases halting
  rw [(within.eq_of_isFinal isFinal).1, Instruction.total_cons,
    Block.gas_decodeInstruction fetched first]
  rfl

namespace Closed

variable (closed : Closed code visited program)

include closed

theorem start_eq (known : program.block? pc = some block) : block.start = pc := by
  have decoded := congrArg Block.start (closed.decoded pc block known)
  exact decoded

/-- Entering a block, a frame has all of it to pay for. -/
theorem enters (small : code.size < 2 ^ 63) (known : program.block? pc = some block) :
    ∃ rest, Within code program block pc rest ∧
      Instruction.total rest = Instruction.total block.instructions := by
  obtain rfl := closed.start_eq known
  refine ⟨(Block.decode code block.start).instructions, ⟨known, Nat.le_refl _, ?_, ?_⟩, ?_⟩
  · exact ⟨_, Block.straight_decode code small block.start, rfl⟩
  · intro _ _
    rfl
  · rw [← closed.decoded _ _ known, Block.total_bare]

/-- A jump destination that a frame comes to begins the block that the frame is in. -/
theorem begins_of_jumpdest (within : Within code program block pc rest)
    (tracked : Tracked code visited pc stack)
    (fetched : Opcode.ofByte? (code.byteAt pc) = some opcode) :
    opcode = .jumpdest → pc = block.start := by
  rintro rfl
  obtain ⟨visit, member, _, here⟩ := tracked
  obtain ⟨other, found⟩ := (closed.visited_iff pc).mpr ⟨visit, member, here fetched⟩
  exact (within.begins other found).symm

/-- A frame that runs into another block leaves the block that it was in, with nothing left
to pay. -/
theorem falls (small : code.size < 2 ^ 63) {next : Block} {body : List Instruction}
    (known : program.block? block.start = some block) (found : program.block? pc = some next)
    (before : block.start.toNat < pc.toNat)
    (straight : Block.Straight code block.start pc body (Block.decode code block.start).final) :
    Instruction.total (body ++ [(Block.decode code block.start).final]) = 0 ∧
      pc ∈ program.successors block.start := by
  have final_eq := (closed.leads small _ _ known).final_eq_fall small
    (closed.leads small _ _ found) before (straight.le_final small)
  have bare_eq := (closed.final_eq small known).1
  rw [final_eq] at straight bare_eq ⊢
  constructor
  · generalize ends : (⟨pc, .fall pc⟩ : Instruction) = final at straight
    cases straight with
    | last =>
        rw [← ends]
        rfl
    | step inner onward =>
        obtain ⟨_, next_eq⟩ := Block.toNat_decodeInstruction_next small inner
        have onward_le := onward.le_final small
        rw [← ends] at onward_le
        dsimp only at onward_le
        omega
  · have kind_eq := congrArg Instruction.kind bare_eq
    have pc_eq := congrArg Instruction.pc bare_eq
    rw [Instruction.kind_bare] at kind_eq
    rw [Instruction.pc_bare] at pc_eq
    have edge := (closed.edge_of_fall small known kind_eq).1
    rwa [pc_eq] at edge

/-- An instruction that goes on is paid for by the block that it stands in, and what is left
of the block is paid for later, unless the frame enters another block along an edge. -/
theorem advances (small : code.size < 2 ^ 63) (within : Within code program block pc rest)
    (tracked : Tracked code visited pc stack)
    (fetched : Opcode.ofByte? (code.byteAt pc) = some opcode)
    (moves : code.Moves pc stack pc' stack') :
    (program.block? pc' = none ∧ ∃ later, Within code program block pc' later ∧
        Instruction.total rest = opcode.baseGas.toNat + Instruction.total later) ∨
      ∃ next, program.block? pc' = some next ∧ pc' ∈ program.successors block.start ∧
        Instruction.total rest = opcode.baseGas.toNat := by
  have first := closed.begins_of_jumpdest within tracked fetched
  have price_eq := Block.gas_decodeInstruction fetched first
  rcases moves.next_or_jumps fetched first with ⟨inner, rfl⟩ | ⟨isFinal, diverts, jumps⟩
  · obtain ⟨body, straight, rfl⟩ := within.remains
    generalize final_eq : (Block.decode code block.start).final = final at straight ⊢
    cases straight with
    | last isFinal => simp [isFinal] at inner
    | @step _ body _ _ onward =>
        obtain ⟨_, next_eq⟩ := Block.toNat_decodeInstruction_next small inner
        have before := within.reached
        rw [← final_eq] at onward ⊢
        rw [List.cons_append, Instruction.total_cons, price_eq]
        cases found : program.block? (Block.decodeInstruction code block.start pc).2 with
        | none =>
            refine .inl ⟨rfl, _, ⟨within.known, by omega, ⟨body, onward, rfl⟩, ?_⟩, rfl⟩
            intro other known
            rw [found] at known
            cases known
        | some next =>
            obtain ⟨nothing, edge⟩ := closed.falls small within.known found (by omega) onward
            exact .inr ⟨next, rfl, edge, by rw [nothing, Nat.add_zero]⟩
  · obtain ⟨rest_eq, final_eq⟩ := within.eq_of_isFinal isFinal
    have bare_eq := (closed.final_eq small within.known).1.trans final_eq
    have kind_eq := congrArg Instruction.kind bare_eq
    have pc_eq := congrArg Instruction.pc bare_eq
    rw [Instruction.kind_bare] at kind_eq
    rw [Instruction.pc_bare, Block.decodeInstruction_pc] at pc_eq
    obtain ⟨edge, next, found⟩ := closed.edge_of_jump small within.known (pc_eq ▸ fetched) jumps
      (kind_eq ▸ diverts) (pc_eq ▸ tracked) (pc_eq ▸ moves)
    refine .inr ⟨next, found, edge, ?_⟩
    rw [rest_eq, Instruction.total_cons, price_eq]
    rfl

end Closed

end Recovery

/-- Whether no question or write of a chain fails with the fault that counts as a revert. -/
def Chain.NeverReverts (chain : Chain σ) : Prop :=
  ∀ fault, chain.FailsWith fault → fault.cause ≠ .executionReverted

theorem Opcode.Meets.cause_ne {chain : Chain σ} (honest : chain.NeverReverts) {code : Code}
    {stack : List Word} {opcode : Opcode} {fault : Fault}
    (meets : opcode.Meets chain code stack fault) : fault.cause ≠ .executionReverted := by
  cases meets with
  | answered _ _ failed =>
      rw [Fault.cause_within]
      exact honest _ failed
  | nowhere | readOnly | unsupported => nofun

theorem Status.not_completed_of_failed {final : Machine σ} {fault : Fault}
    (other : fault.cause ≠ .executionReverted) (result : CallResult) :
    Status.verdict (.ended final (.failed fault)) ≠ .completed result := by
  rw [verdict, if_neg other]
  nofun

/-- A frame that is alone and makes no call goes on, or it ends, by an instruction that halts
where the call completes. -/
theorem Machine.step_alone {chain : Chain σ} (honest : chain.NeverReverts)
    {environment : Environment} {machine : Machine σ} (alone : machine.callers = [])
    (uncalled : machine.fetched? ≠ some .staticcall) :
    (∃ after, machine.step chain environment = .running after ∧ after.callers = [] ∧
        after.frame.code = machine.frame.code ∧
        machine.frame.code.Moves machine.frame.pc machine.frame.stack after.frame.pc
          after.frame.stack) ∨
      ∃ final ending, machine.step chain environment = .ended final ending ∧
        ∀ result, Status.verdict (.ended final ending) = .completed result →
          ∃ opcode, machine.fetched? = some opcode ∧ opcode.isHalt = true := by
  rcases exists_cleared chain environment machine with failed | ⟨opcode, size, cleared⟩
  · obtain ⟨final, fault, stepped, -⟩ := id failed
    rw [stepped] at failed ⊢
    exact .inr ⟨final, _, rfl, fun result completed => (failed.not_completed completed).elim⟩
  · have comesTo := execute_comesTo chain environment
      (machine.prepared environment.config opcode size) cleared.enough
    rw [← cleared.step_eq] at comesTo
    generalize machine.step chain environment = status at comesTo
    cases comesTo with
    | goesOn _ leads =>
        exact .inl ⟨_, rfl, alone, rfl, leads.moves cleared.fetched cleared.fits⟩
    | calls _ _ isCall => exact (uncalled (isCall ▸ cleared.fetched)).elim
    | halts halting =>
        rw [finish, prepared, alone]
        exact .inr ⟨_, _, rfl, fun _ _ => ⟨opcode, cleared.fetched, halting⟩⟩
    | fails meets =>
        rw [fail, finish, prepared, alone]
        refine .inr ⟨_, _, rfl, fun result completed => ?_⟩
        exact absurd completed (Status.not_completed_of_failed (meets.cause_ne honest) result)
    | crashes =>
        refine .inr ⟨_, _, rfl, fun result completed => ?_⟩
        cases completed

namespace Program

/-- The blocks of a program that some machines enter, which are those that begin where a machine
stands. -/
def blocksEntered (program : Program) (machines : List (Machine σ)) : List Block :=
  machines.filterMap fun machine => program.block? machine.frame.pc

theorem blocksEntered_cons_none {program : Program} {machine : Machine σ}
    (inside : program.block? machine.frame.pc = none) (machines : List (Machine σ)) :
    program.blocksEntered (machine :: machines) = program.blocksEntered machines :=
  List.filterMap_cons_none inside

theorem blocksEntered_cons_some {program : Program} {machine : Machine σ} {block : Block}
    (found : program.block? machine.frame.pc = some block) (machines : List (Machine σ)) :
    program.blocksEntered (machine :: machines) = block :: program.blocksEntered machines :=
  List.filterMap_cons_some found

/-- Whether the second block comes after the first one on an edge of a program. -/
def Follows (program : Program) (block next : Block) : Prop :=
  next.start ∈ program.successors block.start

/-- Blocks of a program that follow one another from its entry on. -/
structure IsPath (program : Program) (blocks : List Block) : Prop where
  entry : ∃ first, program.block? 0 = some first ∧ blocks.head? = some first
  known : ∀ block ∈ blocks, program.block? block.start = some block
  follows : blocks.IsChain program.Follows

end Program

namespace Recovery.Closed

variable {code : Code} {visited : List Visit} {program : Program}
variable {chain : Chain σ} {environment : Environment}

/-- From anywhere in a block a run that completes goes along the edges of the program, and it pays
for the rest of the block and for the blocks that it enters later. -/
theorem spent_eq (honest : chain.NeverReverts) (closed : Closed code visited program)
    (small : code.size < 2 ^ 63) {block : Block} {rest : List Instruction} {machine : Machine σ}
    {steps : Nat} {result : CallResult} (code_eq : machine.frame.code = code)
    (alone : machine.callers = []) (visits : code.Visits machine.frame.pc machine.frame.stack)
    (within : Within code program block machine.frame.pc rest)
    (uncalled : ∀ other ∈ Machine.trace chain environment steps (.running machine),
      other.fetched? ≠ some .staticcall)
    (completed : (Machine.run chain environment steps (.running machine)).verdict =
      .completed result) :
    ∃ later, Machine.trace chain environment steps (.running machine) = machine :: later ∧
      (block :: program.blocksEntered later).IsChain program.Follows ∧
      Machine.spent Opcode.baseGas (machine :: later) = Instruction.total rest +
        ((program.blocksEntered later).map fun entered =>
          Instruction.total entered.instructions).sum := by
  induction steps generalizing machine block rest with
  | zero => cases completed
  | succ steps ih =>
      simp only [Machine.trace, Machine.run, List.forall_mem_cons] at uncalled completed ⊢
      rcases Machine.step_alone honest alone uncalled.1 with
        ⟨after, stepped, stillAlone, stillCode, moves⟩ | ⟨last, ending, stepped, halted⟩
      · obtain ⟨opcode, fetched⟩ : ∃ opcode, machine.fetched? = some opcode :=
          moves.exists_fetched
        rw [stepped] at uncalled completed ⊢
        rw [code_eq] at stillCode moves
        have stillVisits : code.Visits after.frame.pc after.frame.stack := .move visits moves
        have tracked := closed.tracked_of_visits small visits
        have decoded : Opcode.ofByte? (code.byteAt machine.frame.pc) = some opcode :=
          code_eq ▸ fetched
        rcases closed.advances small within tracked decoded moves with
          ⟨inside, left, stillWithin, total_eq⟩ | ⟨next, found, edge, total_eq⟩
        · obtain ⟨later, trace_eq, path, spends⟩ :=
            ih stillCode stillAlone stillVisits stillWithin uncalled.2 completed
          refine ⟨after :: later, congrArg (List.cons machine) trace_eq, ?_⟩
          rw [Program.blocksEntered_cons_none inside, Machine.spent_cons fetched, spends, total_eq]
          exact ⟨path, (Nat.add_assoc _ _ _).symm⟩
        · obtain ⟨left, entersNext, left_eq⟩ := closed.enters small found
          obtain ⟨later, trace_eq, path, spends⟩ :=
            ih stillCode stillAlone stillVisits entersNext uncalled.2 completed
          refine ⟨after :: later, congrArg (List.cons machine) trace_eq, ?_⟩
          rw [← closed.start_eq found] at edge
          rw [Program.blocksEntered_cons_some found, Machine.spent_cons fetched, spends, total_eq,
            left_eq]
          exact ⟨.cons_cons edge path, rfl⟩
      · rw [stepped, Machine.run_ended] at completed
        obtain ⟨opcode, fetched, halts⟩ := halted result completed
        refine ⟨[], by rw [stepped, Machine.trace_ended], .singleton _, ?_⟩
        rw [Machine.spent_cons fetched]
        rw [Machine.fetched?, code_eq] at fetched
        rw [within.halts fetched halts]
        rfl

/-- A call of recovered code that completes without making a call itself goes along a path of the
program and pays for its blocks. -/
theorem isPath_of_completed (honest : chain.NeverReverts) (closed : Closed code visited program)
    (small : code.size < 2 ^ 63) {machine : Machine σ} {steps : Nat} {result : CallResult}
    (code_eq : machine.frame.code = code) (alone : machine.callers = [])
    (pc_eq : machine.frame.pc = 0) (stack_eq : machine.frame.stack = [])
    (uncalled : ∀ other ∈ Machine.trace chain environment steps (.running machine),
      other.fetched? ≠ some .staticcall)
    (completed : (Machine.run chain environment steps (.running machine)).verdict =
      .completed result) :
    let blocks := program.blocksEntered
      (Machine.trace chain environment steps (.running machine))
    program.IsPath blocks ∧
      Machine.spent Opcode.baseGas (Machine.trace chain environment steps (.running machine)) =
        (blocks.map fun block => Instruction.total block.instructions).sum := by
  obtain ⟨visit, member, here, _⟩ := closed.entry
  obtain ⟨first, found⟩ := (closed.visited_iff 0).mpr ⟨visit, member, here⟩
  rw [← pc_eq] at found
  obtain ⟨rest, within, total_eq⟩ := closed.enters small found
  have visits : code.Visits machine.frame.pc machine.frame.stack := by
    rw [pc_eq, stack_eq]
    exact .entry
  obtain ⟨later, trace_eq, follows, spends⟩ :=
    closed.spent_eq honest small code_eq alone visits within uncalled completed
  have entered := Program.blocksEntered_cons_some found later
  rw [trace_eq]
  constructor
  · refine ⟨⟨first, pc_eq ▸ found, ?_⟩, ?_, ?_⟩
    · rw [entered, List.head?_cons]
    · intro block isEntered
      obtain ⟨other, _, known⟩ := List.mem_filterMap.mp isEntered
      rw [closed.start_eq known]
      exact known
    · rw [entered]
      exact follows
  · rw [spends, total_eq, entered, List.map_cons, List.sum_cons]

end Recovery.Closed

theorem Machine.begin_eq_running (config : MachineConfig) (registers : Registers) (call : Call)
    {code : Bytes} (filled : code.size ≠ 0) (state : σ) :
    ∃ machine : Machine σ, Machine.begin config registers call code state = .running machine ∧
      machine.frame.code = Code.ofBytes code ∧ machine.callers = [] ∧ machine.frame.pc = 0 ∧
      machine.frame.stack = [] :=
  ⟨_, if_neg filled, rfl, rfl, rfl, rfl⟩

/-- The static gas of blocks is what a run along them is charged. If a metered call of code that
was recovered by merging completes, makes no static call on the way, and has a chain that never
fails with the fault that counts as a revert, the blocks that it enters lie on a path of the
recovered program from its entry on, and the gas that it used is the sum of the static gas of these
blocks, each counted as often as it is entered. -/
theorem static_gas_along_path {bytes : Bytes} {config : RecoveryConfig} {program : Program}
    (recovered : recover bytes config = .ok program) (merges : config.revisit = .merge)
    (filled : bytes.size ≠ 0) (small : bytes.size < 2 ^ 63) {chain : Chain σ}
    (honest : chain.NeverReverts) (interpreter : Interpreter)
    (counted : interpreter.environment.config.meterGas = true) {call : Call} {steps : Nat}
    {state after : σ} {result : CallResult}
    (asked : chain.code call.address state = (.ok bytes, after))
    (completed : (interpreter.call chain call steps state).1 = .completed result)
    (uncalled : ∀ machine ∈ interpreter.trace chain call steps state,
      machine.fetched? ≠ some .staticcall) :
    let blocks := program.blocksEntered (interpreter.trace chain call steps state)
    program.IsPath blocks ∧
      (call.gas.toNat : Int) - result.gasLeft.toNat =
        (blocks.map fun block => block.staticGas.toNat).sum := by
  obtain ⟨visited, closed⟩ := closed_of_recover recovered merges
  have conserved := Interpreter.gasLeft_add_spent completed
  have price : interpreter.environment.config.cost = Opcode.baseGas := by
    funext opcode
    exact if_pos counted
  rw [price] at conserved
  rw [Interpreter.trace_eq asked] at conserved uncalled ⊢
  rw [Interpreter.verdict_eq asked] at completed
  obtain ⟨machine, begun, code_eq, alone, pc_eq, stack_eq⟩ := Machine.begin_eq_running
    interpreter.environment.config interpreter.registers call filled after
  rw [begun] at completed uncalled conserved ⊢
  obtain ⟨path, spends⟩ :=
    closed.isPath_of_completed honest small code_eq alone pc_eq stack_eq uncalled completed
  intro blocks
  refine ⟨path, ?_⟩
  have used_eq : (blocks.map fun block => Instruction.total block.instructions).sum +
      result.gasLeft.toNat = call.gas.toNat := by
    rw [← spends, Nat.add_comm]
    exact conserved
  -- No block costs more than the gas of the call, which is a 64-bit number.
  have narrow : ∀ block ∈ blocks, block.staticGas.toNat =
      Instruction.total block.instructions := by
    intro block member
    apply Block.toNat_staticGas
    have part := List.le_sum_of_mem
      (List.mem_map_of_mem member (f := fun block => Instruction.total block.instructions))
    have limit := call.gas.toNat_lt
    omega
  rw [List.map_congr_left narrow]
  omega

theorem StateSet.chain_neverReverts (slot : Slot σ StateSet) :
    (StateSet.chain slot).NeverReverts := by
  intro fault fails
  exact absurd fails StateSet.not_failsWith

/-- A push of 2, and a loop at position 2 that counts it down to zero before it stops. -/
def countdownCode : Bytes :=
  Bytes.ofList [0x60, 0x02, 0x5b, 0x60, 0x01, 0x90, 0x03, 0x80, 0x60, 0x02, 0x57, 0x00]

/-- Account 0 with this code. -/
def countdownAccounts : StateSet :=
  ({} : StateSet).setCode 0 countdownCode

theorem countdownAccounts_code :
    (StateSet.chain .whole).code 0 countdownAccounts = (.ok countdownCode, countdownAccounts) := by
  have held : (countdownAccounts.account 0).code = countdownCode := by decide +kernel
  exact congrArg (fun code => (Except.ok code, countdownAccounts)) held

/-- The loop is entered twice, and both times it costs 26 gas. -/
theorem countdownCode_static_gas :
    ∃ program, recover countdownCode {} = .ok program ∧
      ∃ result, (meteringInterpreter.call (StateSet.chain .whole) { gas := 100 } 16
          countdownAccounts).1 = .completed result ∧
        (100 : Int) - result.gasLeft.toNat = ([3, 26, 26, 0] : List Nat).sum := by
  have recovers : (recover countdownCode {}).toOption.any (fun program =>
      (program.blocksEntered (meteringInterpreter.trace (StateSet.chain .whole) { gas := 100 } 16
        countdownAccounts)).map (fun block => block.staticGas.toNat) == [3, 26, 26, 0]) = true := by
    decide +kernel
  obtain ⟨program, recovered, entered⟩ := exists_ok recovers
  have ends : (meteringInterpreter.call (StateSet.chain .whole) { gas := 100 } 16
      countdownAccounts).1.result?.any (fun result => !result.reverted) = true := by
    decide +kernel
  obtain ⟨result, completed, -⟩ := Verdict.exists_completed ends
  have uncalled : ∀ machine ∈ meteringInterpreter.trace (StateSet.chain .whole) { gas := 100 } 16
      countdownAccounts, machine.fetched? ≠ some .staticcall := by
    decide +kernel
  obtain ⟨path, used⟩ := static_gas_along_path recovered rfl (by decide) (by decide)
    (StateSet.chain_neverReverts .whole) meteringInterpreter rfl countdownAccounts_code completed
    uncalled
  rw [beq_iff_eq.mp entered] at used
  exact ⟨program, recovered, result, completed, used⟩

/-- A read of slot 0 whose value is dropped. -/
def readingCode : Bytes :=
  Bytes.ofList [0x60, 0x00, 0x54, 0x50, 0x00]

/-- A chain with this code at every account, whose storage fails with the fault that counts as a
revert. -/
def revertingChain : Chain Unit where
  block := .pure {}
  nonce _ := .pure 0
  balance _ := .pure none
  code _ := .pure readingCode
  storage _ _ := .fail (.ofCause .executionReverted)
  writer := none

/-- Such a chain ends a call within a block that is then not paid for to its end. -/
theorem revertingChain_static_gas_ne :
    ∃ program, recover readingCode {} = .ok program ∧
      revertingChain.code 0 () = (.ok readingCode, ()) ∧
      (∀ machine ∈ meteringInterpreter.trace revertingChain { gas := 1000 } 4 (),
        machine.fetched? ≠ some .staticcall) ∧
      ∃ result, (meteringInterpreter.call revertingChain { gas := 1000 } 4 ()).1 =
          .completed result ∧ result.reverted = true ∧
        (1000 : Int) - result.gasLeft.toNat = 203 ∧
        ((program.blocksEntered (meteringInterpreter.trace revertingChain { gas := 1000 } 4
          ())).map fun block => block.staticGas.toNat).sum = 205 := by
  have recovers : (recover readingCode {}).toOption.any (fun program =>
      ((program.blocksEntered (meteringInterpreter.trace revertingChain { gas := 1000 } 4
        ())).map fun block => block.staticGas.toNat).sum == 205) = true := by
    decide +kernel
  obtain ⟨program, recovered, entered⟩ := exists_ok recovers
  have ends : (meteringInterpreter.call revertingChain { gas := 1000 } 4 ()).1.result?.any
      (fun result => result.reverted && result.gasLeft == 797) = true := by
    decide +kernel
  obtain ⟨result, completed, seen⟩ := Verdict.exists_completed ends
  rw [Bool.and_eq_true, beq_iff_eq] at seen
  obtain ⟨reverted, left_eq⟩ := seen
  refine ⟨program, recovered, rfl, by decide +kernel, result, completed, reverted, ?_, ?_⟩
  · rw [left_eq]
    rfl
  · exact beq_iff_eq.mp entered

end EvmAtlas
