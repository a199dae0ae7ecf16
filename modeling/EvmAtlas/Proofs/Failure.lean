import EvmAtlas.Proofs.Termination

/-!
# Why a recovery fails

A recovery fails for one of four causes. Two further failures could come up when an instruction
is applied: a byte may hold no instruction, and a result that is computed ahead may have the
wrong number of operands. `Instruction.applyChecked` asks for both. It never finds the second,
since an instruction is only folded with as many operands as it takes, and a recovery never
finds the first, since such a byte ends its block.
-/

namespace EvmAtlas

/-! ## Results that are computed ahead -/

namespace SymStack

theorem length_of_known? {cells : List Cell} {words : List Word}
    (known : known? cells = some words) : words.length = cells.length := by
  induction cells generalizing words with
  | nil =>
      cases known
      rfl
  | cons cell cells ih =>
      rw [known?_cons] at known
      obtain ⟨word, _, mapped⟩ := Option.bind_eq_some_iff.mp known
      obtain ⟨rest, restKnown, rfl⟩ := Option.map_eq_some_iff.mp mapped
      rw [List.length_cons, List.length_cons, ih restKnown]

end SymStack

namespace Opcode

variable {opcode : Opcode} {operands : List Word} {stack : SymStack}

theorem ofByte?_toByte (opcode : Opcode) : ofByte? opcode.toByte = some opcode := by
  cases opcode with
  | unary operation | binary operation | ternary operation | reading operation
  | copy operation | unsupported operation => cases operation <;> rfl
  | push index | dup index | swap index | log index => decide +revert
  | _ => rfl

/-- An instruction that depends on its operands alone has a result for as many of them as it
takes. -/
theorem exists_fold?_eq (foldable : opcode.isFoldable = true)
    (counted : operands.length = opcode.arity.pops) :
    ∃ result, opcode.fold? operands = some result := by
  cases opcode with
  | unary operation =>
      obtain ⟨first, rfl⟩ := List.length_eq_one_iff.mp counted
      exact ⟨_, rfl⟩
  | binary operation =>
      obtain ⟨first, second, rfl⟩ := List.length_eq_two.mp counted
      exact ⟨_, rfl⟩
  | ternary operation =>
      obtain ⟨first, second, third, rfl⟩ := List.length_eq_three.mp counted
      exact ⟨_, rfl⟩
  | _ => cases foldable

/-- Computing a result ahead of a run succeeds with as many operands as the instruction
takes. -/
theorem fold_eq_ok {result : Word} (folds : opcode.fold? operands = some result) :
    fold opcode.toByte operands = .ok result := by
  simp [fold, ofByte?_toByte, isFoldable_of_fold? folds, folds]

/-- Replace the operands of an instruction by its results. A result that depends on operands
that are all known is computed ahead of a run, and may fail. -/
def replaceChecked (opcode : Opcode) (stack : SymStack) : Except Fault SymStack :=
  let arity := opcode.arity
  let rest := stack.drop arity.pops
  match opcode.isFoldable, SymStack.known? (stack.take arity.pops) with
  | true, some operands => (fold opcode.toByte operands).map (some · :: rest)
  | _, _ => .ok (List.replicate arity.pushes none ++ rest)

/-- Apply an instruction to an abstract stack, and fail where computing its result fails. -/
def applyChecked (opcode : Opcode) (stack : SymStack) : Except Fault SymStack :=
  match opcode with
  | .dup index => .ok ((stack[index.val]?).getD none :: stack)
  | .swap index => .ok (stack.swap (index.val + 1))
  | _ => opcode.replaceChecked stack

/-- On a stack that holds the operands of an instruction, no result that is computed ahead
fails. -/
theorem replaceChecked_eq_ok (enough : opcode.arity.pops ≤ stack.length) :
    opcode.replaceChecked stack =
      .ok (match (SymStack.known? (stack.take opcode.arity.pops)).bind opcode.fold? with
        | some result => some result :: stack.drop opcode.arity.pops
        | none =>
            List.replicate opcode.arity.pushes none ++ stack.drop opcode.arity.pops) := by
  unfold replaceChecked
  dsimp only
  split
  · next operands foldable known =>
      have counted : operands.length = opcode.arity.pops := by
        rw [SymStack.length_of_known? known, List.length_take_of_le enough]
      obtain ⟨result, folds⟩ := exists_fold?_eq foldable counted
      rw [fold_eq_ok folds, known, Option.bind_some, folds]
      rfl
  · next unchecked =>
      split
      · next result folded =>
          obtain ⟨operands, known, folds⟩ := Option.bind_eq_some_iff.mp folded
          exact (unchecked operands (isFoldable_of_fold? folds) known).elim
      · rfl

theorem applyChecked_eq_ok (enough : opcode.arity.pops ≤ stack.length) :
    opcode.applyChecked stack = .ok (opcode.applySym stack) := by
  cases opcode with
  | dup index => rfl
  | swap index => rfl
  | _ => exact replaceChecked_eq_ok enough

end Opcode

namespace Instruction

/-- The stack that an instruction leaves, given one that holds its operands, or why it leaves
none. -/
def stackChecked (instruction : Instruction) (stack : SymStack) : Except Fault SymStack :=
  match instruction.action with
  | .plain opcode => opcode.applyChecked stack
  | .invalid byte => .error (.met (.invalidByte byte) .invalidOpcode)
  | .push _ literal => .ok (some literal :: stack)
  | .jump _ => .ok (stack.drop 1)
  | .branch _ _ => .ok (stack.drop 2)
  | .fall _ => .ok stack

/-- Apply an instruction to an abstract stack with every failure that could come up. -/
def applyChecked (instruction : Instruction) (stack : SymStack) :
    SymStack × Except Fault Unit :=
  if stack.length < instruction.arity.pops then
    (stack, .error (.met (.needs instruction.text instruction.arity.pops stack.length)
      .stackUnderflow))
  else
    match instruction.stackChecked stack with
    | .error fault => (stack, .error fault)
    | .ok grown =>
        if grown.length > stackLimit then
          (grown, .error (.met (.stackHeight grown.length) .stackOverflow))
        else (grown, .ok ())

/-- The failures that could come up beside those of `apply` never do. -/
theorem applyChecked_eq_apply (instruction : Instruction) (stack : SymStack) :
    instruction.applyChecked stack = instruction.apply stack := by
  unfold applyChecked apply
  split
  · rfl
  · next enough =>
      cases action : instruction.action with
      | plain opcode =>
          have pops : opcode.arity.pops ≤ stack.length := by
            simpa [arity, action] using enough
          simp only [stackChecked, stackAfter, action, Opcode.applyChecked_eq_ok pops]
      | _ => simp only [stackChecked, stackAfter, action]

end Instruction

/-! ## Faults of a recovery -/

/-- The causes that a recovery can fail for. -/
theorem Cause.isFlow_iff (cause : Cause) :
    cause.isFlow = true ↔
      cause ∈ [.invalidJump, .controlFlowEscaped, .stackUnderflow, .stackOverflow] := by
  cases cause <;> simp [isFlow]

/-- A recovery that fails does so for a cause in the code. -/
theorem isFlow_of_recover {bytes : Bytes} {config : RecoveryConfig} {fault : Fault}
    (failed : recover bytes config = .error fault) : fault.cause.isFlow = true := by
  rcases recover_cases bytes config with ⟨other, unreached, same⟩ | ⟨entered, entry, ran⟩
  · rw [same] at failed
    cases failed
    exact Recovery.isFlow_of_reach unreached
  · rw [ran] at failed
    have stage := Recovery.Stage.start.reach entry
    have ends := (stage.run_ends (Nat.le_add_left
      (Recovery.stepBound (Code.ofBytes bytes) config) _)).1
    cases finishes : entered.run (Recovery.stepBound (Code.ofBytes bytes) config) with
    | ok finished =>
        rw [finishes] at failed
        cases failed
    | error other =>
        rw [finishes] at failed
        cases failed
        exact ends _ finishes

/-- A recovery that fails does so for exactly one of four causes, whatever the code and the
settings are, and is counted under its name: never as an internal failure, and never as a byte
without an instruction. Instructions are applied as if every check of a computed result could
fail: none does. -/
theorem recovery_fails_for_named_cause (bytes : Bytes) (config : RecoveryConfig) :
    (∀ fault, recover bytes config = .error fault →
      fault.cause ∈ [.invalidJump, .controlFlowEscaped, .stackUnderflow, .stackOverflow] ∧
      fault.cause.category ∈
        ["invalid-jump", "jump-to-top", "stack-underflow", "stack-overflow"]) ∧
    ∀ (instruction : Instruction) (stack : SymStack),
      instruction.applyChecked stack = instruction.apply stack := by
  refine ⟨?_, Instruction.applyChecked_eq_apply⟩
  intro fault failed
  have named := (Cause.isFlow_iff _).mp (isFlow_of_recover failed)
  refine ⟨named, ?_⟩
  simp only [List.mem_cons, List.not_mem_nil, or_false] at named
  rcases named with cause | cause | cause | cause <;> simp [cause, Cause.category]

/-- A jump past an unassigned byte to a block that jumps from an empty stack. -/
def strandedCode : Bytes :=
  Bytes.ofList [0x60, 0x04, 0x56, 0x0c, 0x5b, 0x56, 0x0c, 0x0c]

/-- The recovery of code with unassigned bytes fails for its empty stack. -/
theorem strandedCode_fails : ∃ fault,
    recover strandedCode {} = .error fault ∧
    fault.cause ∈ [.invalidJump, .controlFlowEscaped, .stackUnderflow, .stackOverflow] ∧
    fault.cause.category = "stack-underflow" := by
  have fails : (match recover strandedCode {} with
      | .error fault => decide (fault.cause.category = "stack-underflow")
      | .ok _ => false) = true := by
    decide +kernel
  cases outcome : recover strandedCode {} with
  | ok program =>
      rw [outcome] at fails
      cases fails
  | error fault =>
      rw [outcome] at fails
      obtain ⟨named, _⟩ := recovery_fails_for_named_cause strandedCode {}
      exact ⟨fault, rfl, (named fault outcome).1, of_decide_eq_true fails⟩

end EvmAtlas
