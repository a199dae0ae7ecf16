import EvmAtlas.Proofs.Path
import EvmAtlas.Proofs.StaticCalls

/-!
# Abstract and concrete steps

A decoded instruction is applied to abstract stacks, the byte at its position is executed on
words. `Machine.Executes` says when a frame has executed an instruction, also one that makes a
call: the frame runs again once the frames that it entered have ended. The two ways of running an
instruction fail alike on stacks of one height, and where both succeed, the words that the frame
goes on with are what the abstract stack says about them.
-/

namespace EvmAtlas

variable {σ : Type}

/-- The cause of an outcome that is a fault. -/
def Fault.causeOf? {α : Type} : Except Fault α → Option Cause
  | .ok _ => none
  | .error fault => some fault.cause

theorem Arity.causeOf?_check (arity : Arity) (height : Nat) :
    Fault.causeOf? (arity.check height) =
      if height < arity.pops then some .stackUnderflow
      else if stackLimit + arity.pops < height + arity.pushes then some .stackOverflow
      else none := by
  unfold check
  dsimp only
  by_cases short : height < arity.pops
  · rw [if_pos short, if_pos (Int.ofNat_lt.mpr short)]
    rfl
  · rw [if_neg short, if_neg (by omega)]
    by_cases high : stackLimit + arity.pops < height + arity.pushes
    · rw [if_pos high, if_pos (by omega)]
      rfl
    · rw [if_neg high, if_neg (by omega)]
      rfl

/-- Words are what an abstract stack says about them if there are as many of them and they agree
with every cell that is known. -/
theorem SymStack.describes_iff {known : SymStack} {words : List Word} :
    known.Describes words ↔
      known.length = words.length ∧
        ∀ (index : Nat) (word : Word), known[index]? = some (some word) →
          words[index]? = some word := by
  constructor
  · intro described
    refine ⟨by simpa using (Refines.length_eq described).symm, ?_⟩
    intro index word found
    have refines := Refines.getD described index
    rw [found, Option.getD_some] at refines
    have found := refines.eq_some
    rw [List.getElem?_map] at found
    cases lookup : words[index]? with
    | none => simp [lookup] at found
    | some other => simpa [lookup] using found
  · rintro ⟨heights, agrees⟩
    refine List.forall₂_iff_get.mpr ⟨by simpa using heights.symm, ?_⟩
    intro index inWords inKnown
    rw [List.get_eq_getElem, List.get_eq_getElem, List.getElem_map]
    cases cell : known[index] with
    | none => exact .unknown _
    | some word =>
        have found := agrees index word (List.getElem?_eq_some_iff.mpr ⟨inKnown, cell⟩)
        obtain ⟨inside, rfl⟩ := List.getElem?_eq_some_iff.mp found
        exact .refl _

namespace Machine

section Executes

variable (chain : Chain σ) (environment : Environment) (machine : Machine σ)

/-- The statuses of a machine from a step of its frame until that frame runs again. -/
inductive Working : Status σ → Prop where
  | begins : Working (machine.step chain environment)
  | goesOn {inner : Machine σ} (before : Working (.running inner))
      (deeper : machine.callers.length < inner.callers.length) :
      Working (inner.step chain environment)

/-- The frame of a machine has executed an instruction and goes on as in `after`. -/
structure Executes (after : Machine σ) : Prop where
  working : machine.Working chain environment (.running after)
  callers_eq : after.callers = machine.callers

/-- Where the frame of a machine is while it executes an instruction: it has done so, it waits
for a call that gives it a flag, or it has ended. -/
inductive Underway (inner : Machine σ) : Prop where
  | moved (callers_eq : inner.callers = machine.callers)
      (moves : machine.frame.code.Moves machine.frame.pc machine.frame.stack inner.frame.pc
        inner.frame.stack)
  | waits {waiting : Suspended} (suffix : waiting :: machine.callers <:+ inner.callers)
      (returns : ∀ flag, machine.frame.code.Moves machine.frame.pc machine.frame.stack
        (waiting.frame.pc + 1) (flag :: waiting.frame.stack))
  | ended (fewer : inner.callers.length < machine.callers.length)

end Executes

variable {chain : Chain σ} {environment : Environment} {machine after : Machine σ}

/-- What a machine that goes on runs: the same frame, a callee of it, or a frame that waited. -/
theorem step_eq_running (stepped : machine.step chain environment = .running after) :
    (after.callers = machine.callers ∧
      machine.frame.code.Moves machine.frame.pc machine.frame.stack after.frame.pc
        after.frame.stack) ∨
    (∃ waiting, after.callers = waiting :: machine.callers ∧
      ∀ flag, machine.frame.code.Moves machine.frame.pc machine.frame.stack
        (waiting.frame.pc + 1) (flag :: waiting.frame.stack)) ∨
    Resumes machine.callers after := by
  have outcome := step_outcome chain environment machine
  rw [stepped] at outcome
  generalize after_eq : Status.running after = status at outcome
  cases outcome with
  | moves callers_eq _ moves =>
      cases after_eq
      exact .inl ⟨callers_eq, moves⟩
  | calls callers_eq _ _ _ returns =>
      cases after_eq
      exact .inr (.inl ⟨_, callers_eq, returns⟩)
  | finishes callers_eq | fails callers_eq =>
      rw [← callers_eq]
      exact .inr (.inr (unwind_eq_running after_eq.symm))
  | crashes => cases after_eq

theorem underway_of_step (stepped : machine.step chain environment = .running after) :
    machine.Underway after := by
  rcases step_eq_running stepped with ⟨callers_eq, moves⟩ | ⟨waiting, callers_eq, returns⟩ |
    ⟨suspended, flag, suffix, -⟩
  · exact .moved callers_eq moves
  · exact .waits (callers_eq ▸ List.suffix_rfl) returns
  · exact .ended suffix.length_le

theorem Underway.step {inner : Machine σ} (underway : machine.Underway inner)
    (deeper : machine.callers.length < inner.callers.length)
    (stepped : inner.step chain environment = .running after) : machine.Underway after := by
  cases underway with
  | moved callers_eq => exact absurd (congrArg List.length callers_eq) (Nat.ne_of_gt deeper)
  | ended fewer => exact absurd deeper (Nat.lt_asymm fewer)
  | @waits waiting suffix returns =>
      rcases step_eq_running stepped with ⟨callers_eq, -⟩ | ⟨other, callers_eq, -⟩ |
        ⟨resumed, flag, rest, -, pc_eq, stack_eq⟩
      · exact .waits (callers_eq ▸ suffix) returns
      · exact .waits (callers_eq ▸ suffix.trans (List.suffix_cons _ _)) returns
      · -- The frame that runs again stands above the one that waits, is that frame, or below.
        rcases Nat.lt_trichotomy machine.callers.length after.callers.length with
          above | level | below
        · refine .waits ?_ returns
          exact List.suffix_of_suffix_length_le suffix
            ((List.suffix_cons _ _).trans rest) above
        · have same : waiting :: machine.callers = resumed :: after.callers := by
            apply (List.suffix_of_suffix_length_le suffix rest (by simp [level])).eq_of_length
            simp [level]
          injection same with waiting_eq callers_eq
          refine .moved callers_eq.symm ?_
          rw [pc_eq, stack_eq, ← waiting_eq]
          exact returns flag
        · exact .ended below

theorem Working.underway {status : Status σ} (working : machine.Working chain environment status)
    (runs : status = .running after) : machine.Underway after := by
  induction working generalizing after with
  | begins => exact underway_of_step runs
  | goesOn _ deeper ih => exact (ih rfl).step deeper runs

/-- A frame that has executed an instruction has moved as the instruction says. -/
theorem Executes.moves (executes : machine.Executes chain environment after) :
    machine.frame.code.Moves machine.frame.pc machine.frame.stack after.frame.pc
      after.frame.stack := by
  have height := congrArg List.length executes.callers_eq
  cases executes.working.underway rfl with
  | moved _ moves => exact moves
  | waits suffix => exact absurd suffix.length_le (by simp [height])
  | ended fewer => exact absurd height (Nat.ne_of_lt fewer)

end Machine

namespace Block

variable {code : Code} {start pc : UInt64} {opcode : Opcode}

/-- The instructions of a run were read at their own positions, one behind the other. -/
theorem Straight.of_getElem? {body : List Instruction} {final instruction : Instruction}
    (straight : Straight code start pc body final) {index : Nat}
    (listed : (body ++ [final])[index]? = some instruction) :
    instruction = (decodeInstruction code start instruction.pc).1 ∧
      (instruction.isFinal = false → (body ++ [final])[index + 1]?.map Instruction.pc =
        some (decodeInstruction code start instruction.pc).2) := by
  induction straight generalizing index with
  | last isFinal =>
      cases index with
      | succ index => simp at listed
      | zero =>
          obtain rfl : _ = instruction := by simpa using listed
          rw [decodeInstruction_pc]
          exact ⟨rfl, fun inner => absurd isFinal (by simp [inner])⟩
  | step _ rest ih =>
      cases index with
      | succ index => exact ih listed
      | zero =>
          obtain rfl : _ = instruction := by simpa using listed
          obtain ⟨others, head⟩ := rest.exists_head
          rw [decodeInstruction_pc]
          refine ⟨rfl, fun _ => ?_⟩
          rw [List.cons_append, head]
          simp

theorem exists_fetched
    (goesOn : (decodeInstruction code start pc).1.isFinal = false ∨
      (decodeInstruction code start pc).1.kind = .jump ∨
      (decodeInstruction code start pc).1.kind = .branch) :
    ∃ opcode, Opcode.ofByte? (code.byteAt pc) = some opcode ∧
      (opcode = .jumpdest → pc = start) := by
  cases fetched : Opcode.ofByte? (code.byteAt pc) with
  | none => simp [decodeInstruction, fetched, Instruction.isFinal, Instruction.kind] at goesOn
  | some opcode =>
      refine ⟨opcode, rfl, ?_⟩
      rintro rfl
      by_contra inside
      rw [decodeInstruction_fall fetched inside] at goesOn
      simp [Instruction.isFinal, Instruction.kind] at goesOn

theorem arity_decodeInstruction (fetched : Opcode.ofByte? (code.byteAt pc) = some opcode)
    (first : opcode = .jumpdest → pc = start) :
    (decodeInstruction code start pc).1.arity = opcode.arity := by
  cases opcode with
  | push index => rw [decodeInstruction_push fetched]; rfl
  | jump => rw [decodeInstruction_jump fetched]; rfl
  | jumpi => rw [decodeInstruction_jumpi fetched]; rfl
  | _ => rw [decodeInstruction_plain fetched (by simp) first]; rfl

theorem decodeInstruction_ne_invalid (start : UInt64)
    (fetched : Opcode.ofByte? (code.byteAt pc) = some opcode) (byte : UInt8) :
    (decodeInstruction code start pc).1.action ≠ .invalid byte := by
  unfold decodeInstruction
  rw [fetched]
  split
  case h_4 => split <;> simp
  all_goals simp_all

end Block

namespace Instruction

variable {instruction : Instruction} {stack : SymStack}

theorem length_stackAfter (enough : instruction.arity.pops ≤ stack.length) :
    (instruction.stackAfter stack).length =
      stack.length - instruction.arity.pops + instruction.arity.pushes := by
  obtain ⟨pc, action⟩ := instruction
  cases action with
  | plain opcode => exact opcode.length_applySym enough
  | invalid | push | jump | branch | fall => simp [stackAfter, arity]

/-- Applying an instruction fails as the check of its arity does, although it looks at the room
for the results only once they are there. -/
theorem causeOf?_apply (valid : ∀ byte, instruction.action ≠ .invalid byte) :
    Fault.causeOf? (instruction.apply stack).2 =
      Fault.causeOf? (instruction.arity.check stack.length) := by
  rw [Arity.causeOf?_check]
  unfold apply
  by_cases short : stack.length < instruction.arity.pops
  · rw [if_pos short, if_pos short]
    rfl
  · rw [if_neg short, if_neg short]
    have height := length_stackAfter (Nat.not_lt.mp short)
    split
    · next byte invalid => exact absurd invalid (valid byte)
    · dsimp only
      by_cases high : (instruction.stackAfter stack).length > stackLimit
      · rw [if_pos high, if_pos (by omega)]
        rfl
      · rw [if_neg high, if_neg (by omega)]
        rfl

end Instruction

/-- Where a decoded instruction can be applied to what is known of a stack, it leaves what is
known of the words that the frame goes on with. -/
theorem Code.Moves.describes {code : Code} {start pc pc' : UInt64} {stack stack' : List Word}
    {known next : SymStack} {opcode : Opcode} (moves : code.Moves pc stack pc' stack')
    (fetched : Opcode.ofByte? (code.byteAt pc) = some opcode)
    (first : opcode = .jumpdest → pc = start) (described : known.Describes stack)
    (applied : (Block.decodeInstruction code start pc).1.apply known = (next, .ok ())) :
    next.Describes stack' := by
  obtain ⟨-, -, -, rfl⟩ := Instruction.apply_eq_ok_iff.mp applied
  cases moves with
  | straight same straight _ results =>
      cases fetched.symm.trans same
      obtain ⟨inner, plain⟩ := opcode.isBlockFinal_of_isStraight straight
      rw [Block.decodeInstruction_plain fetched ⟨?_, plain⟩ first]
      · exact results.trans (opcode.applySym_refines described)
      · rintro rfl
        cases inner
  | push pushed =>
      rw [Block.decodeInstruction_push pushed]
      exact .cons (.refl _) described
  | jump jumped operands =>
      subst operands
      rw [Block.decodeInstruction_jump jumped]
      exact described.drop 1
  | branch branched operands | next branched operands =>
      subst operands
      rw [Block.decodeInstruction_jumpi branched]
      exact described.drop 2

/-- Abstract and concrete steps agree. Take an instruction of a decoded block that does not end
it, or the jump that ends it, and an abstract stack and words of the same height that agree with
every cell that it knows. Applying the instruction fails for want of operands or of room exactly
when the check of the stack does that a machine makes for the byte at the position of the
instruction. If it does not fail, and a frame with these words at this position executes the
instruction, then the words that the frame goes on with have the height of the new abstract
stack and agree with every cell that it knows; and unless the instruction is a jump, the frame
goes on at the next instruction of the block. -/
theorem abstract_step_agrees (code : Code) (small : code.size < 2 ^ 63) (start : UInt64)
    (index : Nat) (instruction : Instruction)
    (listed : (Block.decode code start).instructions[index]? = some instruction)
    (goesOn : instruction.isFinal = false ∨ instruction.kind = .jump ∨
      instruction.kind = .branch)
    (known : SymStack) (words : List Word) (heights : known.length = words.length)
    (agrees : ∀ (index : Nat) (word : Word), known[index]? = some (some word) →
      words[index]? = some word) :
    ∃ opcode, Opcode.ofByte? (code.byteAt instruction.pc) = some opcode ∧
      Fault.causeOf? (instruction.apply known).2 =
        Fault.causeOf? (opcode.arity.check words.length) ∧
      ∀ next, instruction.apply known = (next, .ok ()) →
        ∀ (chain : Chain σ) environment (machine after : Machine σ),
          machine.frame.code = code → machine.frame.pc = instruction.pc →
          machine.frame.stack = words → machine.Executes chain environment after →
          next.length = after.frame.stack.length ∧
          (∀ (index : Nat) (word : Word), next[index]? = some (some word) →
            after.frame.stack[index]? = some word) ∧
          (instruction.isFinal = false →
            (Block.decode code start).instructions[index + 1]?.map Instruction.pc =
              some after.frame.pc) := by
  obtain ⟨decoded, follows⟩ := (Block.straight_decode code small start).of_getElem? listed
  have described : known.Describes words := SymStack.describes_iff.mpr ⟨heights, agrees⟩
  rw [decoded] at goesOn
  obtain ⟨opcode, fetched, first⟩ := Block.exists_fetched goesOn
  refine ⟨opcode, fetched, ?_, ?_⟩
  · have valid := Block.decodeInstruction_ne_invalid start fetched
    have arity_eq := Block.arity_decodeInstruction fetched first
    rw [← decoded] at valid arity_eq
    rw [Instruction.causeOf?_apply valid, arity_eq, heights]
  · intro next applied chain environment machine after code_eq pc_eq stack_eq executes
    have moves := executes.moves
    rw [code_eq, pc_eq, stack_eq] at moves
    rw [decoded] at applied
    obtain ⟨heights, agrees⟩ :=
      SymStack.describes_iff.mp (moves.describes fetched first described applied)
    refine ⟨heights, agrees, fun inner => ?_⟩
    rw [decoded] at inner
    rcases moves.next_or_jumps fetched first with ⟨-, next_eq⟩ | ⟨isFinal, -⟩
    · rw [← next_eq]
      rw [← decoded] at inner
      exact follows inner
    · rw [inner] at isFinal
      cases isFinal

/-- Account 0 executes its static call in four steps, three of them in the frame of account 1. -/
theorem forwardingCaller_executes :
    forwardingCaller.Executes (StateSet.chain .whole) meteringInterpreter.environment
      (afterForwarding (afterForwarding (afterForwarding (afterForwarding
        forwardingCaller)))) := by
  have entered : forwardingCaller.Working (StateSet.chain .whole) meteringInterpreter.environment
      (.running (afterForwarding forwardingCaller)) := by
    rw [← step_eq_afterForwarding (by decide +kernel)]
    exact .begins
  have goesOn {inner : Machine StateSet}
      (before : forwardingCaller.Working (StateSet.chain .whole) meteringInterpreter.environment
        (.running inner))
      (deeper : forwardingCaller.callers.length < inner.callers.length)
      (runs : (inner.step (StateSet.chain .whole)
        meteringInterpreter.environment).running?.isSome = true) :
      forwardingCaller.Working (StateSet.chain .whole) meteringInterpreter.environment
        (.running (afterForwarding inner)) := by
    rw [← step_eq_afterForwarding runs]
    exact .goesOn before deeper
  refine ⟨goesOn (goesOn (goesOn entered ?_ ?_) ?_ ?_) ?_ ?_, ?_⟩
  case refine_7 =>
    apply List.eq_nil_of_length_eq_zero
    decide +kernel
  all_goals decide +kernel

/-- Of the six operands of the call two are known, of its result nothing is. -/
theorem forwardingCaller_agrees :
    ∃ instruction, (Block.decode forwardingCaller.frame.code 0).instructions[6]? =
        some instruction ∧
      instruction.apply [some 100, none, some 0, none, none, none] = ([none], .ok ()) ∧
      (afterForwarding (afterForwarding (afterForwarding (afterForwarding
        forwardingCaller)))).frame.stack.length = 1 ∧
      (Block.decode forwardingCaller.frame.code 0).instructions[7]?.map Instruction.pc =
        some (afterForwarding (afterForwarding (afterForwarding (afterForwarding
          forwardingCaller)))).frame.pc := by
  have listed : (Block.decode forwardingCaller.frame.code 0).instructions[6]? =
      some ⟨12, .plain .staticcall⟩ := by
    decide +kernel
  have applied : Instruction.apply ⟨12, .plain .staticcall⟩
      [some 100, none, some 0, none, none, none] = ([none], .ok ()) :=
    Instruction.apply_eq_ok_iff.mpr ⟨by decide, nofun, by decide, by decide⟩
  have words : forwardingCaller.frame.stack = [100, 1, 0, 0, 0, 0] := by
    decide +kernel
  obtain ⟨opcode, -, -, agrees⟩ := abstract_step_agrees (σ := StateSet)
    forwardingCaller.frame.code (by decide +kernel) 0 6 ⟨12, .plain .staticcall⟩ listed (.inl rfl)
    [some 100, none, some 0, none, none, none] [100, 1, 0, 0, 0, 0] rfl (by
      intro index word found
      rcases index with _ | _ | _ | _ | _ | _ | index <;> simp_all)
  obtain ⟨height, -, follows⟩ := agrees _ applied _ _ forwardingCaller _ rfl (by decide +kernel)
    words forwardingCaller_executes
  exact ⟨_, listed, applied, height.symm, follows rfl⟩

end EvmAtlas
