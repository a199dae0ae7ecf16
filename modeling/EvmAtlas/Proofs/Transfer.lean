import EvmAtlas.Proofs.Decode
import EvmAtlas.Proofs.Refinement

/-!
# What a block leaves

`Instruction.Leaves` says which positions control reaches from the instruction that ends a
block, and with which stacks, given the stack it finds. A block transfers a stack exactly
when its instructions can be applied one after the other and the last one leaves.

The destinations that were recorded on a block play no part in this, so that a block can
be replaced by its bare form; and a finer stack leaves for the same positions with finer
stacks.
-/

namespace EvmAtlas

/-- The positions that control reaches from the instruction that ends a block. -/
inductive Instruction.Leaves (final : Instruction) : SymStack → List Successor → Prop where
  | jump {found : List UInt64} {word : Word} {rest : SymStack}
      (action : final.action = .jump found) (near : word.toNat < Block.destinationBound)
      (fits : rest.length ≤ stackLimit) :
      Leaves final (some word :: rest) [⟨word.low64, rest, true⟩]
  | branch {found : List UInt64} {next : UInt64} {word : Word} {condition : Cell}
      {rest : SymStack} (action : final.action = .branch found next)
      (near : word.toNat < Block.destinationBound) (fits : rest.length ≤ stackLimit) :
      Leaves final (some word :: condition :: rest)
        [⟨next, rest, false⟩, ⟨word.low64, rest, true⟩]
  | fall {next : UInt64} {stack : SymStack} (action : final.action = .fall next) :
      Leaves final stack [⟨next, stack, false⟩]
  /-- The path ends. -/
  | halt {stack : SymStack} (halts : final.kind = .plain ∨ final.kind = .push) :
      Leaves final stack []

namespace Block

variable {block recorded : Block} {stack rest : SymStack} {successors : List Successor}
variable {opcode : Opcode} {found : UInt64}

/-- Record the destinations of those successors that were jumped to. -/
def record (block : Block) (successors : List Successor) : Block :=
  successors.foldl
    (fun block successor =>
      if successor.jumped then block.addDestination successor.pc else block) block

theorem takeJump_eq_ok_iff :
    block.takeJump opcode stack = (recorded, .ok (found, rest)) ↔
      ∃ word tail, stack = some word :: tail ∧ word.toNat < destinationBound ∧
        found = word.low64 ∧ recorded = block.addDestination found ∧
        recorded.final.apply stack = (rest, .ok ()) := by
  unfold takeJump destination
  cases stack with
  | nil => simp
  | cons top tail =>
      cases top with
      | none => simp
      | some word =>
          by_cases near : word.toNat < destinationBound
          · simp only [near, if_true, List.cons.injEq, Option.some.injEq]
            split
            · next next applied =>
                constructor
                · intro resolved
                  cases resolved
                  exact ⟨word, tail, ⟨rfl, rfl⟩, near, rfl, rfl, applied⟩
                · rintro ⟨word, tail, ⟨rfl, rfl⟩, near, rfl, rfl, again⟩
                  rw [applied] at again
                  cases again
                  rfl
            · next fault failed =>
                constructor
                · simp
                · rintro ⟨word, tail, ⟨rfl, rfl⟩, near, rfl, rfl, applied⟩
                  rw [failed] at applied
                  simp at applied
          · simp only [near, if_false]
            constructor
            · simp
            · rintro ⟨word, tail, same, near', _⟩
              cases same
              exact (near near').elim

theorem takeJump_jump_eq_ok_iff {dests : List UInt64}
    (action : block.final.action = .jump dests) :
    block.takeJump opcode stack = (recorded, .ok (found, rest)) ↔
      ∃ word, stack = some word :: rest ∧ word.toNat < destinationBound ∧
        found = word.low64 ∧ recorded = block.addDestination found ∧
        rest.length ≤ stackLimit := by
  rw [takeJump_eq_ok_iff]
  have jumps : (block.addDestination found).final.action =
      .jump (insertPosition found dests) := by
    simp [addDestination, Instruction.addDestination, action]
  constructor
  · rintro ⟨word, tail, rfl, near, located, rfl, applied⟩
    obtain ⟨_, _, fits, after⟩ := Instruction.apply_eq_ok_iff.mp applied
    simp only [Instruction.stackAfter, jumps, List.drop_succ_cons, List.drop_zero] at after
    subst after
    exact ⟨word, rfl, near, located, rfl, fits⟩
  · rintro ⟨word, rfl, near, located, rfl, fits⟩
    refine ⟨word, rest, rfl, near, located, rfl, Instruction.apply_eq_ok_iff.mpr ?_⟩
    simp [Instruction.arity, Instruction.stackAfter, jumps, fits]

theorem takeJump_branch_eq_ok_iff {dests : List UInt64} {next : UInt64}
    (action : block.final.action = .branch dests next) :
    block.takeJump opcode stack = (recorded, .ok (found, rest)) ↔
      ∃ word condition, stack = some word :: condition :: rest ∧
        word.toNat < destinationBound ∧ found = word.low64 ∧
        recorded = block.addDestination found ∧ rest.length ≤ stackLimit := by
  rw [takeJump_eq_ok_iff]
  have branches : (block.addDestination found).final.action =
      .branch (insertPosition found dests) next := by
    simp [addDestination, Instruction.addDestination, action]
  constructor
  · rintro ⟨word, tail, rfl, near, located, rfl, applied⟩
    obtain ⟨enough, _, fits, after⟩ := Instruction.apply_eq_ok_iff.mp applied
    simp only [Instruction.arity, branches] at enough
    cases tail with
    | nil => simp at enough
    | cons condition tail =>
        simp only [Instruction.stackAfter, branches, List.drop_succ_cons,
          List.drop_zero] at after
        subst after
        exact ⟨word, condition, rfl, near, located, rfl, fits⟩
  · rintro ⟨word, condition, rfl, near, located, rfl, fits⟩
    refine ⟨word, condition :: rest, rfl, near, located, rfl,
      Instruction.apply_eq_ok_iff.mpr ?_⟩
    simp [Instruction.arity, Instruction.stackAfter, branches, fits]

/-- A block transfers a stack when its instructions can be applied and the last one leaves.
It then records where control was sent. -/
theorem transfer_eq_ok_iff :
    block.transfer stack = (recorded, .ok successors) ↔
      recorded = block.record successors ∧
      ∃ reached, applyAll block.body stack = .ok reached ∧
        block.final.Leaves reached successors := by
  unfold transfer
  cases applied : applyAll block.body stack with
  | error fault => simp
  | ok reached =>
      simp only [Except.ok.injEq, exists_eq_left']
      cases action : block.final.action with
      | jump dests =>
          dsimp only
          constructor
          · intro transferred
            split at transferred
            · next target found rest taken =>
                cases transferred
                obtain ⟨word, rfl, near, rfl, rfl, fits⟩ :=
                  (takeJump_jump_eq_ok_iff action).mp taken
                exact ⟨rfl, .jump action near fits⟩
            · simp at transferred
          · rintro ⟨rfl, leaves⟩
            cases leaves with
            | @jump _ word rest _ near fits =>
                rw [(takeJump_jump_eq_ok_iff action).mpr
                  ⟨word, rfl, near, rfl, rfl, fits⟩]
                rfl
            | branch other => simp [action] at other
            | fall other => simp [action] at other
            | halt halts => simp [Instruction.kind, action] at halts
      | branch dests next =>
          dsimp only
          constructor
          · intro transferred
            split at transferred
            · next target found rest taken =>
                cases transferred
                obtain ⟨word, condition, rfl, near, rfl, rfl, fits⟩ :=
                  (takeJump_branch_eq_ok_iff action).mp taken
                exact ⟨rfl, .branch action near fits⟩
            · simp at transferred
          · rintro ⟨rfl, leaves⟩
            cases leaves with
            | jump other => simp [action] at other
            | @branch _ following word condition rest other near fits =>
                obtain rfl : next = following := by
                  rw [action] at other
                  cases other
                  rfl
                rw [(takeJump_branch_eq_ok_iff action).mpr
                  ⟨word, condition, rfl, near, rfl, rfl, fits⟩]
                rfl
            | fall other => simp [action] at other
            | halt halts => simp [Instruction.kind, action] at halts
      | fall next =>
          dsimp only
          constructor
          · intro transferred
            cases transferred
            exact ⟨rfl, .fall action⟩
          · rintro ⟨rfl, leaves⟩
            cases leaves with
            | jump other => simp [action] at other
            | branch other => simp [action] at other
            | fall other =>
                rw [action] at other
                cases other
                rfl
            | halt halts => simp [Instruction.kind, action] at halts
      | plain opcode | invalid byte | push index literal =>
          dsimp only
          constructor
          · intro transferred
            cases transferred
            exact ⟨rfl, .halt (by simp [Instruction.kind, action])⟩
          · rintro ⟨rfl, leaves⟩
            cases leaves with
            | jump other => simp [action] at other
            | branch other => simp [action] at other
            | fall other => simp [action] at other
            | halt _ => rfl

theorem transfer_outcome_eq_ok_iff :
    (block.transfer stack).2 = .ok successors ↔
      ∃ reached, applyAll block.body stack = .ok reached ∧
        block.final.Leaves reached successors := by
  constructor
  · intro outcome
    exact (transfer_eq_ok_iff.mp (Prod.ext rfl outcome)).2
  · intro leaves
    rw [transfer_eq_ok_iff.mpr ⟨rfl, leaves⟩]

end Block

/-! ## Recorded destinations -/

/-- An instruction without the destinations found for it. -/
def Instruction.bare (instruction : Instruction) : Instruction :=
  match instruction.action with
  | .jump _ => { instruction with action := .jump [] }
  | .branch _ next => { instruction with action := .branch [] next }
  | _ => instruction

/-- A block without the destinations found for its jump. -/
def Block.bare (block : Block) : Block :=
  { block with final := block.final.bare }

theorem mem_insertPosition {position other : UInt64} {positions : List UInt64} :
    other ∈ insertPosition position positions ↔ other = position ∨ other ∈ positions := by
  induction positions with
  | nil => simp [insertPosition]
  | cons first rest ih =>
      simp only [insertPosition]
      split
      · simp
      · split
        · next same => simp [same]
        · simp only [List.mem_cons, ih]
          exact or_left_comm

theorem pairwise_insertPosition (position : UInt64) {positions : List UInt64}
    (ascending : positions.Pairwise (· < ·)) :
    (insertPosition position positions).Pairwise (· < ·) := by
  induction positions with
  | nil => exact List.pairwise_singleton _ _
  | cons first rest ih =>
      obtain ⟨above, restAscending⟩ := List.pairwise_cons.mp ascending
      simp only [insertPosition]
      split
      · next before =>
          refine List.pairwise_cons.mpr ⟨?_, ascending⟩
          intro other member
          rcases List.mem_cons.mp member with rfl | member
          · exact before
          · exact UInt64.lt_trans before (above other member)
      · next notBefore =>
          split
          · exact ascending
          · next different =>
              refine List.pairwise_cons.mpr ⟨?_, ih restAscending⟩
              intro other member
              rcases mem_insertPosition.mp member with rfl | member
              · exact UInt64.lt_of_le_of_ne (UInt64.not_lt.mp notBefore) (Ne.symm different)
              · exact above other member

namespace Instruction

variable {final : Instruction} {stack : SymStack} {successors : List Successor}

@[simp] theorem pc_bare (instruction : Instruction) :
    instruction.bare.pc = instruction.pc := by
  obtain ⟨pc, action⟩ := instruction
  cases action <;> rfl

@[simp] theorem kind_bare (instruction : Instruction) :
    instruction.bare.kind = instruction.kind := by
  obtain ⟨pc, action⟩ := instruction
  cases action <;> rfl

@[simp] theorem next?_bare (instruction : Instruction) :
    instruction.bare.next? = instruction.next? := by
  obtain ⟨pc, action⟩ := instruction
  cases action <;> rfl

@[simp] theorem destinations_bare (instruction : Instruction) :
    instruction.bare.destinations = [] := by
  obtain ⟨pc, action⟩ := instruction
  cases action <;> rfl

@[simp] theorem bare_addDestination (instruction : Instruction) (destination : UInt64) :
    (instruction.addDestination destination).bare = instruction.bare := by
  obtain ⟨pc, action⟩ := instruction
  cases action <;> rfl

theorem kind_addDestination (instruction : Instruction) (destination : UInt64) :
    (instruction.addDestination destination).kind = instruction.kind := by
  rw [← kind_bare, bare_addDestination, kind_bare]

/-- An instruction is what was decoded and the destinations found for it. -/
theorem eq_of_bare_eq {left right : Instruction} (same : left.bare = right.bare)
    (found : left.destinations = right.destinations) : left = right := by
  obtain ⟨leftPc, leftAction⟩ := left
  obtain ⟨rightPc, rightAction⟩ := right
  cases leftAction <;> cases rightAction <;> simp_all [bare, destinations]

theorem pairwise_addDestination {instruction : Instruction} (destination : UInt64)
    (ascending : instruction.destinations.Pairwise (· < ·)) :
    (instruction.addDestination destination).destinations.Pairwise (· < ·) := by
  obtain ⟨pc, action⟩ := instruction
  cases action with
  | jump found => exact pairwise_insertPosition destination ascending
  | branch found next => exact pairwise_insertPosition destination ascending
  | plain _ | invalid _ | push _ _ | fall _ => exact ascending

/-- Only jumps record destinations. -/
theorem mem_destinations_addDestination {instruction : Instruction}
    (jumps : instruction.kind = .jump ∨ instruction.kind = .branch)
    {destination other : UInt64} :
    other ∈ (instruction.addDestination destination).destinations ↔
      other = destination ∨ other ∈ instruction.destinations := by
  unfold addDestination destinations
  cases action : instruction.action with
  | jump found => exact mem_insertPosition
  | branch found next => exact mem_insertPosition
  | plain _ | invalid _ | push _ _ | fall _ => simp [kind, action] at jumps

theorem leaves_bare : final.bare.Leaves stack successors ↔ final.Leaves stack successors := by
  constructor
  · intro leaves
    cases leaves with
    | jump action near fits =>
        unfold bare at action
        split at action
        · next found original => exact .jump original near fits
        · simp at action
        · next other _ => exact (other _ action).elim
    | branch action near fits =>
        unfold bare at action
        split at action
        · simp at action
        · next found next original =>
            cases action
            exact .branch original near fits
        · next _ other => exact (other _ _ action).elim
    | fall action =>
        unfold bare at action
        split at action
        · simp at action
        · simp at action
        · exact .fall action
    | halt halts => exact .halt (by rwa [kind_bare] at halts)
  · intro leaves
    cases leaves with
    | jump action near fits =>
        have bareAction : final.bare.action = .jump [] := by simp only [bare, action]
        exact .jump bareAction near fits
    | @branch _ next _ _ _ action near fits =>
        have bareAction : final.bare.action = .branch [] next := by simp only [bare, action]
        exact .branch bareAction near fits
    | fall action => exact .fall (by simp only [bare, action])
    | halt halts => exact .halt (by rwa [kind_bare])

namespace Leaves

/-- Control that was not sent anywhere goes on where the instruction says. -/
theorem next?_of_not_jumped (leaves : final.Leaves stack successors) {successor : Successor}
    (member : successor ∈ successors) (straight : successor.jumped = false) :
    final.next? = some successor.pc := by
  cases leaves with
  | jump _ =>
      simp only [List.mem_singleton] at member
      simp [member] at straight
  | branch action =>
      simp only [List.mem_cons, List.not_mem_nil, or_false] at member
      rcases member with rfl | rfl
      · simp [next?, action]
      · simp at straight
  | fall action =>
      simp only [List.mem_singleton] at member
      simp [next?, action, member]
  | halt _ => simp at member

theorem exists_of_next? (leaves : final.Leaves stack successors) {next : UInt64}
    (goesOn : final.next? = some next) : ∃ successor ∈ successors, successor.pc = next := by
  cases leaves with
  | jump action => simp [next?, action] at goesOn
  | branch action =>
      simp only [next?, action, Option.some.injEq] at goesOn
      subst goesOn
      exact ⟨_, List.mem_cons_self, rfl⟩
  | fall action =>
      simp only [next?, action, Option.some.injEq] at goesOn
      subst goesOn
      exact ⟨_, List.mem_cons_self, rfl⟩
  | halt halts =>
      unfold next? at goesOn
      split at goesOn
      · next action => simp [kind, action] at halts
      · next action => simp [kind, action] at halts
      · simp at goesOn

theorem length_le (leaves : final.Leaves stack successors)
    (low : stack.length ≤ stackLimit) {successor : Successor}
    (member : successor ∈ successors) : successor.stack.length ≤ stackLimit := by
  cases leaves with
  | jump _ _ fits =>
      simp only [List.mem_singleton] at member
      simpa [member] using fits
  | branch _ _ fits =>
      simp only [List.mem_cons, List.not_mem_nil, or_false] at member
      rcases member with rfl | rfl
      · exact fits
      · exact fits
  | fall _ =>
      simp only [List.mem_singleton] at member
      simpa [member] using low
  | halt _ => simp at member

end Leaves

end Instruction

namespace Block

variable {code : Code} {block : Block} {stack : SymStack} {successors : List Successor}

@[simp] theorem body_bare (block : Block) : block.bare.body = block.body := rfl

theorem eq_of_bare_eq {left right : Block} (same : left.bare = right.bare)
    (found : left.final.destinations = right.final.destinations) : left = right := by
  obtain ⟨leftStart, leftStop, leftBody, leftFinal⟩ := left
  obtain ⟨rightStart, rightStop, rightBody, rightFinal⟩ := right
  simp only [bare, mk.injEq] at same ⊢
  obtain ⟨start_eq, stop_eq, body_eq, bare_eq⟩ := same
  exact ⟨start_eq, stop_eq, body_eq, Instruction.eq_of_bare_eq bare_eq found⟩

@[simp] theorem bare_record (block : Block) (successors : List Successor) :
    (block.record successors).bare = block.bare := by
  induction successors generalizing block with
  | nil => rfl
  | cons successor rest ih =>
      unfold record at ih ⊢
      rw [List.foldl_cons, ih]
      split
      · simp [addDestination, bare]
      · rfl

theorem pairwise_record {block : Block} (successors : List Successor)
    (ascending : block.final.destinations.Pairwise (· < ·)) :
    (block.record successors).final.destinations.Pairwise (· < ·) := by
  induction successors generalizing block with
  | nil => exact ascending
  | cons successor rest ih =>
      unfold record at ih ⊢
      rw [List.foldl_cons]
      apply ih
      split
      · exact Instruction.pairwise_addDestination _ ascending
      · exact ascending

theorem isJumpDestination_bare (block : Block) :
    block.bare.isJumpDestination = block.isJumpDestination := by
  obtain ⟨start, stop, body, pc, action⟩ := block
  cases body with
  | nil => cases action <;> rfl
  | cons first rest => rfl

/-- A block transfers a stack as its bare form does. -/
theorem transfer_bare_outcome :
    (block.bare.transfer stack).2 = .ok successors ↔
      (block.transfer stack).2 = .ok successors := by
  simp only [transfer_outcome_eq_ok_iff, body_bare]
  simp only [bare, Instruction.leaves_bare]

theorem mem_successors {target : UInt64} :
    target ∈ block.successors ↔
      block.final.next? = some target ∨ target ∈ block.final.destinations := by
  unfold successors Instruction.next? Instruction.destinations
  cases block.final.action with
  | jump found => simp
  | branch found next =>
      simp only [List.mem_cons, List.mem_filter, bne_iff_ne, ne_eq, Option.some.injEq]
      by_cases same : target = next
      · simp [same]
      · simp [same, Ne.symm same]
  | fall next => simp [eq_comm]
  | plain _ | invalid _ | push _ _ => simp

/-- A transfer records the destinations it sent control to, and forgets none. -/
theorem mem_destinations_record {reached : SymStack}
    (leaves : block.final.Leaves reached successors) {target : UInt64} :
    target ∈ (block.record successors).final.destinations ↔
      target ∈ block.final.destinations ∨
        ∃ successor ∈ successors, successor.jumped = true ∧ successor.pc = target := by
  cases leaves with
  | @jump _ word _ action =>
      change target ∈ (block.final.addDestination word.low64).destinations ↔ _
      rw [Instruction.mem_destinations_addDestination (by simp [Instruction.kind, action]),
        or_comm, eq_comm]
      simp
  | @branch _ _ word _ _ action =>
      change target ∈ (block.final.addDestination word.low64).destinations ↔ _
      rw [Instruction.mem_destinations_addDestination (by simp [Instruction.kind, action]),
        or_comm, eq_comm]
      simp
  | fall _ => simp [record]
  | halt _ => simp [record]

theorem bare_decodeInstruction (code : Code) (start pc : UInt64) :
    (decodeInstruction code start pc).1.bare = (decodeInstruction code start pc).1 := by
  unfold decodeInstruction
  split
  all_goals try split
  all_goals rfl

theorem bare_decodeFrom (code : Code) (start : UInt64) (steps : Nat) (pc : UInt64) :
    (decodeFrom code start steps pc).2.1.bare = (decodeFrom code start steps pc).2.1 := by
  induction steps generalizing pc with
  | zero => rfl
  | succ steps ih =>
      simp only [decodeFrom]
      split
      · exact bare_decodeInstruction code start pc
      · exact ih _

/-- A block that was just decoded has no destinations yet. -/
@[simp] theorem bare_decode (code : Code) (start : UInt64) :
    (decode code start).bare = decode code start := by
  have final := bare_decodeFrom code start (code.size - start.toNat) start
  unfold decode bare
  dsimp only at final ⊢
  rw [final]

end Block

/-! ## Finer stacks -/

/-- A position reached the same way with a finer stack. -/
structure Successor.Refines (finer coarser : Successor) : Prop where
  pc : finer.pc = coarser.pc
  jumped : finer.jumped = coarser.jumped
  stack : finer.stack.Refines coarser.stack

theorem Instruction.Leaves.refines {final : Instruction} {finer coarser : SymStack}
    {successors : List Successor} (leaves : final.Leaves coarser successors)
    (refines : finer.Refines coarser) :
    ∃ finerSuccessors, final.Leaves finer finerSuccessors ∧
      List.Forall₂ Successor.Refines finerSuccessors successors := by
  cases leaves with
  | @jump _ word rest action near fits =>
      obtain ⟨top, finerRest, topRefines, restRefines, rfl⟩ :=
        List.forall₂_cons_right_iff.mp refines
      obtain rfl := topRefines.eq_some
      have heights := SymStack.Refines.length_eq restRefines
      exact ⟨_, .jump action near (by omega), .cons ⟨rfl, rfl, restRefines⟩ .nil⟩
  | @branch _ next word condition rest action near fits =>
      obtain ⟨top, finerTail, topRefines, tailRefines, rfl⟩ :=
        List.forall₂_cons_right_iff.mp refines
      obtain ⟨finerCondition, finerRest, _, restRefines, rfl⟩ :=
        List.forall₂_cons_right_iff.mp tailRefines
      obtain rfl := topRefines.eq_some
      have heights := SymStack.Refines.length_eq restRefines
      exact ⟨_, .branch action near (by omega),
        .cons ⟨rfl, rfl, restRefines⟩ (.cons ⟨rfl, rfl, restRefines⟩ .nil)⟩
  | fall action => exact ⟨_, .fall action, .cons ⟨rfl, rfl, refines⟩ .nil⟩
  | halt halts => exact ⟨_, .halt halts, .nil⟩

/-- A block that transfers a stack transfers every finer one, to the same positions and
with finer stacks. -/
theorem Block.transfer_refines {block : Block} {finer coarser : SymStack}
    {successors : List Successor} (refines : finer.Refines coarser)
    (transferred : (block.transfer coarser).2 = .ok successors) :
    ∃ finerSuccessors, (block.transfer finer).2 = .ok finerSuccessors ∧
      List.Forall₂ Successor.Refines finerSuccessors successors := by
  obtain ⟨reached, applied, leaves⟩ := transfer_outcome_eq_ok_iff.mp transferred
  obtain ⟨finerReached, finerApplied, reachedRefines⟩ := applyAll_refines refines applied
  obtain ⟨finerSuccessors, finerLeaves, related⟩ := leaves.refines reachedRefines
  exact ⟨finerSuccessors,
    transfer_outcome_eq_ok_iff.mpr ⟨finerReached, finerApplied, finerLeaves⟩, related⟩

theorem Block.length_le_of_transfer {block : Block} {stack : SymStack}
    {successors : List Successor} (low : stack.length ≤ stackLimit)
    (transferred : (block.transfer stack).2 = .ok successors) {successor : Successor}
    (member : successor ∈ successors) : successor.stack.length ≤ stackLimit := by
  obtain ⟨reached, applied, leaves⟩ := transfer_outcome_eq_ok_iff.mp transferred
  exact leaves.length_le (length_le_of_applyAll low applied) member

end EvmAtlas
