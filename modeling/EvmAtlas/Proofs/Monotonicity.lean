import EvmAtlas.Proofs.Failure

/-!
# Finer stacks fare no worse

A finer stack knows more, and every block makes at least as much of it: where the coarser stack
can be transferred the finer one can, to the same positions and with finer stacks, and where the
coarser one fails the finer one fails with the same fault. There is one exception. A jump whose
destination the coarser stack does not know may have one on the finer stack, so that control
escapes from fewer of the finer stacks.

The join of two stacks is the least one that lies above both. `SymStack.widen` computes it cell by
cell together with a flag for cells that are forgotten, and a recovery queues a block again exactly
when the flag is set.
-/

namespace EvmAtlas

/-! ## Least joins -/

namespace Cell

variable {left right upper : Cell}

theorem join_refines (leftBelow : left.Refines upper) (rightBelow : right.Refines upper) :
    (left.join right).Refines upper := by
  unfold join
  split
  · exact leftBelow
  · next different =>
      rcases leftBelow with rfl | rfl
      · exact .unknown none
      · rcases rightBelow with rfl | rfl
        · exact .unknown none
        · exact (different rfl).elim

/-- A cell joined with another one, and whether it was known and is forgotten. -/
def widen (old new : Cell) : Cell × Bool :=
  if old.isSome && old != new then (none, true) else (old, false)

theorem widen_eq (old new : Cell) :
    old.widen new = (old.join new, decide (old.join new ≠ old)) := by
  unfold widen join
  cases old with
  | none => simp
  | some word =>
      by_cases same : some word = new
      · simp [same]
      · simp [same]

end Cell

namespace SymStack

variable {old new left right upper : SymStack}

theorem join_refines (leftBelow : left.Refines upper) (rightBelow : right.Refines upper) :
    SymStack.Refines (left.join right) upper := by
  induction leftBelow generalizing right with
  | nil =>
      cases rightBelow
      exact .nil
  | cons head _ ih =>
      cases rightBelow with
      | cons otherHead otherTail => exact .cons (Cell.join_refines head otherHead) (ih otherTail)

/-- Join a stack with another one of its height, cell by cell, and say whether a cell that was
known is forgotten. -/
def widen (old new : SymStack) : SymStack × Bool :=
  let cells := old.zipWith Cell.widen new
  (cells.map Prod.fst, cells.any Prod.snd)

theorem widen_cons (cell other : Cell) (rest others : SymStack) :
    widen (cell :: rest) (other :: others) =
      ((cell.widen other).1 :: (widen rest others).1,
        (cell.widen other).2 || (widen rest others).2) := rfl

/-- The flag is set exactly when the join differs. -/
theorem widen_eq (heights : old.length = new.length) :
    old.widen new = (old.join new, decide (old.join new ≠ old)) := by
  induction old generalizing new with
  | nil => rfl
  | cons cell rest ih =>
      cases new with
      | nil => cases heights
      | cons other others =>
          have joined : join (cell :: rest) (other :: others) =
              cell.join other :: join rest others := rfl
          rw [widen_cons, ih (Nat.succ.inj heights), Cell.widen_eq, joined]
          simp

end SymStack

/-- Once a position has all the stacks that are told apart, a stack is joined to those of its
height, and the flag of the join decides whether the block is queued again. -/
theorem Recovery.revisit_eq_widen {recovery : Recovery} {pc : UInt64} {site : Site}
    {stack old : SymStack} (heights : old.length = stack.length)
    (merges : recovery.config.revisit = .merge)
    (new : stack ∉ site.contexts)
    (full : recovery.config.maxContexts ≤ (site.contexts.length : Int))
    (lookup : site.joined[stack.length]? = some old) :
    recovery.revisit pc site stack =
      if (old.widen stack).2 then
        recovery.enqueue pc
          { site with joined := site.joined.insert stack.length (old.widen stack).1 }
          (old.widen stack).1
      else recovery := by
  have skips : recovery.config.revisit ≠ .skip := by
    rw [merges]
    nofun
  have absent : ¬ site.contexts.contains stack = true := by
    rwa [List.contains_iff_mem]
  unfold revisit
  rw [if_neg skips, if_neg absent, if_neg (Int.not_lt.mpr full), lookup,
    SymStack.widen_eq heights]
  by_cases same : old.join stack = old
  · simp [same]
  · simp [same]

/-! ## Instructions -/

section Instructions

variable {instruction : Instruction} {instructions : List Instruction}
variable {stack next finer coarser : SymStack} {fault : Fault}

namespace Instruction

/-- Whether an instruction can be applied, and with which fault it fails, depends on the height of
the stack alone. -/
theorem apply_outcome_eq (instruction : Instruction) (refines : finer.Refines coarser) :
    (instruction.apply finer).2 = (instruction.apply coarser).2 := by
  have heights := refines.length_eq
  have grown := (instruction.stackAfter_refines refines).length_eq
  unfold apply
  rw [heights]
  split
  · rfl
  · split
    · rfl
    · dsimp only
      rw [grown]
      split
      · rfl
      · rfl

theorem apply_error (refines : finer.Refines coarser)
    (failed : instruction.apply coarser = (next, .error fault)) :
    ∃ finerNext, instruction.apply finer = (finerNext, .error fault) := by
  have outcome := instruction.apply_outcome_eq refines
  rw [failed] at outcome
  exact ⟨_, Prod.ext rfl outcome⟩

theorem cause_of_apply (failed : instruction.apply stack = (next, .error fault)) :
    fault.cause ≠ .controlFlowEscaped := by
  unfold apply at failed
  split at failed
  · cases failed
    nofun
  · split at failed
    · cases failed
      nofun
    · dsimp only at failed
      split at failed
      · cases failed
        nofun
      · cases failed

end Instruction

theorem applyAll_cons_eq_error_iff :
    applyAll (instruction :: instructions) stack = .error fault ↔
      (∃ next met, instruction.apply stack = (next, .error met) ∧
        met.within (.position instruction.pc) = fault) ∨
      ∃ next, instruction.apply stack = (next, .ok ()) ∧
        applyAll instructions next = .error fault := by
  simp only [applyAll]
  split
  · next next applied => simp [applied]
  · next met failed => simp [failed]

theorem applyAll_error (refines : finer.Refines coarser)
    (failed : applyAll instructions coarser = .error fault) :
    applyAll instructions finer = .error fault := by
  induction instructions generalizing finer coarser with
  | nil => cases failed
  | cons instruction instructions ih =>
      rw [applyAll_cons_eq_error_iff] at failed ⊢
      rcases failed with ⟨next, met, first, same⟩ | ⟨next, first, rest⟩
      · obtain ⟨finerNext, finerFirst⟩ := Instruction.apply_error refines first
        exact .inl ⟨finerNext, met, finerFirst, same⟩
      · obtain ⟨finerFirst, after⟩ := Instruction.apply_refines refines first
        exact .inr ⟨_, finerFirst, ih after rest⟩

theorem cause_of_applyAll (failed : applyAll instructions stack = .error fault) :
    fault.cause ≠ .controlFlowEscaped := by
  induction instructions generalizing stack with
  | nil => cases failed
  | cons instruction instructions ih =>
      rcases applyAll_cons_eq_error_iff.mp failed with ⟨next, met, first, rfl⟩ | ⟨next, _, rest⟩
      · rw [Fault.cause_within]
        exact Instruction.cause_of_apply first
      · exact ih rest

end Instructions

/-! ## Blocks -/

namespace Block

variable {block : Block} {opcode : Opcode} {stack finer coarser : SymStack}
variable {successors : List Successor} {fault : Fault} {pc : UInt64}

/-- The fault of a jump whose destination is not known. -/
def escape (block : Block) : Fault :=
  .met (.position block.final.pc) .controlFlowEscaped

/-- The instruction that a block jumps with, if it does. -/
def jumps? (block : Block) : Option Opcode :=
  match block.final.action with
  | .jump _ => some .jump
  | .branch _ _ => some .jumpi
  | _ => none

/-- A finer stack fixes the same destination, or shows the same fault, unless the coarser one does
not know its top. -/
theorem destination_eq_or (pc : UInt64) (opcode : Opcode) (refines : finer.Refines coarser) :
    destination pc opcode finer = destination pc opcode coarser ∨
      destination pc opcode coarser = .error (.met (.position pc) .controlFlowEscaped) := by
  cases refines with
  | nil => exact .inl rfl
  | @cons finerTop coarserTop _ _ head _ =>
      cases coarserTop with
      | none => exact .inr rfl
      | some word =>
          left
          rw [head.eq_some]
          rfl

theorem eq_escape_of_destination
    (failed : destination block.final.pc opcode stack = .error fault)
    (escapes : fault.cause = .controlFlowEscaped) : fault = block.escape := by
  unfold destination at failed
  split at failed
  · cases failed
    cases escapes
  · cases failed
    rfl
  · split at failed
    · cases failed
    · cases failed
      cases escapes

/-- A jump fails where the stack fixes no destination, or where its operands cannot be taken. -/
theorem takeJump_error_iff :
    (block.takeJump opcode stack).2 = .error fault ↔
      destination block.final.pc opcode stack = .error fault ∨
        ∃ found rest met, destination block.final.pc opcode stack = .ok found ∧
          (block.addDestination found).final.apply stack = (rest, .error met) ∧
          met.within (.position block.final.pc) = fault := by
  unfold takeJump
  split
  · next met unfixed => simp [unfixed]
  · next found fixed =>
      dsimp only
      split
      · next rest applied => simp [fixed, applied]
      · next rest met failed => simp [fixed, failed]

theorem takeJump_error (refines : finer.Refines coarser)
    (failed : (block.takeJump opcode coarser).2 = .error fault) :
    (block.takeJump opcode finer).2 = .error fault ∨ fault = block.escape := by
  rw [takeJump_error_iff] at failed ⊢
  rcases destination_eq_or block.final.pc opcode refines with same | escapes
  · left
    rw [same]
    rcases failed with unfixed | ⟨found, rest, met, fixed, unapplied, within⟩
    · exact .inl unfixed
    · obtain ⟨finerRest, finerUnapplied⟩ := Instruction.apply_error refines unapplied
      exact .inr ⟨found, finerRest, met, fixed, finerUnapplied, within⟩
  · right
    rw [escapes] at failed
    rcases failed with unfixed | ⟨_, _, _, fixed, _⟩
    · cases unfixed
      rfl
    · cases fixed

/-- A transfer fails where an instruction of the block cannot be applied, or its jump cannot be
resolved. -/
theorem transfer_error_iff :
    (block.transfer stack).2 = .error fault ↔
      applyAll block.body stack = .error fault ∨
        ∃ reached opcode, applyAll block.body stack = .ok reached ∧
          block.jumps? = some opcode ∧ (block.takeJump opcode reached).2 = .error fault := by
  unfold transfer
  cases applied : applyAll block.body stack with
  | error met => simp
  | ok reached =>
      cases action : block.final.action with
      | jump dests =>
          have jumps : block.jumps? = some .jump := by rw [jumps?, action]
          dsimp only
          split
          · next taken => simp [jumps, taken]
          · next unresolved => simp [jumps, unresolved]
      | branch dests next =>
          have jumps : block.jumps? = some .jumpi := by rw [jumps?, action]
          dsimp only
          split
          · next taken => simp [jumps, taken]
          · next unresolved => simp [jumps, unresolved]
      | plain _ | invalid _ | push _ _ | fall _ =>
          have jumps : block.jumps? = none := by rw [jumps?, action]
          simp [jumps]

/-- A block that fails on a stack fails on every finer one with the same fault, unless it is for a
destination that is not known. -/
theorem transfer_error (refines : finer.Refines coarser)
    (failed : (block.transfer coarser).2 = .error fault) :
    (block.transfer finer).2 = .error fault ∨ fault = block.escape := by
  rw [transfer_error_iff] at failed ⊢
  rcases failed with unapplied | ⟨reached, opcode, applied, jumps, unresolved⟩
  · exact .inl (.inl (applyAll_error refines unapplied))
  · obtain ⟨finerReached, finerApplied, after⟩ := applyAll_refines refines applied
    rcases takeJump_error after unresolved with finerUnresolved | escapes
    · exact .inl (.inr ⟨finerReached, opcode, finerApplied, jumps, finerUnresolved⟩)
    · exact .inr escapes

theorem eq_escape_of_transfer (failed : (block.transfer stack).2 = .error fault)
    (escapes : fault.cause = .controlFlowEscaped) : fault = block.escape := by
  rcases transfer_error_iff.mp failed with unapplied | ⟨reached, opcode, _, _, unresolved⟩
  · exact absurd escapes (cause_of_applyAll unapplied)
  · rcases takeJump_error_iff.mp unresolved with unfixed | ⟨_, _, met, _, unapplied, rfl⟩
    · exact eq_escape_of_destination unfixed escapes
    · rw [Fault.cause_within] at escapes
      exact absurd escapes (Instruction.cause_of_apply unapplied)

/-- Where control escapes from a stack it escapes from every coarser one. -/
theorem escape_of_refines (refines : finer.Refines coarser)
    (escapes : (block.transfer finer).2 = .error block.escape) :
    (block.transfer coarser).2 = .error block.escape := by
  cases transferred : (block.transfer coarser).2 with
  | ok successors =>
      obtain ⟨_, finerTransferred, _⟩ := transfer_refines refines transferred
      cases finerTransferred.symm.trans escapes
  | error fault =>
      rcases transfer_error refines transferred with finerFailed | same
      · cases finerFailed.symm.trans escapes
        rfl
      · rw [same]

end Block

/-- Blocks transfer stacks monotonically. What a decoded block makes of a stack it makes of every
finer one as well: the same positions, reached in the same ways and in the same order, with finer
stacks; or the same fault, unless it is that a destination is not known. That fault in turn is
shared by all coarser stacks, and there are no others than these four. The join of two stacks of
one height is the least stack above both, and the flag that comes with it is set exactly when it
differs from the first. It is this flag that decides whether a recovery that has told enough
stacks apart at a position queues it again. -/
theorem block_transfer_monotone :
    (∀ (code : Code) (start : UInt64) (finer coarser : SymStack), finer.Refines coarser →
      (∀ successors, ((Block.decode code start).transfer coarser).2 = .ok successors →
        ∃ finerSuccessors,
          ((Block.decode code start).transfer finer).2 = .ok finerSuccessors ∧
          List.Forall₂ Successor.Refines finerSuccessors successors) ∧
      (∀ fault, ((Block.decode code start).transfer coarser).2 = .error fault →
        fault.cause ∈ [.stackUnderflow, .stackOverflow, .invalidJump] →
        ((Block.decode code start).transfer finer).2 = .error fault) ∧
      (∀ fault, ((Block.decode code start).transfer finer).2 = .error fault →
        fault.cause = .controlFlowEscaped →
        ((Block.decode code start).transfer coarser).2 = .error fault) ∧
      ∀ fault, ((Block.decode code start).transfer coarser).2 = .error fault →
        fault.cause ∈ [.invalidJump, .controlFlowEscaped, .stackUnderflow, .stackOverflow]) ∧
    (∀ old new : SymStack, old.length = new.length →
      (old.Refines (old.join new) ∧ new.Refines (old.join new) ∧
        ∀ upper, old.Refines upper → new.Refines upper →
          SymStack.Refines (old.join new) upper) ∧
      (old.widen new).1 = old.join new ∧
      ((old.widen new).2 = true ↔ old.join new ≠ old)) ∧
    ∀ (recovery : Recovery) (pc : UInt64) (site : Site) (old stack : SymStack),
      old.length = stack.length → recovery.config.revisit = .merge → stack ∉ site.contexts →
      recovery.config.maxContexts ≤ (site.contexts.length : Int) →
      site.joined[stack.length]? = some old →
      recovery.revisit pc site stack =
        if (old.widen stack).2 then
          recovery.enqueue pc
            { site with joined := site.joined.insert stack.length (old.widen stack).1 }
            (old.widen stack).1
        else recovery := by
  refine ⟨?_, ?_, ?_⟩
  · intro code start finer coarser refines
    refine ⟨?_, ?_, ?_, ?_⟩
    · intro successors transferred
      exact Block.transfer_refines refines transferred
    · intro fault failed named
      rcases Block.transfer_error refines failed with same | rfl
      · exact same
      · simp [Block.escape, Fault.met] at named
    · intro fault failed escapes
      obtain rfl := Block.eq_escape_of_transfer failed escapes
      exact Block.escape_of_refines refines failed
    · intro fault failed
      have inner : ∀ instruction ∈ (Block.decode code start).body, instruction.isFinal = false :=
        fun _ member => Block.isFinal_of_mem_body member
      exact (Cause.isFlow_iff _).mp (Block.isFlow_of_transfer inner (Prod.ext rfl failed))
  · intro old new heights
    refine ⟨⟨SymStack.refines_join_left heights, SymStack.refines_join_right heights, ?_⟩, ?_, ?_⟩
    · intro upper oldBelow newBelow
      exact SymStack.join_refines oldBelow newBelow
    · rw [SymStack.widen_eq heights]
    · rw [SymStack.widen_eq heights, decide_eq_true_eq]
  · intro recovery pc site old stack heights merges new full lookup
    exact Recovery.revisit_eq_widen heights merges new full lookup

/-- An addition before a jump to the sum, with a place to jump to. -/
def summingCode : Code :=
  .ofBytes (Bytes.ofList [0x01, 0x56, 0x00, 0x5b])

/-- Without its operands the addition fails alike on all stacks. With both of them known the jump is
resolved whatever is below, and where control escapes with all cells known but one of them it
escapes with fewer known. A block that is reached with a new word in a cell that was known is queued
with the cell unknown. -/
theorem summingCode_monotone :
    ((Block.decode summingCode 0).transfer [some 1]).2 =
      .error ⟨[.position 0, .needs "ADD" 2 1], .stackUnderflow⟩ ∧
    ((Block.decode summingCode 0).transfer [none, none, none]).2 =
      .error ⟨[.position 1], .controlFlowEscaped⟩ ∧
    (∃ finerSuccessors,
      ((Block.decode summingCode 0).transfer [some 1, some 2, some 9]).2 = .ok finerSuccessors ∧
      List.Forall₂ Successor.Refines finerSuccessors [⟨3, [none], true⟩]) ∧
    SymStack.widen [some 1, none, some 2] [some 1, some 4, some 3] = ([some 1, none, none], true) ∧
    (Recovery.start summingCode ⟨.merge, 0⟩).revisit 3
        ⟨Block.decode summingCode 3, [], {(1, [some 9])}⟩ [some 8] =
      (Recovery.start summingCode ⟨.merge, 0⟩).enqueue 3
        ⟨Block.decode summingCode 3, [], Std.TreeMap.insert {(1, [some 9])} 1 [none]⟩ [none] := by
  obtain ⟨transfers, joins, revisits⟩ := block_transfer_monotone
  have unknown (cell : Cell) : cell.Refines none := .unknown cell
  have same (cell : Cell) : cell.Refines cell := .refl cell
  refine ⟨?_, ?_, ?_, ?_, ?_⟩
  · exact (transfers summingCode 0 [some 1] [none] (.cons (unknown _) .nil)).2.1 _ rfl (by simp)
  · exact (transfers summingCode 0 [none, some 2, some 9] [none, none, none]
      (.cons (same _) (.cons (unknown _) (.cons (unknown _) .nil)))).2.2.1 _ rfl rfl
  · exact (transfers summingCode 0 [some 1, some 2, some 9] [some 1, some 2, none]
      (.cons (same _) (.cons (same _) (.cons (unknown _) .nil)))).1 _ rfl
  · obtain ⟨_, joined, flagged⟩ := joins [some 1, none, some 2] [some 1, some 4, some 3] rfl
    exact Prod.ext joined (flagged.mpr (by decide))
  · exact (revisits _ 3 ⟨Block.decode summingCode 3, [], {(1, [some 9])}⟩ [some 9] [some 8] rfl rfl
      List.not_mem_nil (by decide) (by simp)).trans rfl

end EvmAtlas
