import Mathlib.Data.List.Forall2
import EvmAtlas.Flow.Transfer

/-!
# Refinement of abstract stacks

A stack refines another one of its height if it knows every cell that the other knows, with
the same value. Words on a machine's stack refine what an abstract stack says about them,
so that one order compares abstract stacks with each other and with the machine.

Instructions respect the order: applied to a finer stack they fail no more often, and what
they leave is finer. The join of two stacks lies above both.
-/

namespace EvmAtlas

/-- Whether a cell knows what another one knows. -/
def Cell.Refines (finer coarser : Cell) : Prop :=
  coarser = none ∨ finer = coarser

namespace Cell.Refines

theorem refl (cell : Cell) : cell.Refines cell :=
  .inr rfl

theorem unknown (cell : Cell) : cell.Refines none :=
  .inl rfl

theorem trans {finest middle coarsest : Cell} (lower : finest.Refines middle)
    (upper : middle.Refines coarsest) : finest.Refines coarsest := by
  rcases upper with rfl | rfl
  · exact unknown finest
  · exact lower

theorem eq_some {finer : Cell} {word : Word} (refines : finer.Refines (some word)) :
    finer = some word := by
  rcases refines with absurd | equal
  · cases absurd
  · exact equal

end Cell.Refines

/-- Whether a stack knows what another one of its height knows. -/
def SymStack.Refines (finer coarser : SymStack) : Prop :=
  List.Forall₂ Cell.Refines finer coarser

/-- Whether words on a machine's stack are what an abstract stack says about them. -/
def SymStack.Describes (stack : SymStack) (words : List Word) : Prop :=
  SymStack.Refines (words.map some) stack

namespace SymStack.Refines

variable {finer coarser : SymStack}

theorem refl (stack : SymStack) : stack.Refines stack :=
  List.forall₂_same.mpr fun cell _ => Cell.Refines.refl cell

theorem trans {finest middle coarsest : SymStack} (lower : finest.Refines middle)
    (upper : middle.Refines coarsest) : finest.Refines coarsest := by
  induction lower generalizing coarsest with
  | nil => exact upper
  | cons head _ ih =>
      cases upper with
      | cons upperHead upperTail => exact .cons (head.trans upperHead) (ih upperTail)

theorem length_eq (refines : finer.Refines coarser) : finer.length = coarser.length :=
  List.Forall₂.length_eq refines

theorem take (refines : finer.Refines coarser) (count : Nat) :
    SymStack.Refines (finer.take count) (coarser.take count) :=
  List.forall₂_take count refines

theorem drop (refines : finer.Refines coarser) (count : Nat) :
    SymStack.Refines (finer.drop count) (coarser.drop count) :=
  List.forall₂_drop count refines

theorem append {finerTail coarserTail : SymStack} (refines : finer.Refines coarser)
    (tails : finerTail.Refines coarserTail) :
    SymStack.Refines (finer ++ finerTail) (coarser ++ coarserTail) :=
  List.rel_append refines tails

theorem replicate_unknown (stack : SymStack) :
    stack.Refines (List.replicate stack.length none) := by
  induction stack with
  | nil => exact .nil
  | cons cell rest ih => exact .cons (.unknown cell) ih

/-- The cells at one place, unknown below the bottom. -/
theorem getD (refines : finer.Refines coarser) (index : Nat) :
    Cell.Refines (finer[index]?.getD none) (coarser[index]?.getD none) := by
  induction refines generalizing index with
  | nil => exact .refl none
  | cons head _ ih =>
      cases index with
      | zero => exact head
      | succ index => simpa using ih index

theorem set (refines : finer.Refines coarser) (index : Nat) {finerCell coarserCell : Cell}
    (cells : finerCell.Refines coarserCell) :
    SymStack.Refines (finer.set index finerCell) (coarser.set index coarserCell) := by
  induction refines generalizing index with
  | nil => exact .nil
  | cons head tail ih =>
      cases index with
      | zero => exact .cons cells tail
      | succ index => exact .cons head (ih index)

theorem swap (refines : finer.Refines coarser) (depth : Nat) :
    SymStack.Refines (finer.swap depth) (coarser.swap depth) := by
  cases refines with
  | nil => exact .nil
  | @cons finerTop coarserTop finerRest coarserRest head tail =>
      have cells := getD tail (depth - 1)
      have heights : finerRest.length = coarserRest.length := length_eq tail
      simp only [SymStack.swap]
      by_cases inside : depth - 1 < coarserRest.length
      · have finerInside : depth - 1 < finerRest.length := by omega
        simp only [List.getElem?_eq_getElem inside, List.getElem?_eq_getElem finerInside,
          Option.getD_some] at cells ⊢
        exact .cons cells (set tail _ head)
      · have finerOutside : ¬ depth - 1 < finerRest.length := by omega
        simp only [List.getElem?_eq_none (Nat.not_lt.mp inside),
          List.getElem?_eq_none (Nat.not_lt.mp finerOutside)]
        exact .cons head tail

end SymStack.Refines

namespace SymStack

variable {finer coarser : SymStack}

theorem known?_cons (cell : Cell) (cells : List Cell) :
    known? (cell :: cells) = cell.bind fun word => (known? cells).map (word :: ·) := by
  simp only [known?, List.mapM_cons]
  cases cell with
  | none => rfl
  | some word =>
      cases List.mapM id cells with
      | none => rfl
      | some words => rfl

theorem known?_map_some (words : List Word) : known? (words.map some) = some words := by
  induction words with
  | nil => rfl
  | cons word words ih => simp [known?_cons, ih]

theorem Refines.known? (refines : finer.Refines coarser) {words : List Word}
    (known : SymStack.known? coarser = some words) : SymStack.known? finer = some words := by
  induction refines generalizing words with
  | nil => exact known
  | cons head _ ih =>
      simp only [known?_cons, Option.bind_eq_some_iff, Option.map_eq_some_iff] at known ⊢
      obtain ⟨word, rfl, rest, restKnown, rfl⟩ := known
      exact ⟨word, head.eq_some, rest, ih restKnown, rfl⟩

@[simp] theorem length_swap (depth : Nat) (stack : SymStack) :
    (stack.swap depth).length = stack.length := by
  cases stack with
  | nil => rfl
  | cons top rest =>
      simp only [swap]
      split <;> simp

/-! ## Joins -/

/-- The number of cells that a stack does not know. -/
def unknowns (stack : SymStack) : Nat :=
  stack.count none

theorem unknowns_le_length (stack : SymStack) : stack.unknowns ≤ stack.length :=
  List.count_le_length

theorem refines_join_left {left right : SymStack} (heights : left.length = right.length) :
    left.Refines (left.join right) := by
  induction left generalizing right with
  | nil => exact .nil
  | cons cell rest ih =>
      cases right with
      | nil => simp at heights
      | cons other others =>
          refine .cons ?_ (ih (by simpa using heights))
          unfold Cell.join
          split
          · exact .refl cell
          · exact .unknown cell

theorem refines_join_right {left right : SymStack} (heights : left.length = right.length) :
    right.Refines (left.join right) := by
  induction left generalizing right with
  | nil =>
      cases right with
      | nil => exact .nil
      | cons other others => simp at heights
  | cons cell rest ih =>
      cases right with
      | nil => simp at heights
      | cons other others =>
          refine .cons ?_ (ih (by simpa using heights))
          unfold Cell.join
          split
          · next equal => exact .inr equal.symm
          · exact .unknown other

/-- A stack that a coarser one differs from has lost a cell. -/
theorem Refines.unknowns_lt (refines : finer.Refines coarser) (different : coarser ≠ finer) :
    finer.unknowns < coarser.unknowns := by
  have never : ∀ {finer coarser : SymStack}, finer.Refines coarser →
      finer.unknowns ≤ coarser.unknowns := by
    intro finer coarser refines
    induction refines with
    | nil => exact Nat.le_refl _
    | @cons finerCell coarserCell _ _ head _ ih =>
        simp only [unknowns, List.count_cons] at ih ⊢
        rcases head with rfl | rfl
        · cases finerCell <;> simp <;> omega
        · omega
  induction refines with
  | nil => exact (different rfl).elim
  | @cons finerCell coarserCell finerRest coarserRest head tail ih =>
      have restNever := never tail
      simp only [unknowns, List.count_cons] at ih restNever ⊢
      by_cases same : coarserCell = finerCell
      · subst same
        have := ih fun equal => different (by rw [equal])
        omega
      · rcases head with rfl | rfl
        · cases finerCell with
          | none => exact (same rfl).elim
          | some word =>
              simp
              omega
        · exact (same rfl).elim

end SymStack

/-! ## Instructions -/

namespace Opcode

theorem pushes_of_fold? {opcode : Opcode} {operands : List Word} {result : Word}
    (folds : opcode.fold? operands = some result) : opcode.arity.pushes = 1 := by
  unfold fold? at folds
  split at folds
  · rfl
  · rfl
  · rfl
  · simp at folds

/-- Only instructions that depend on their operands alone have a result ahead of a run. -/
theorem isFoldable_of_fold? {opcode : Opcode} {operands : List Word} {result : Word}
    (folds : opcode.fold? operands = some result) : opcode.isFoldable = true := by
  unfold fold? at folds
  split at folds
  · rfl
  · rfl
  · rfl
  · simp at folds

theorem length_applySym (opcode : Opcode) {stack : SymStack}
    (enough : opcode.arity.pops ≤ stack.length) :
    (opcode.applySym stack).length =
      stack.length - opcode.arity.pops + opcode.arity.pushes := by
  unfold applySym
  split
  · simp only [arity, List.length_cons] at enough ⊢
    omega
  · simp only [arity, SymStack.length_swap] at enough ⊢
    omega
  · dsimp only
    split
    · next result folds =>
        obtain ⟨operands, _, folds⟩ := Option.bind_eq_some_iff.mp folds
        simp [pushes_of_fold? folds]
    · simp only [List.length_append, List.length_replicate, List.length_drop]
      omega

theorem applySym_refines (opcode : Opcode) {finer coarser : SymStack}
    (refines : finer.Refines coarser) :
    SymStack.Refines (opcode.applySym finer) (opcode.applySym coarser) := by
  unfold applySym
  split
  · exact .cons (refines.getD _) refines
  · exact refines.swap _
  · dsimp only
    cases folds : (SymStack.known? (coarser.take opcode.arity.pops)).bind opcode.fold? with
    | some result =>
        obtain ⟨operands, known, folds⟩ := Option.bind_eq_some_iff.mp folds
        rw [(refines.take _).known? known, Option.bind_some, folds]
        exact .cons (.refl _) (refines.drop _)
    | none =>
        split
        · next result finerFolds =>
            obtain ⟨operands, _, finerFolds⟩ := Option.bind_eq_some_iff.mp finerFolds
            rw [pushes_of_fold? finerFolds]
            exact .cons (.unknown _) (refines.drop _)
        · exact .append (.refl _) (refines.drop _)

end Opcode

namespace Instruction

variable {instruction : Instruction} {stack next finer coarser : SymStack}

/-- When an instruction can be applied, and what it leaves. -/
theorem apply_eq_ok_iff :
    instruction.apply stack = (next, .ok ()) ↔
      instruction.arity.pops ≤ stack.length ∧
      (∀ byte, instruction.action ≠ .invalid byte) ∧
      next.length ≤ stackLimit ∧ instruction.stackAfter stack = next := by
  unfold apply
  by_cases enough : stack.length < instruction.arity.pops
  · simp [enough, Nat.not_le.mpr enough]
  · rw [if_neg enough]
    split
    · next byte invalid => simp [invalid]
    · next valid =>
        simp only [Nat.not_lt.mp enough, true_and, gt_iff_lt]
        constructor
        · intro applied
          split at applied
          · simp at applied
          · next fits =>
              cases applied
              exact ⟨valid, Nat.not_lt.mp fits, rfl⟩
        · rintro ⟨_, fits, rfl⟩
          rw [if_neg (Nat.not_lt.mpr fits)]

theorem stackAfter_refines (instruction : Instruction) (refines : finer.Refines coarser) :
    SymStack.Refines (instruction.stackAfter finer) (instruction.stackAfter coarser) := by
  unfold stackAfter
  split
  · exact Opcode.applySym_refines _ refines
  · exact .cons (.refl _) refines
  · exact refines
  · exact refines
  · exact refines.drop 1
  · exact refines.drop 2

theorem apply_refines (refines : finer.Refines coarser)
    (applied : instruction.apply coarser = (next, .ok ())) :
    instruction.apply finer = (instruction.stackAfter finer, .ok ()) ∧
      SymStack.Refines (instruction.stackAfter finer) next := by
  obtain ⟨enough, valid, fits, rfl⟩ := apply_eq_ok_iff.mp applied
  have after := instruction.stackAfter_refines refines
  rw [← refines.length_eq] at enough
  rw [← after.length_eq] at fits
  exact ⟨apply_eq_ok_iff.mpr ⟨enough, valid, fits, rfl⟩, after⟩

end Instruction

section ApplyAll

variable {instruction : Instruction} {instructions : List Instruction}
variable {stack last finer coarser : SymStack}

theorem applyAll_cons_eq_ok_iff :
    applyAll (instruction :: instructions) stack = .ok last ↔
      ∃ next, instruction.apply stack = (next, .ok ()) ∧
        applyAll instructions next = .ok last := by
  simp only [applyAll]
  split
  · next next applied => simp [applied]
  · next fault failed => simp [failed]

theorem applyAll_refines (refines : finer.Refines coarser)
    (applied : applyAll instructions coarser = .ok last) :
    ∃ finerLast, applyAll instructions finer = .ok finerLast ∧
      SymStack.Refines finerLast last := by
  induction instructions generalizing finer coarser with
  | nil =>
      cases applied
      exact ⟨finer, rfl, refines⟩
  | cons instruction instructions ih =>
      obtain ⟨next, first, rest⟩ := applyAll_cons_eq_ok_iff.mp applied
      obtain ⟨finerFirst, after⟩ := Instruction.apply_refines refines first
      obtain ⟨finerLast, finerRest, lastRefines⟩ := ih after rest
      exact ⟨finerLast, applyAll_cons_eq_ok_iff.mpr ⟨_, finerFirst, finerRest⟩, lastRefines⟩

/-- Instructions never leave a stack above the limit. -/
theorem length_le_of_applyAll (low : stack.length ≤ stackLimit)
    (applied : applyAll instructions stack = .ok last) : last.length ≤ stackLimit := by
  induction instructions generalizing stack with
  | nil =>
      cases applied
      exact low
  | cons instruction instructions ih =>
      obtain ⟨next, first, rest⟩ := applyAll_cons_eq_ok_iff.mp applied
      exact ih (Instruction.apply_eq_ok_iff.mp first).2.2.1 rest

end ApplyAll

end EvmAtlas
