import EvmAtlas.Proofs.Termination
import EvmAtlas.Proofs.Widening

/-!
# Skipping finds a part of the graph

A recovery that skips visits each block once, with the first stack that reaches it, in an
order of its own. It makes no joins, so all of its stacks are exact. A recovery by merging
of the same code has visited a coarser stack for each of them: whatever stops the one
recovery would have stopped the other, and whatever the one finds the other has found.
-/

namespace EvmAtlas

namespace Recovery

variable {code : Code} {config : RecoveryConfig} {visited : List Visit}
variable {pending : List Successor} {recovery : Recovery} {program : Program}
variable {pc : UInt64} {stack : SymStack} {visit : Visit}

/-! ## Recoveries that succeed -/

/-- Whether a visit meets no fault: its block can be run, and every jump lands. -/
def Clear (code : Code) (visit : Visit) : Prop :=
  ∃ successors, ((Block.decode code visit.pc).transfer visit.stack).2 = .ok successors ∧
    ∀ successor ∈ successors, Lands code successor

namespace Stage

/-- Successors that land are all reached. -/
theorem exists_foldlM_reach (stage : Stage code config visited pending recovery)
    (lands : ∀ successor ∈ pending, Lands code successor) :
    ∃ next, pending.foldlM Recovery.reach recovery = .ok next := by
  induction pending generalizing recovery with
  | nil => exact ⟨recovery, rfl⟩
  | cons successor pending ih =>
      have coherent := stage.coherent
      have decoded := coherent.decoded
      have landsHere := lands successor (.head _)
      rw [← coherent.code_eq] at decoded landsHere
      obtain ⟨middle, reached⟩ := exists_reach decoded landsHere
      obtain ⟨next, folded⟩ :=
        ih (stage.reach reached) fun other member => lands other (.tail _ member)
      refine ⟨next, ?_⟩
      rw [List.foldlM_cons, reached]
      exact folded

theorem exists_visit (stage : Stage code config visited [] recovery) {rest : List Visit}
    (queued : recovery.queue = visit :: rest) (clear : Clear code visit) :
    ∃ next, Recovery.visit { recovery with queue := rest } visit = .ok next := by
  obtain ⟨successors, transferred, lands⟩ := clear
  obtain ⟨site, known⟩ := stage.coherent.queued visit (by rw [queued]; exact .head _)
  rw [← stage.coherent.decoded _ _ known, Block.transfer_bare_outcome] at transferred
  obtain ⟨next, folded⟩ :=
    (stage.take queued known (Prod.ext rfl transferred)).exists_foldlM_reach lands
  refine ⟨next, ?_⟩
  simp only [Recovery.visit, known, transferred, ok_bind, folded]

/-- A recovery whose visits all meet no fault works its queue off: the step bound is enough
for them. -/
theorem exists_run (stage : Stage code config visited [] recovery) {steps : Nat}
    (clear : ∀ visited recovery, Stage code config visited [] recovery →
      ∀ visit ∈ recovery.queue, Clear code visit)
    (enough : stepBound code config ≤ visited.length + steps) :
    ∃ finished, recovery.run steps = .ok finished := by
  induction steps generalizing visited recovery with
  | zero =>
      have bounded := stage.visits_le_stepBound
      have empty : recovery.queue = [] := List.length_eq_zero_iff.mp (by omega)
      exact ⟨recovery, by simp [Recovery.run, empty]⟩
  | succ steps ih =>
      cases queued : recovery.queue with
      | nil => exact ⟨recovery, by simp [Recovery.run, queued]⟩
      | cons first rest =>
          obtain ⟨next, visits⟩ := stage.exists_visit queued
            (clear visited recovery stage first (by rw [queued]; exact .head _))
          simp only [Recovery.run, queued, visits]
          apply ih (stage.visit queued visits)
          rw [List.length_cons]
          omega

end Stage

theorem exists_recover {bytes : Bytes}
    (clear : ∀ visited recovery, Stage (Code.ofBytes bytes) config visited [] recovery →
      ∀ visit ∈ recovery.queue, Clear (Code.ofBytes bytes) visit) :
    ∃ program, recover bytes config = .ok program := by
  rcases recover_cases bytes config with ⟨fault, unreached, _⟩ | ⟨entered, entry, ran⟩
  · -- The entry is not jumped to, so that it cannot be refused.
    have initial : Stage (Code.ofBytes bytes) config [] [⟨0, [], false⟩] _ := .start
    obtain ⟨entered, entry⟩ : ∃ entered,
        (start (Code.ofBytes bytes) config).reach ⟨0, [], false⟩ = .ok entered :=
      exists_reach initial.coherent.decoded fun jumped => nomatch jumped
    rw [entry] at unreached
    cases unreached
  · obtain ⟨finished, finishes⟩ :=
      (Stage.start.reach entry).exists_run clear (Nat.le_add_left _ _)
    refine ⟨finished.program, ?_⟩
    rw [ran, finishes]
    rfl

/-! ## Exact stacks -/

theorem Stage.exact (stage : Stage code config visited pending recovery)
    (skips : config.revisit = .skip) :
    (∀ visit ∈ visited, Exact code visit.pc visit.stack) ∧
      (∀ visit ∈ recovery.queue, Exact code visit.pc visit.stack) ∧
      ∀ successor ∈ pending, Exact code successor.pc successor.stack := by
  apply stage.carries (Exact code) .entry
  · intro visit successor here sends
    exact here.follow sends
  · intro pc stack queued _ same here
    rw [same skips]
    exact here

namespace Closed

/-- What a recovery by merging visited without a fault, an exact stack meets no fault with. -/
theorem clear_of_exact (closed : Closed code visited program) (here : Exact code pc stack) :
    Clear code ⟨pc, stack⟩ := by
  obtain ⟨visit, member, rfl, refines⟩ := closed.exact_covered here
  obtain ⟨successors, transferred⟩ := closed.transfers visit member
  obtain ⟨finer, finerTransferred, _⟩ := Block.transfer_refines refines transferred
  refine ⟨finer, finerTransferred, ?_⟩
  intro successor sent
  have sends : Sends code ⟨visit.pc, stack⟩ successor := ⟨finer, finerTransferred, sent⟩
  obtain ⟨above, aboveSent, related⟩ := sends.coarser refines transferred
  have lands := (closed.sent visit member above aboveSent).1
  intro jumped
  rw [related.pc]
  exact lands (related.jumped ▸ jumped)

/-- Where an exact stack sends control, a recovery by merging has an edge. -/
theorem edge_of_exact (closed : Closed code visited program) (here : Exact code pc stack)
    {successor : Successor} (sends : Sends code ⟨pc, stack⟩ successor) :
    successor.pc ∈ program.successors pc := by
  obtain ⟨visit, member, rfl, refines⟩ := closed.exact_covered here
  obtain ⟨successors, transferred⟩ := closed.transfers visit member
  obtain ⟨above, aboveSent, related⟩ := sends.coarser refines transferred
  exact (closed.edges _ _).mpr ⟨visit, member, rfl, above, aboveSent, related.pc.symm⟩

end Closed

end Recovery

/-- Where recovery by merging succeeds so does recovery by skipping, and the graph that it
finds is a part of the other one, whatever the limits on the stacks told apart were. -/
theorem skipping_finds_subgraph {bytes : Bytes} {limit : Int} {merged : Program}
    (recovered : recover bytes { revisit := .merge, maxContexts := limit } = .ok merged)
    (otherLimit : Int) :
    ∃ skipped, recover bytes { revisit := .skip, maxContexts := otherLimit } = .ok skipped ∧
      (∀ pc block, skipped.block? pc = some block →
        ∃ other, merged.block? pc = some other) ∧
      ∀ pc, skipped.successors pc ⊆ merged.successors pc := by
  obtain ⟨visited, closed⟩ := closed_of_recover recovered rfl
  obtain ⟨skipped, skippedRecovered⟩ := Recovery.exists_recover
    fun others recovery (stage : Recovery.Stage _
      { revisit := .skip, maxContexts := otherLimit } _ _ _) visit member =>
        closed.clear_of_exact ((stage.exact rfl).2.1 visit member)
  obtain ⟨others, finished, stage, empty, rfl⟩ := stage_of_recover skippedRecovered
  have exact := (stage.exact rfl).1
  refine ⟨finished.program, skippedRecovered, ?_, ?_⟩
  · intro pc block found
    obtain ⟨site, known, _⟩ := Recovery.known_of_block? found
    obtain ⟨visit, member, rfl⟩ := stage.visited_of_known empty known
    obtain ⟨above, aboveMember, here, _⟩ := closed.exact_covered (exact visit member)
    exact (closed.visited_iff _).mpr ⟨above, aboveMember, here⟩
  · intro pc target edge
    obtain ⟨visit, member, rfl, successor, sends, rfl⟩ :=
      (stage.mem_successors_iff empty).mp edge
    exact closed.edge_of_exact (exact visit member) sends

/-- Two calls of one subroutine: at 0 and at 5 a return position is pushed and control jumps
to 13, where it jumps back. -/
def subroutineCode : Bytes :=
  Bytes.ofList [0x60, 0x05, 0x60, 0x0d, 0x56, 0x5b, 0x60, 0x0b, 0x60, 0x0d, 0x56,
    0x5b, 0x00, 0x5b, 0x56]

/-- Skipping finds the way back to the first call only, and merging finds both. -/
theorem subroutineCode_subgraph :
    ∃ merged skipped, recover subroutineCode { maxContexts := 0 } = .ok merged ∧
      recover subroutineCode { revisit := .skip } = .ok skipped ∧
      merged.successors 13 = [5, 11] ∧ skipped.successors 13 = [5] ∧
      ∀ pc, skipped.successors pc ⊆ merged.successors pc := by
  have merges : (recover subroutineCode { maxContexts := 0 }).toOption.any
      (fun program => program.successors 13 == [5, 11]) = true := by
    decide +kernel
  have skips : (recover subroutineCode { revisit := .skip }).toOption.any
      (fun program => program.successors 13 == [5]) = true := by
    decide +kernel
  obtain ⟨merged, recovered, mergedSeen⟩ := exists_ok merges
  obtain ⟨skipped, skippedRecovered, skippedSeen⟩ := exists_ok skips
  obtain ⟨found, foundRecovered, _, part⟩ := skipping_finds_subgraph recovered 8
  obtain rfl : found = skipped := Except.ok.inj (foundRecovered.symm.trans skippedRecovered)
  exact ⟨merged, found, recovered, foundRecovered, beq_iff_eq.mp mergedSeen,
    beq_iff_eq.mp skippedSeen, part⟩

end EvmAtlas
