import Mathlib.Data.List.Sort
import EvmAtlas.Proofs.Coverage

/-!
# Widening changes no graph

A recovery that merges may visit a block with a join, which describes stacks that no path
produces. It finds the same graph nevertheless. `Exact` collects the stacks that the paths
of the program produce, without joins and without a limit on their number. A visited stack
covers every exact one, and lies above an exact one; and a block sends control to the same
positions from a stack as from any finer one. So the graph is that of the exact stacks,
whatever the limit was and whatever was joined.
-/

namespace EvmAtlas

namespace Recovery

variable {code : Code} {config : RecoveryConfig} {visited : List Visit}
variable {pending : List Successor} {recovery : Recovery} {program : Program}
variable {pc : UInt64} {stack : SymStack} {visit : Visit} {successor : Successor}

/-- The positions that the paths of a program reach, with the stacks they produce. -/
inductive Exact (code : Code) : UInt64 → SymStack → Prop where
  | entry : Exact code 0 []
  | follow {pc : UInt64} {stack : SymStack} {successor : Successor}
      (here : Exact code pc stack) (sends : Sends code ⟨pc, stack⟩ successor) :
      Exact code successor.pc successor.stack

/-- Whether an exact stack lies below the given one. -/
def Realized (code : Code) (pc : UInt64) (stack : SymStack) : Prop :=
  ∃ produced, Exact code pc produced ∧ produced.Refines stack

theorem Realized.coarsen {coarser : SymStack} (realized : Realized code pc stack)
    (refines : stack.Refines coarser) : Realized code pc coarser := by
  obtain ⟨produced, here, below⟩ := realized
  exact ⟨produced, here, below.trans refines⟩

/-- A finer stack sends control along the same ways. -/
theorem Sends.finer {finer : SymStack} (sends : Sends code visit successor)
    (refines : finer.Refines visit.stack) :
    ∃ sent, Sends code ⟨visit.pc, finer⟩ sent ∧ sent.Refines successor := by
  obtain ⟨successors, transferred, member⟩ := sends
  obtain ⟨finerSuccessors, finerTransferred, related⟩ :=
    Block.transfer_refines refines transferred
  obtain ⟨index, inside, rfl⟩ := List.mem_iff_getElem.mp member
  have finerInside : index < finerSuccessors.length := by rwa [related.length_eq]
  exact ⟨finerSuccessors[index],
    ⟨finerSuccessors, finerTransferred, List.getElem_mem finerInside⟩,
    related.get finerInside inside⟩

/-- A coarser stack that can be visited sends control along the same ways. -/
theorem Sends.coarser {coarser : SymStack} {successors : List Successor}
    (sends : Sends code visit successor) (refines : visit.stack.Refines coarser)
    (transferred : ((Block.decode code visit.pc).transfer coarser).2 = .ok successors) :
    ∃ sent, Sends code ⟨visit.pc, coarser⟩ sent ∧ successor.Refines sent := by
  obtain ⟨finerSuccessors, finerTransferred, related⟩ :=
    Block.transfer_refines refines transferred
  obtain ⟨index, inside, rfl⟩ := List.mem_iff_getElem.mp (sends.mem finerTransferred)
  have coarserInside : index < successors.length := by rwa [← related.length_eq]
  exact ⟨successors[index], ⟨successors, transferred, List.getElem_mem coarserInside⟩,
    related.get inside coarserInside⟩

theorem Realized.send (realized : Realized code visit.pc visit.stack)
    (sends : Sends code visit successor) : Realized code successor.pc successor.stack := by
  obtain ⟨produced, here, below⟩ := realized
  obtain ⟨sent, sentThere, refines⟩ := sends.finer below
  rw [← refines.pc]
  exact ⟨sent.stack, here.follow sentThere, refines.stack⟩

/-- Everything that a recovery visits, queues or has pending lies above something exact. -/
theorem Stage.realized (stage : Stage code config visited pending recovery) :
    (∀ visit ∈ visited, Realized code visit.pc visit.stack) ∧
      (∀ visit ∈ recovery.queue, Realized code visit.pc visit.stack) ∧
      ∀ successor ∈ pending, Realized code successor.pc successor.stack := by
  apply stage.carries (Realized code)
  · exact ⟨[], .entry, .refl []⟩
  · intro visit successor realized sends
    exact realized.send sends
  · intro pc stack queued refines _ realized
    exact realized.coarsen refines

namespace Closed

theorem exact_covered (closed : Closed code visited program) (here : Exact code pc stack) :
    ∃ visit ∈ visited, visit.pc = pc ∧ stack.Refines visit.stack := by
  induction here with
  | entry => exact closed.entry
  | follow _ sends ih =>
      obtain ⟨visit, member, rfl, refines⟩ := ih
      obtain ⟨successors, transferred⟩ := closed.transfers visit member
      obtain ⟨sent, sentThere, related⟩ := sends.coarser refines transferred
      obtain ⟨_, next, nextMember, there, above⟩ := closed.sent visit member sent sentThere
      exact ⟨next, nextMember, there.trans related.pc.symm, related.stack.trans above⟩

/-- The positions that were visited are those of exact stacks. -/
theorem block_iff_exact (closed : Closed code visited program)
    (realized : ∀ visit ∈ visited, Realized code visit.pc visit.stack) (pc : UInt64) :
    (∃ block, program.block? pc = some block) ↔ ∃ stack, Exact code pc stack := by
  rw [closed.visited_iff]
  constructor
  · rintro ⟨visit, member, rfl⟩
    obtain ⟨produced, here, _⟩ := realized visit member
    exact ⟨produced, here⟩
  · rintro ⟨stack, here⟩
    obtain ⟨visit, member, there, _⟩ := closed.exact_covered here
    exact ⟨visit, member, there⟩

/-- The ways in which visits sent control are those of exact stacks. -/
theorem sends_iff_exact (closed : Closed code visited program)
    (realized : ∀ visit ∈ visited, Realized code visit.pc visit.stack) (pc : UInt64)
    (way : UInt64 → Bool → Prop) :
    (∃ visit ∈ visited, visit.pc = pc ∧
        ∃ successor, Sends code visit successor ∧ way successor.pc successor.jumped) ↔
      ∃ stack, Exact code pc stack ∧
        ∃ successor, Sends code ⟨pc, stack⟩ successor ∧
          way successor.pc successor.jumped := by
  constructor
  · rintro ⟨visit, member, rfl, successor, sends, goes⟩
    obtain ⟨produced, here, below⟩ := realized visit member
    obtain ⟨sent, sentThere, related⟩ := sends.finer below
    rw [← related.pc, ← related.jumped] at goes
    exact ⟨produced, here, sent, sentThere, goes⟩
  · rintro ⟨stack, here, successor, sends, goes⟩
    obtain ⟨visit, member, rfl, refines⟩ := closed.exact_covered here
    obtain ⟨successors, transferred⟩ := closed.transfers visit member
    obtain ⟨sent, sentThere, related⟩ := sends.coarser refines transferred
    rw [related.pc, related.jumped] at goes
    exact ⟨visit, member, rfl, sent, sentThere, goes⟩

/-- Two recoveries of one code that are closed and realized found the same blocks. -/
theorem block?_eq {others : List Visit} {other : Program}
    (closed : Closed code visited program) (otherClosed : Closed code others other)
    (realized : ∀ visit ∈ visited, Realized code visit.pc visit.stack)
    (otherRealized : ∀ visit ∈ others, Realized code visit.pc visit.stack) (pc : UInt64) :
    program.block? pc = other.block? pc := by
  have known_iff := (closed.block_iff_exact realized pc).trans
    (otherClosed.block_iff_exact otherRealized pc).symm
  cases known : program.block? pc with
  | none =>
      cases otherKnown : other.block? pc with
      | none => rfl
      | some block => simp [known, otherKnown] at known_iff
  | some block =>
      obtain ⟨otherBlock, otherKnown⟩ := known_iff.mp ⟨block, known⟩
      have bare_eq := (closed.decoded _ _ known).trans
        (otherClosed.decoded _ _ otherKnown).symm
      have destinations_eq : block.final.destinations = otherBlock.final.destinations := by
        refine (closed.ascending _ _ known).eq_of_mem_iff
          (otherClosed.ascending _ _ otherKnown) fun target => ?_
        rw [closed.destinations _ _ known, otherClosed.destinations _ _ otherKnown]
        let way (found : UInt64) (jumped : Bool) : Prop := jumped = true ∧ found = target
        exact (closed.sends_iff_exact realized pc way).trans
          (otherClosed.sends_iff_exact otherRealized pc way).symm
      rw [otherKnown, Block.eq_of_bare_eq bare_eq destinations_eq]

end Closed

end Recovery

/-- Recovery by merging finds the graph of the exact stacks: its blocks stand where exact
stacks arrive, its edges are the ways that blocks send them, and so the limit on the stacks
told apart changes neither. -/
theorem recovered_graph_exact {bytes : Bytes} {config : RecoveryConfig} {program : Program}
    (recovered : recover bytes config = .ok program) (merges : config.revisit = .merge) :
    (∀ pc, (∃ block, program.block? pc = some block) ↔
      ∃ stack, Recovery.Exact (Code.ofBytes bytes) pc stack) ∧
    (∀ pc target, target ∈ program.successors pc ↔
      ∃ stack, Recovery.Exact (Code.ofBytes bytes) pc stack ∧
        ∃ successor, Recovery.Sends (Code.ofBytes bytes) ⟨pc, stack⟩ successor ∧
          successor.pc = target) ∧
    ∀ (limit : Int) (other : Program),
      recover bytes { config with maxContexts := limit } = .ok other →
        ∀ pc, program.block? pc = other.block? pc ∧
          program.successors pc = other.successors pc := by
  obtain ⟨visited, finished, stage, empty, rfl⟩ := stage_of_recover recovered
  have closed := stage.closed empty merges
  have realized := stage.realized.1
  refine ⟨closed.block_iff_exact realized, fun pc target => ?_, ?_⟩
  · rw [closed.edges]
    exact closed.sends_iff_exact realized pc fun found _ => found = target
  · intro limit other otherRecovered pc
    obtain ⟨others, otherFinished, otherStage, otherEmpty, rfl⟩ :=
      stage_of_recover otherRecovered
    have block_eq := closed.block?_eq (otherStage.closed otherEmpty merges) realized
      otherStage.realized.1 pc
    refine ⟨block_eq, ?_⟩
    unfold Program.successors
    rw [block_eq]

/-- A loop that counts up from zero for ever. -/
def countingCode : Bytes :=
  Bytes.ofList [0x60, 0x00, 0x5b, 0x60, 0x01, 0x01, 0x60, 0x02, 0x56]

/-- Telling eight counts apart and telling none apart give the same graph of a loop. -/
theorem countingCode_graph_exact :
    ∃ program other, recover countingCode {} = .ok program ∧
      recover countingCode { maxContexts := -1 } = .ok other ∧
      ∀ pc, program.block? pc = other.block? pc ∧
        program.successors pc = other.successors pc := by
  have recovers : (recover countingCode {}).toOption.any (fun _ => true) = true := by
    decide +kernel
  have widens :
      (recover countingCode { maxContexts := -1 }).toOption.any (fun _ => true) = true := by
    decide +kernel
  obtain ⟨program, recovered, _⟩ := exists_ok recovers
  obtain ⟨other, otherRecovered, _⟩ := exists_ok widens
  exact ⟨program, other, recovered, otherRecovered,
    (recovered_graph_exact recovered rfl).2.2 (-1) other otherRecovered⟩

end EvmAtlas
