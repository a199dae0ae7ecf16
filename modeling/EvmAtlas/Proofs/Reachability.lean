import Mathlib.Logic.Relation
import EvmAtlas.Proofs.Coverage

/-!
# The recovered graph is closed

A recovery records the destination of a jump before it knows whether anything stands
there, and under the skip policy it drops most of what it reaches. Its graph is closed
all the same: a successor that was recorded is either still pending or was reached, and a
position is reached only from a block that leads there. Both are invariants of the stages
of a recovery under either policy, so that nothing here depends on the stacks it kept.
-/

namespace EvmAtlas

namespace Recovery

variable {code : Code} {config : RecoveryConfig} {visited : List Visit}
variable {pending : List Successor} {recovery finished : Recovery}
variable {pc target : UInt64} {successor : Successor} {site : Site}

/-- A jump that lands arrives where the sweep of the code meets a jump destination. -/
theorem Lands.fetched (lands : Lands code successor) (jumped : successor.jumped = true) :
    code.isCode successor.pc = true ∧
      Opcode.ofByte? (code.byteAt successor.pc) = some .jumpdest := by
  obtain ⟨isCode, begins⟩ := lands jumped
  exact ⟨isCode, Block.isJumpDestination_decode_iff.mp begins⟩

/-- Whether a visit to one position sent control to another one. -/
def Links (code : Code) (visited : List Visit) (source target : UInt64) : Prop :=
  ∃ visit ∈ visited, visit.pc = source ∧
    ∃ successor, Sends code visit successor ∧ successor.pc = target

theorem Links.cons {source : UInt64} (visit : Visit) (links : Links code visited source target) :
    Links code (visit :: visited) source target := by
  obtain ⟨sender, member, sends⟩ := links
  exact ⟨sender, .tail _ member, sends⟩

namespace Stage

/-- Every known position, and every one that is pending, lies on a path from the entry along
which visits sent control. -/
theorem reachable (stage : Stage code config visited pending recovery) :
    (∀ (pc : UInt64) (site : Site), recovery.sites[pc]? = some site →
      Relation.ReflTransGen (Links code visited) 0 pc) ∧
      ∀ successor ∈ pending, Relation.ReflTransGen (Links code visited) 0 successor.pc := by
  induction stage with
  | start =>
      constructor
      · intro pc site known
        simp [Recovery.start] at known
      · intro successor member
        rw [List.mem_singleton] at member
        rw [member]
  | @take visited recovery visit _ site _ successors before _ known transferred ih =>
      have extend {pc : UInt64} (path : Relation.ReflTransGen (Links code visited) 0 pc) :
          Relation.ReflTransGen (Links code (visit :: visited)) 0 pc :=
        Relation.ReflTransGen.mono (fun _ _ links => links.cons visit) 0 pc path
      constructor
      · intro pc found recorded
        obtain ⟨old, oldKnown, _⟩ := known_of_recorded known recorded
        exact extend (ih.1 pc old oldKnown)
      · intro successor member
        have sends : Sends code visit successor :=
          ⟨successors, before.transfer_decode known transferred, member⟩
        apply (extend (ih.1 _ _ known)).tail
        exact ⟨visit, .head _, rfl, successor, sends, rfl⟩
  | reach before reached ih =>
      constructor
      · intro pc site known
        rcases (before.reach_cases reached).2.known_or_new known with
          ⟨old, oldKnown, _⟩ | ⟨rfl, _, _⟩
        · exact ih.1 pc old oldKnown
        · exact ih.2 _ (.head _)
      · intro other member
        exact ih.2 other (.tail _ member)

theorem entry_known (stage : Stage code config visited pending recovery) :
    ⟨0, [], false⟩ ∈ pending ∨ ∃ site, recovery.sites[(0 : UInt64)]? = some site := by
  induction stage with
  | start => exact .inl (.head _)
  | @take _ _ _ _ _ block _ _ _ known _ ih =>
      rcases ih with absurd | ⟨site, siteKnown⟩
      · simp at absurd
      · obtain ⟨new, newKnown, _⟩ := recorded_of_known known block siteKnown
        exact .inr ⟨new, newKnown⟩
  | reach before reached ih =>
      have admits := (before.reach_cases reached).2
      rcases ih with isPending | ⟨site, known⟩
      · rcases List.mem_cons.mp isPending with rfl | isPending
        · exact .inr admits.known_successor
        · exact .inl isPending
      · obtain ⟨site, known, _⟩ := admits.known_mono known
        exact .inr ⟨site, known⟩

/-- Where a visit of a finished recovery sent control, a jump may arrive and a block
stands. -/
theorem lands_of_sends (stage : Stage code config visited [] finished) {visit : Visit}
    (member : visit ∈ visited) (sends : Sends code visit successor) :
    Lands code successor ∧ ∃ block, finished.program.block? successor.pc = some block := by
  rcases stage.sent_reached member sends with absurd | ⟨lands, site, known⟩
  · simp at absurd
  · exact ⟨lands, site.block, block?_of_known known⟩

/-- The destinations recorded on the blocks of a finished recovery are those that the machine
lets a jump go to. -/
theorem fetched_of_mem_destinations (stage : Stage code config visited [] finished)
    (known : finished.sites[pc]? = some site)
    (member : target ∈ site.block.final.destinations) :
    code.isCode target = true ∧ Opcode.ofByte? (code.byteAt target) = some .jumpdest := by
  obtain ⟨visit, visitMember, _, successor, sends, jumped, rfl⟩ :=
    (stage.mem_destinations_iff known).mp member
  exact (stage.lands_of_sends visitMember sends).1.fetched jumped

end Stage

end Recovery

theorem Word.toUInt64?_ofUInt64 (number : UInt64) :
    (Word.ofUInt64 number).toUInt64? = some number := by
  have narrow : (Word.ofUInt64 number).toNat = number.toNat := by
    rw [ofUInt64, BitVec.toNat_ofNat]
    exact Nat.mod_eq_of_lt (Nat.lt_trans number.toNat_lt (by decide))
  rw [toUInt64?, if_pos (narrow ▸ number.toNat_lt), low64, narrow, UInt64.ofNat_toNat]

/-- The graph of a recovered program is closed and well formed, whatever the policy was. Its
edges lead to its blocks, its blocks are reached from the entry along its edges, each block
is the one that the code holds there with destinations recorded on it, and every recorded
destination is a jump destination of the code that no push reads as its literal, which is
where the machine lets a jump go. -/
theorem recovered_graph_closed {bytes : Bytes} {config : RecoveryConfig} {program : Program}
    (recovered : recover bytes config = .ok program) :
    (∀ pc, ∀ target ∈ program.successors pc, ∃ block, program.block? target = some block) ∧
    (∃ entry, program.block? 0 = some entry) ∧
    (∀ pc block, program.block? pc = some block →
      Relation.ReflTransGen (fun source target => target ∈ program.successors source) 0 pc) ∧
    (∀ pc block, program.block? pc = some block →
      block.bare = Block.decode (Code.ofBytes bytes) pc) ∧
    ∀ pc block, program.block? pc = some block →
      ∀ destination ∈ block.final.destinations,
        destination.toNat < bytes.size ∧
        bytes.byteAt destination.toNat = Opcode.jumpdest.toByte ∧
        destination.toNat ∉ immediates bytes ∧
        (Code.ofBytes bytes).isJumpDestination (.ofUInt64 destination) = true := by
  obtain ⟨visited, finished, stage, empty, rfl⟩ := stage_of_recover recovered
  refine ⟨?_, ?_, ?_, ?_, ?_⟩
  · intro pc target edge
    obtain ⟨visit, member, _, successor, sends, rfl⟩ := (stage.mem_successors_iff empty).mp edge
    exact (stage.lands_of_sends member sends).2
  · rcases stage.entry_known with absurd | ⟨site, known⟩
    · simp at absurd
    · exact ⟨site.block, Recovery.block?_of_known known⟩
  · intro pc block found
    obtain ⟨site, known, _⟩ := Recovery.known_of_block? found
    have path := stage.reachable.1 pc site known
    refine Relation.ReflTransGen.mono ?_ 0 pc path
    intro source target links
    exact (stage.mem_successors_iff empty).mpr links
  · intro pc block found
    obtain ⟨site, known, rfl⟩ := Recovery.known_of_block? found
    exact stage.coherent.decoded pc site known
  · intro pc block found destination member
    obtain ⟨site, known, rfl⟩ := Recovery.known_of_block? found
    obtain ⟨isCode, fetched⟩ := stage.fetched_of_mem_destinations known member
    obtain ⟨inside, isStart⟩ := (Code.isCode_iff destination).mp isCode
    have literal := mem_immediatesFrom_iff (.zero bytes) (Nat.le_of_eq (Nat.zero_add _).symm)
      (Nat.zero_le destination.toNat) inside
    refine ⟨inside, (Opcode.toByte_of_ofByte? fetched).symm, ?_, ?_⟩
    · intro isLiteral
      exact literal.mp isLiteral isStart
    · exact (Code.isJumpDestination_iff (Word.toUInt64?_ofUInt64 destination)).mpr
        ⟨isCode, fetched⟩

/-- Pushes of 1 and 6, a conditional jump, a stop, a jump destination and a stop. -/
def branchingCode : Bytes :=
  Bytes.ofList [0x60, 0x01, 0x60, 0x06, 0x57, 0x00, 0x5b, 0x00]

/-- A program that was recovered by visiting each block once has an edge from its conditional
jump to the block of the jump destination, which lies on a path from the entry. -/
theorem branchingCode_graph_closed :
    ∃ program, recover branchingCode { revisit := .skip } = .ok program ∧
      6 ∈ program.successors 0 ∧ (∃ block, program.block? 6 = some block) ∧
      Relation.ReflTransGen (fun source target => target ∈ program.successors source) 0 6 ∧
      (6 : UInt64).toNat ∉ immediates branchingCode := by
  have recovers : (recover branchingCode { revisit := .skip }).toOption.any (fun program =>
      program.successors 0 == [5, 6] &&
        (program.block? 0).any fun block => block.final.destinations == [6]) = true := by
    decide +kernel
  obtain ⟨program, recovered, seen⟩ := exists_ok recovers
  simp only [Bool.and_eq_true, Option.any_eq_true, beq_iff_eq] at seen
  obtain ⟨successors_eq, entry, entryKnown, destinations_eq⟩ := seen
  have edge : 6 ∈ program.successors 0 := by simp [successors_eq]
  obtain ⟨closed, _, reachable, _, destinations⟩ := recovered_graph_closed recovered
  obtain ⟨block, known⟩ := closed 0 6 edge
  obtain ⟨_, _, noLiteral, _⟩ := destinations 0 entry entryKnown 6 (by simp [destinations_eq])
  exact ⟨program, recovered, edge, ⟨block, known⟩, reachable 6 block known, noLiteral⟩

end EvmAtlas
