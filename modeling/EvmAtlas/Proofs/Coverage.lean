import EvmAtlas.Proofs.Worklist

/-!
# Coverage

A recovery that merges loses nothing: each stack that reaches a position is refined by
nothing less than a stack the position was visited with. This is an invariant of its
stages, where a stack may still be queued and a successor may still be pending.

`Closed` states what is left of it when the queue is empty, in terms of the program and
of the visits alone. Soundness towards the machine and the exactness of the graph are
derived from it.
-/

namespace EvmAtlas

namespace Recovery

variable {code : Code} {config : RecoveryConfig} {visited : List Visit}
variable {pending : List Successor} {recovery next : Recovery} {successor : Successor}
variable {pc : UInt64} {stack : SymStack}

/-- Whether a recovery remembers, at a position, a stack that says no more than the given
one. -/
def Covers (recovery : Recovery) (pc : UInt64) (stack : SymStack) : Prop :=
  ∃ site, recovery.sites[pc]? = some site ∧ site.Covers stack

/-- The positions that control goes to from a block of the program, for a visit that was
made. -/
def Sends (code : Code) (visit : Visit) (successor : Successor) : Prop :=
  ∃ successors, ((Block.decode code visit.pc).transfer visit.stack).2 = .ok successors ∧
    successor ∈ successors

theorem Sends.mem {visit : Visit} {successors : List Successor}
    (sends : Sends code visit successor)
    (outcome : ((Block.decode code visit.pc).transfer visit.stack).2 = .ok successors) :
    successor ∈ successors := by
  obtain ⟨sent, sentOutcome, member⟩ := sends
  obtain rfl : sent = successors := Except.ok.inj (sentOutcome.symm.trans outcome)
  exact member

theorem Covers.recorded (covers : recovery.Covers pc stack) {visit : Visit} {site : Site}
    (known : recovery.sites[visit.pc]? = some site) (block : Block) {rest : List Visit} :
    Covers
      { recovery with
        sites := recovery.sites.insert visit.pc { site with block }
        queue := rest } pc stack := by
  obtain ⟨old, oldKnown, covers⟩ := covers
  obtain ⟨new, newKnown, same⟩ := recorded_of_known known block oldKnown
  exact ⟨new, newKnown, same ▸ covers⟩

/-- A visit transfers the block of the program, whatever was recorded on it before. -/
theorem Stage.transfer_decode (stage : Stage code config visited pending recovery)
    {visit : Visit} {site : Site} {block : Block} {successors : List Successor}
    (known : recovery.sites[visit.pc]? = some site)
    (transferred : site.block.transfer visit.stack = (block, .ok successors)) :
    ((Block.decode code visit.pc).transfer visit.stack).2 = .ok successors := by
  rw [← stage.coherent.decoded _ _ known, Block.transfer_bare_outcome, transferred]

/-- What the entry's stack has, blocks pass on and queueing keeps, all stacks of a recovery
have. A stack is queued as it is or as a join that says no more, and under the skip policy
as it is. -/
theorem Stage.carries (stage : Stage code config visited pending recovery)
    (holds : UInt64 → SymStack → Prop) (entry : holds 0 [])
    (passes : ∀ visit successor, holds visit.pc visit.stack → Sends code visit successor →
      holds successor.pc successor.stack)
    (queues : ∀ pc stack queued, stack.Refines queued →
      (config.revisit = .skip → queued = stack) → holds pc stack → holds pc queued) :
    (∀ visit ∈ visited, holds visit.pc visit.stack) ∧
      (∀ visit ∈ recovery.queue, holds visit.pc visit.stack) ∧
      ∀ successor ∈ pending, holds successor.pc successor.stack := by
  induction stage with
  | start =>
      refine ⟨by simp, by simp [Recovery.start], ?_⟩
      intro successor member
      rw [List.mem_singleton] at member
      rw [member]
      exact entry
  | @take _ _ visit _ _ _ successors before queued known transferred ih =>
      obtain ⟨visitedHold, queueHolds, _⟩ := ih
      rw [queued] at queueHolds
      have here := queueHolds _ (.head _)
      refine ⟨?_, fun other member => queueHolds other (.tail _ member), ?_⟩
      · intro other member
        rcases List.mem_cons.mp member with rfl | member
        · exact here
        · exact visitedHold other member
      · intro successor member
        apply passes visit successor here
        exact ⟨successors, before.transfer_decode known transferred, member⟩
  | reach before reached ih =>
      obtain ⟨visitedHold, queueHolds, pendingHolds⟩ := ih
      refine ⟨visitedHold, ?_, fun other member => pendingHolds other (.tail _ member)⟩
      intro visit member
      have admits := (before.reach_cases reached).2
      rcases admits.queue_eq before.coherent.filed with same | ⟨queued, refines, exact, same⟩
      · exact queueHolds visit (same ▸ member)
      · rw [before.coherent.config_eq] at exact
        rw [same, List.mem_append, List.mem_singleton] at member
        rcases member with member | rfl
        · exact queueHolds visit member
        · exact queues _ _ _ refines exact (pendingHolds _ (.head _))

namespace Admits

theorem covers_mono (admits : recovery.Admits successor next)
    (coherent : Coherent code config recovery) (covers : recovery.Covers pc stack) :
    next.Covers pc stack := by
  obtain ⟨site, known, covers⟩ := covers
  cases admits with
  | fresh unknown =>
      have different : successor.pc ≠ pc := by
        rintro rfl
        simp [unknown] at known
      exact ⟨site, by rw [sites_enqueue, if_neg different, known], covers⟩
  | absorbed => exact ⟨site, known, covers⟩
  | @grown old grown _ oldKnown _ grows =>
      by_cases here : successor.pc = pc
      · subst here
        obtain rfl : old = site := Option.some.inj (oldKnown.symm.trans known)
        exact ⟨grown, by rw [sites_enqueue, if_pos rfl],
          grows.covers_mono (coherent.filed _ _ known) covers⟩
      · exact ⟨site, by rw [sites_enqueue, if_neg here, known], covers⟩

theorem covers_successor (admits : recovery.Admits successor next)
    (coherent : Coherent code config recovery) (merges : config.revisit = .merge) :
    next.Covers successor.pc successor.stack := by
  cases admits with
  | fresh _ =>
      exact ⟨_, by rw [sites_enqueue, if_pos rfl],
        successor.stack, .inl List.mem_cons_self, .refl _⟩
  | absorbed known absorbs =>
      rw [coherent.config_eq] at absorbs
      exact ⟨_, known, absorbs.covers (coherent.filed _ _ known) merges⟩
  | grown known _ grows =>
      exact ⟨_, by rw [sites_enqueue, if_pos rfl],
        _, grows.keeps_queued, grows.refines (coherent.filed _ _ known)⟩

/-- What is remembered after a position was reached was remembered before, or has been
queued. -/
theorem keeps_or_queued (admits : recovery.Admits successor next) {site : Site}
    (known : next.sites[pc]? = some site) (keeps : site.Keeps stack) :
    (∃ old, recovery.sites[pc]? = some old ∧ old.Keeps stack) ∨
      ⟨pc, stack⟩ ∈ next.queue := by
  cases admits with
  | fresh _ =>
      rw [sites_enqueue] at known
      split at known
      · next here =>
          cases known
          rcases keeps with member | ⟨height, lookup⟩
          · rw [List.mem_singleton] at member
            right
            simp [enqueue, member, here]
          · simp at lookup
      · exact .inl ⟨site, known, keeps⟩
  | absorbed => exact .inl ⟨site, known, keeps⟩
  | @grown old _ _ oldKnown _ grows =>
      rw [sites_enqueue] at known
      split at known
      · next here =>
          cases known
          rcases grows.keeps_or_eq keeps with keeps | same
          · exact .inl ⟨old, here ▸ oldKnown, keeps⟩
          · right
            simp [enqueue, same, here]
      · exact .inl ⟨site, known, keeps⟩

theorem queue_subset (admits : recovery.Admits successor next) :
    recovery.queue ⊆ next.queue := by
  cases admits with
  | fresh _ => exact List.subset_append_left _ _
  | absorbed => exact List.Subset.refl _
  | grown _ _ _ => exact List.subset_append_left _ _

end Admits

namespace Stage

/-- What a recovery remembers it has visited or will visit. -/
theorem visited_of_keeps (stage : Stage code config visited pending recovery) {site : Site}
    (known : recovery.sites[pc]? = some site) (keeps : site.Keeps stack) :
    ⟨pc, stack⟩ ∈ visited ∨ ⟨pc, stack⟩ ∈ recovery.queue := by
  induction stage generalizing site with
  | start => simp [Recovery.start] at known
  | @take visited recovery visit rest old block successors _ queued oldKnown _ ih =>
      obtain ⟨before, beforeKnown, same⟩ := known_of_recorded oldKnown known
      rw [same] at keeps
      have before := ih beforeKnown keeps
      rw [queued, List.mem_cons] at before
      rcases before with member | same | member
      · exact .inl (.tail _ member)
      · exact .inl (same ▸ .head _)
      · exact .inr member
  | reach before reached ih =>
      have admits := (before.reach_cases reached).2
      rcases admits.keeps_or_queued known keeps with ⟨old, oldKnown, keeps⟩ | member
      · rcases ih oldKnown keeps with member | member
        · exact .inl member
        · exact .inr (admits.queue_subset member)
      · exact .inr member

theorem exists_keeps (stage : Stage code config visited pending recovery) {site : Site}
    (known : recovery.sites[pc]? = some site) : ∃ stack, site.Keeps stack := by
  induction stage generalizing site with
  | start => simp [Recovery.start] at known
  | take _ _ oldKnown _ ih =>
      obtain ⟨old, known, same⟩ := known_of_recorded oldKnown known
      obtain ⟨stack, keeps⟩ := ih known
      exact ⟨stack, same ▸ keeps⟩
  | reach before reached ih =>
      cases (before.reach_cases reached).2 with
      | fresh _ =>
          rw [sites_enqueue] at known
          split at known
          · cases known
            exact ⟨_, .inl List.mem_cons_self⟩
          · exact ih known
      | absorbed => exact ih known
      | grown _ _ grows =>
          rw [sites_enqueue] at known
          split at known
          · cases known
            exact ⟨_, grows.keeps_queued⟩
          · exact ih known

theorem known_of_visited (stage : Stage code config visited pending recovery)
    {visit : Visit} (member : visit ∈ visited) :
    ∃ site, recovery.sites[visit.pc]? = some site := by
  induction stage with
  | start => simp at member
  | @take _ recovery first _ _ block _ _ _ known _ ih =>
      have before : ∃ site, recovery.sites[visit.pc]? = some site := by
        rcases List.mem_cons.mp member with rfl | member
        · exact ⟨_, known⟩
        · exact ih member
      obtain ⟨site, siteKnown⟩ := before
      obtain ⟨new, newKnown, _⟩ := recorded_of_known known block siteKnown
      exact ⟨new, newKnown⟩
  | reach before reached ih =>
      obtain ⟨site, known⟩ := ih member
      obtain ⟨site, known, _⟩ := (before.reach_cases reached).2.known_mono known
      exact ⟨site, known⟩

theorem transfers (stage : Stage code config visited pending recovery) {visit : Visit}
    (member : visit ∈ visited) :
    ∃ successors, ((Block.decode code visit.pc).transfer visit.stack).2 = .ok successors := by
  induction stage with
  | start => simp at member
  | @take _ _ _ _ _ _ successors before _ known transferred ih =>
      rcases List.mem_cons.mp member with rfl | member
      · exact ⟨successors, before.transfer_decode known transferred⟩
      · exact ih member
  | reach _ _ ih => exact ih member

/-- Where a visit sent control is pending, or a jump may arrive there and it was reached. -/
theorem sent_reached (stage : Stage code config visited pending recovery) {visit : Visit}
    (member : visit ∈ visited) (sends : Sends code visit successor) :
    successor ∈ pending ∨
      (Lands code successor ∧ ∃ site, recovery.sites[successor.pc]? = some site) := by
  induction stage with
  | start => simp at member
  | @take _ _ _ _ _ block successors before _ known transferred ih =>
      rcases List.mem_cons.mp member with rfl | member
      · exact .inl (sends.mem (before.transfer_decode known transferred))
      · rcases ih member with absurd | ⟨lands, site, siteKnown⟩
        · simp at absurd
        · obtain ⟨new, newKnown, _⟩ := recorded_of_known known block siteKnown
          exact .inr ⟨lands, new, newKnown⟩
  | reach before reached ih =>
      obtain ⟨lands, admits⟩ := before.reach_cases reached
      rcases ih member with isPending | ⟨lands, site, known⟩
      · rcases List.mem_cons.mp isPending with rfl | isPending
        · exact .inr ⟨lands, admits.known_successor⟩
        · exact .inl isPending
      · obtain ⟨site, known, _⟩ := admits.known_mono known
        exact .inr ⟨lands, site, known⟩

/-- Where a visit sent control is pending or covered, if the recovery merges. -/
theorem sent_covered (stage : Stage code config visited pending recovery)
    (merges : config.revisit = .merge) {visit : Visit} (member : visit ∈ visited)
    (sends : Sends code visit successor) :
    successor ∈ pending ∨ recovery.Covers successor.pc successor.stack := by
  induction stage with
  | start => simp at member
  | @take _ _ _ _ _ block successors before _ known transferred ih =>
      rcases List.mem_cons.mp member with rfl | member
      · exact .inl (sends.mem (before.transfer_decode known transferred))
      · rcases ih member with absurd | covers
        · simp at absurd
        · exact .inr (covers.recorded known block)
  | reach before reached ih =>
      have admits := (before.reach_cases reached).2
      rcases ih member with isPending | covers
      · rcases List.mem_cons.mp isPending with rfl | isPending
        · exact .inr (admits.covers_successor before.coherent merges)
        · exact .inl isPending
      · exact .inr (admits.covers_mono before.coherent covers)

theorem entry_covered (stage : Stage code config visited pending recovery)
    (merges : config.revisit = .merge) :
    ⟨0, [], false⟩ ∈ pending ∨ recovery.Covers 0 [] := by
  induction stage with
  | start => exact .inl (.head _)
  | @take _ _ _ _ _ block _ _ _ known _ ih =>
      rcases ih with absurd | covers
      · simp at absurd
      · exact .inr (covers.recorded known block)
  | reach before reached ih =>
      have admits := (before.reach_cases reached).2
      rcases ih with isPending | covers
      · rcases List.mem_cons.mp isPending with rfl | isPending
        · exact .inr (admits.covers_successor before.coherent merges)
        · exact .inl isPending
      · exact .inr (admits.covers_mono before.coherent covers)

/-- The destinations recorded on a block are those that its visits jumped to. -/
theorem mem_destinations_iff (stage : Stage code config visited pending recovery)
    {site : Site} (known : recovery.sites[pc]? = some site) {target : UInt64} :
    target ∈ site.block.final.destinations ↔
      ∃ visit ∈ visited, visit.pc = pc ∧ ∃ successor, Sends code visit successor ∧
        successor.jumped = true ∧ successor.pc = target := by
  induction stage generalizing site with
  | start => simp [Recovery.start] at known
  | @take visited _ visit _ old _ successors before _ oldKnown transferred ih =>
      have outcome := before.transfer_decode oldKnown transferred
      obtain ⟨rfl, _, _, leaves⟩ := Block.transfer_eq_ok_iff.mp transferred
      rw [sites_insert] at known
      simp only [List.exists_mem_cons_iff]
      split at known
      · next here =>
          cases known
          rw [Block.mem_destinations_record leaves, ih (here ▸ oldKnown), or_comm]
          apply or_congr_left
          constructor
          · rintro ⟨successor, member, jumped⟩
            exact ⟨here, successor, ⟨successors, outcome, member⟩, jumped⟩
          · rintro ⟨_, successor, sends, jumped⟩
            exact ⟨successor, sends.mem outcome, jumped⟩
      · next elsewhere =>
          rw [ih known]
          simp [elsewhere]
  | reach before reached ih =>
      rcases (before.reach_cases reached).2.known_or_new known with
        ⟨old, oldKnown, same⟩ | ⟨rfl, unknown, same⟩
      · rw [same, ih oldKnown]
      · rw [same, ← Block.bare_decode]
        constructor
        · intro member
          simp [Block.bare] at member
        · rintro ⟨visit, member, here, _⟩
          obtain ⟨site, siteKnown⟩ := before.known_of_visited member
          simp [here, unknown] at siteKnown

theorem ascending (stage : Stage code config visited pending recovery) {site : Site}
    (known : recovery.sites[pc]? = some site) :
    site.block.final.destinations.Pairwise (· < ·) := by
  induction stage generalizing site with
  | start => simp [Recovery.start] at known
  | take _ _ oldKnown transferred ih =>
      obtain ⟨rfl, _⟩ := Block.transfer_eq_ok_iff.mp transferred
      rw [sites_insert] at known
      split at known
      · next here =>
          cases known
          exact Block.pairwise_record _ (ih (here ▸ oldKnown))
      · exact ih known
  | reach before reached ih =>
      rcases (before.reach_cases reached).2.known_or_new known with
        ⟨old, oldKnown, same⟩ | ⟨_, _, same⟩
      · rw [same]
        exact ih oldKnown
      · rw [same, ← Block.bare_decode]
        simp [Block.bare]

/-- Blocks are only begun at leaders, and so are those that are pending without a jump. -/
theorem leads (small : code.size < 2 ^ 63)
    (stage : Stage code config visited pending recovery) :
    (∀ pc site, recovery.sites[pc]? = some site → Block.Leads code pc) ∧
      ∀ successor ∈ pending, successor.jumped = false → Block.Leads code successor.pc := by
  induction stage with
  | start =>
      refine ⟨?_, ?_⟩
      · intro pc site known
        simp [Recovery.start] at known
      · intro successor member _
        rw [List.mem_singleton] at member
        rw [member]
        exact .entry code
  | take before _ known transferred ih =>
      refine ⟨?_, ?_⟩
      · intro pc found recorded
        obtain ⟨old, oldKnown, _⟩ := known_of_recorded known recorded
        exact ih.1 pc old oldKnown
      · intro successor member straight
        have outcome := before.transfer_decode known transferred
        obtain ⟨_, _, leaves⟩ := Block.transfer_outcome_eq_ok_iff.mp outcome
        exact (ih.1 _ _ known).of_next? small (leaves.next?_of_not_jumped member straight)
  | @reach _ successor _ _ _ before reached ih =>
      obtain ⟨lands, admits⟩ := before.reach_cases reached
      refine ⟨?_, fun other member => ih.2 other (.tail _ member)⟩
      intro pc site known
      rcases admits.known_or_new known with ⟨old, oldKnown, _⟩ | ⟨rfl, _, _⟩
      · exact ih.1 pc old oldKnown
      · cases jumped : successor.jumped with
        | false => exact ih.2 successor (.head _) jumped
        | true =>
            obtain ⟨isCode, isDestination⟩ := lands jumped
            exact .of_destination isCode (Block.isJumpDestination_decode_iff.mp isDestination)

end Stage

/-! ## The finished recovery -/

/-- The visits of a finished recovery that merged, seen from its program. -/
structure Closed (code : Code) (visited : List Visit) (program : Program) : Prop where
  /-- The entry was visited. -/
  entry : ∃ visit ∈ visited, visit.pc = 0 ∧ SymStack.Refines [] visit.stack
  /-- The blocks are those of the code, at the positions that were visited. -/
  decoded : ∀ pc block, program.block? pc = some block → block.bare = Block.decode code pc
  visited_iff : ∀ pc, (∃ block, program.block? pc = some block) ↔
    ∃ visit ∈ visited, visit.pc = pc
  /-- Every visit could be made. -/
  transfers : ∀ visit ∈ visited, ∃ successors,
    ((Block.decode code visit.pc).transfer visit.stack).2 = .ok successors
  /-- Where a visit sent control, a jump may arrive, and a stack was visited that covers
  what arrives. -/
  sent : ∀ visit ∈ visited, ∀ successor, Sends code visit successor →
    Lands code successor ∧
      ∃ next ∈ visited, next.pc = successor.pc ∧ successor.stack.Refines next.stack
  /-- The edges are the ways that visits sent control. -/
  edges : ∀ pc target, target ∈ program.successors pc ↔
    ∃ visit ∈ visited, visit.pc = pc ∧
      ∃ successor, Sends code visit successor ∧ successor.pc = target
  /-- The destinations on a block are those that visits jumped to, ascending. -/
  destinations : ∀ pc block, program.block? pc = some block → ∀ target,
    target ∈ block.final.destinations ↔
      ∃ visit ∈ visited, visit.pc = pc ∧ ∃ successor, Sends code visit successor ∧
        successor.jumped = true ∧ successor.pc = target
  ascending : ∀ pc block, program.block? pc = some block →
    block.final.destinations.Pairwise (· < ·)
  leads : code.size < 2 ^ 63 → ∀ pc block, program.block? pc = some block →
    Block.Leads code pc

theorem block?_program (recovery : Recovery) (pc : UInt64) :
    recovery.program.block? pc = (recovery.sites[pc]?).map Site.block := by
  simp [program, Program.block?]

theorem block?_of_known {site : Site} (known : recovery.sites[pc]? = some site) :
    recovery.program.block? pc = some site.block := by
  rw [block?_program, known, Option.map_some]

theorem known_of_block? {block : Block} (found : recovery.program.block? pc = some block) :
    ∃ site, recovery.sites[pc]? = some site ∧ site.block = block := by
  rw [block?_program, Option.map_eq_some_iff] at found
  exact found

namespace Stage

variable {finished : Recovery}

theorem visited_of_covers (stage : Stage code config visited pending finished)
    (empty : finished.queue = []) (covers : finished.Covers pc stack) :
    ∃ visit ∈ visited, visit.pc = pc ∧ stack.Refines visit.stack := by
  obtain ⟨site, known, kept, keeps, refines⟩ := covers
  rcases stage.visited_of_keeps known keeps with member | member
  · exact ⟨_, member, rfl, refines⟩
  · simp [empty] at member

theorem visited_of_known (stage : Stage code config visited pending finished)
    (empty : finished.queue = []) {site : Site} (known : finished.sites[pc]? = some site) :
    ∃ visit ∈ visited, visit.pc = pc := by
  obtain ⟨stack, keeps⟩ := stage.exists_keeps known
  rcases stage.visited_of_keeps known keeps with member | member
  · exact ⟨_, member, rfl⟩
  · simp [empty] at member

/-- The edges of the program are the ways that visits sent control. -/
theorem mem_successors_iff (stage : Stage code config visited pending finished)
    (empty : finished.queue = []) {target : UInt64} :
    target ∈ finished.program.successors pc ↔
      ∃ visit ∈ visited, visit.pc = pc ∧
        ∃ successor, Sends code visit successor ∧ successor.pc = target := by
  unfold Program.successors
  rw [block?_program]
  cases known : finished.sites[pc]? with
  | none =>
      simp only [Option.map_none, List.not_mem_nil, false_iff]
      rintro ⟨visit, member, rfl, _⟩
      obtain ⟨site, siteKnown⟩ := stage.known_of_visited member
      simp [known] at siteKnown
  | some site =>
      have decoded := stage.coherent.decoded _ _ known
      have next : site.block.final.next? = (Block.decode code pc).final.next? := by
        rw [← decoded]
        exact (Instruction.next?_bare _).symm
      simp only [Option.map_some, Block.mem_successors, stage.mem_destinations_iff known, next]
      constructor
      · rintro (goesOn | ⟨visit, member, here, successor, sends, _, same⟩)
        · -- Any visit to the block goes on there, and there is one.
          obtain ⟨visit, member, rfl⟩ := stage.visited_of_known empty known
          obtain ⟨successors, outcome⟩ := stage.transfers member
          obtain ⟨_, _, leaves⟩ := Block.transfer_outcome_eq_ok_iff.mp outcome
          obtain ⟨successor, sent, same⟩ := leaves.exists_of_next? goesOn
          exact ⟨visit, member, rfl, successor, ⟨successors, outcome, sent⟩, same⟩
        · exact ⟨visit, member, here, successor, sends, same⟩
      · rintro ⟨visit, member, rfl, successor, sends, rfl⟩
        cases jumped : successor.jumped with
        | true => exact .inr ⟨visit, member, rfl, successor, sends, jumped, rfl⟩
        | false =>
            obtain ⟨successors, outcome, sent⟩ := sends
            obtain ⟨_, _, leaves⟩ := Block.transfer_outcome_eq_ok_iff.mp outcome
            exact .inl (leaves.next?_of_not_jumped sent jumped)

theorem closed (stage : Stage code config visited [] finished)
    (empty : finished.queue = []) (merges : config.revisit = .merge) :
    Closed code visited finished.program where
  entry := by
    rcases stage.entry_covered merges with absurd | covers
    · simp at absurd
    · exact stage.visited_of_covers empty covers
  decoded := by
    intro pc block found
    obtain ⟨site, known, rfl⟩ := known_of_block? found
    exact stage.coherent.decoded _ _ known
  visited_iff := by
    intro pc
    constructor
    · rintro ⟨block, found⟩
      obtain ⟨site, known, _⟩ := known_of_block? found
      exact stage.visited_of_known empty known
    · rintro ⟨visit, member, rfl⟩
      obtain ⟨site, known⟩ := stage.known_of_visited member
      exact ⟨site.block, block?_of_known known⟩
  transfers := fun visit member => stage.transfers member
  sent := by
    intro visit member successor sends
    refine ⟨?_, ?_⟩
    · rcases stage.sent_reached member sends with absurd | ⟨lands, _⟩
      · simp at absurd
      · exact lands
    · rcases stage.sent_covered merges member sends with absurd | covers
      · simp at absurd
      · exact stage.visited_of_covers empty covers
  edges := fun pc target => stage.mem_successors_iff empty
  destinations := by
    intro pc block found target
    obtain ⟨site, known, rfl⟩ := known_of_block? found
    exact stage.mem_destinations_iff known
  ascending := by
    intro pc block found
    obtain ⟨site, known, rfl⟩ := known_of_block? found
    exact stage.ascending known
  leads := by
    intro small pc block found
    obtain ⟨site, known, _⟩ := known_of_block? found
    exact (stage.leads small).1 _ _ known

end Stage

end Recovery

theorem exists_ok {α : Type} {outcome : Except Fault α} {look : α → Bool}
    (looked : outcome.toOption.any look = true) :
    ∃ answer, outcome = .ok answer ∧ look answer = true := by
  cases outcome with
  | ok answer => exact ⟨answer, rfl, looked⟩
  | error fault => cases looked

/-- A program that was recovered by merging is closed under the visits that were made. -/
theorem closed_of_recover {bytes : Bytes} {config : RecoveryConfig} {program : Program}
    (recovered : recover bytes config = .ok program) (merges : config.revisit = .merge) :
    ∃ visited, Recovery.Closed (Code.ofBytes bytes) visited program := by
  obtain ⟨visited, finished, stage, empty, rfl⟩ := stage_of_recover recovered
  exact ⟨visited, stage.closed empty merges⟩

end EvmAtlas
