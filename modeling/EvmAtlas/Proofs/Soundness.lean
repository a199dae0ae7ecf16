import EvmAtlas.Chain.StateSet
import EvmAtlas.Proofs.Coverage
import EvmAtlas.Proofs.Frames

/-!
# Recovered programs describe runs

A finished recovery that merged has visited, for every stack a frame can arrive with at a
block, some stack that describes it. `Tracks` follows a frame through a visited block, and
`Tracked` says that every place a frame comes to is followed in this way. Hence a frame
never leaves the recovered program, and never meets a fault that the recovery would have
met before it.
-/

namespace EvmAtlas

theorem Opcode.isBlockFinal_of_isStraight (opcode : Opcode)
    (straight : opcode.isStraight = true) :
    opcode.isBlockFinal = false ∧ opcode ≠ .jumpi ∧ ∀ index, opcode ≠ .push index := by
  cases opcode <;> simp_all [isStraight, isBlockFinal]

namespace Recovery

variable {code : Code} {visited : List Visit} {program : Program} {visit : Visit}
variable {pc pc' : UInt64} {stack stack' : List Word} {opcode : Opcode}

/-- A frame in the middle of a visited block. What remains of the block can be applied to a
stack that describes the frame's, and leaves as the whole block did. -/
inductive Tracks (code : Code) (visit : Visit) (pc : UInt64) (stack : List Word) : Prop where
  | intro {body : List Instruction} {known reached : SymStack} {successors : List Successor}
      (straight : Block.Straight code visit.pc pc body (Block.decode code visit.pc).final)
      (suffix : body <:+ (Block.decode code visit.pc).body)
      (described : known.Describes stack) (applied : applyAll body known = .ok reached)
      (leaves : (Block.decode code visit.pc).final.Leaves reached successors)
      (transferred :
        ((Block.decode code visit.pc).transfer visit.stack).2 = .ok successors) :
      Tracks code visit pc stack

namespace Tracks

/-- A frame that begins a block with a stack that was visited. -/
theorem enter (small : code.size < 2 ^ 63) {successors : List Successor}
    (transferred : ((Block.decode code visit.pc).transfer visit.stack).2 = .ok successors)
    (described : visit.stack.Describes stack) : Tracks code visit visit.pc stack := by
  obtain ⟨reached, applied, leaves⟩ := Block.transfer_outcome_eq_ok_iff.mp transferred
  exact .intro (Block.straight_decode code small visit.pc) List.suffix_rfl described applied
    leaves transferred

/-- The instruction under the frame belongs to the block. -/
theorem mem_instructions (tracks : Tracks code visit pc stack) :
    (Block.decodeInstruction code visit.pc pc).1 ∈
      (Block.decode code visit.pc).instructions := by
  obtain @⟨body, _, _, _, straight, suffix, _, _, _, _⟩ := tracks
  obtain ⟨rest, head⟩ := straight.exists_head
  have member : (Block.decodeInstruction code visit.pc pc).1 ∈
      body ++ [(Block.decode code visit.pc).final] := by
    rw [head]
    exact List.mem_cons_self
  rcases List.mem_append.mp member with inBody | isFinal
  · exact List.mem_append_left _ (suffix.mem inBody)
  · exact List.mem_append_right _ isFinal

/-- Inside a block the instruction can be applied to what is known of the stack, and the
frame is followed behind it. -/
theorem of_inner (tracks : Tracks code visit pc stack)
    (inner : (Block.decodeInstruction code visit.pc pc).1.isFinal = false) :
    ∃ known next, known.Describes stack ∧
      (Block.decodeInstruction code visit.pc pc).1.apply known = (next, .ok ()) ∧
      ∀ after, next.Describes after →
        Tracks code visit (Block.decodeInstruction code visit.pc pc).2 after := by
  obtain @⟨body, known, reached, _, straight, suffix, described, applied, leaves,
    transferred⟩ := tracks
  generalize final_eq : (Block.decode code visit.pc).final = final at straight
  cases straight with
  | last isFinal => simp [inner] at isFinal
  | step _ rest =>
      obtain ⟨next, first, others⟩ := applyAll_cons_eq_ok_iff.mp applied
      refine ⟨known, next, described, first, fun after describedAfter => ?_⟩
      rw [← final_eq] at rest
      exact .intro rest ((List.suffix_cons _ _).trans suffix) describedAfter others leaves
        transferred

/-- At the end of a block the frame leaves as the block did. -/
theorem of_final (tracks : Tracks code visit pc stack)
    (isFinal : (Block.decodeInstruction code visit.pc pc).1.isFinal = true) :
    (Block.decode code visit.pc).final = (Block.decodeInstruction code visit.pc pc).1 ∧
      ∃ known successors, known.Describes stack ∧
        (Block.decode code visit.pc).final.Leaves known successors ∧
        ∀ successor ∈ successors, Sends code visit successor := by
  obtain @⟨body, known, reached, successors, straight, suffix, described, applied,
    leaves, transferred⟩ := tracks
  generalize final_eq : (Block.decode code visit.pc).final = final at straight leaves ⊢
  cases straight with
  | step inner _ => simp [inner] at isFinal
  | last _ =>
      cases applied
      exact ⟨rfl, known, successors, described, leaves,
        fun successor member => ⟨successors, transferred, member⟩⟩

/-- A frame at a jump has a destination on its stack that the visit found. -/
theorem of_jump (tracks : Tracks code visit pc stack)
    (fetched : Opcode.ofByte? (code.byteAt pc) = some .jump) :
    (Block.decode code visit.pc).final = ⟨pc, .jump []⟩ ∧
      ∃ word tail rest, stack = word :: tail ∧ rest.Describes tail ∧
        word.toNat < Block.destinationBound ∧
        Sends code visit ⟨word.low64, rest, true⟩ := by
  have decoded : Block.decodeInstruction code visit.pc pc = (⟨pc, .jump []⟩, pc + 1) :=
    Block.decodeInstruction_jump fetched
  obtain ⟨final_eq, known, successors, described, leaves, sends⟩ :=
    tracks.of_final (by rw [decoded]; rfl)
  rw [decoded] at final_eq
  refine ⟨final_eq, ?_⟩
  cases leaves with
  | @jump _ word rest _ near _ =>
      obtain ⟨top, tail, topRefines, restRefines, shape⟩ :=
        List.forall₂_cons_right_iff.mp described
      obtain rfl := topRefines.eq_some
      obtain ⟨first, words, rfl, first_eq, rfl⟩ := List.map_eq_cons_iff.mp shape
      cases first_eq
      exact ⟨word, words, rest, rfl, restRefines, near, sends _ (by simp)⟩
  | branch action => simp [final_eq] at action
  | fall action => simp [final_eq] at action
  | halt halts => simp [final_eq, Instruction.kind] at halts

/-- A frame at a conditional jump likewise, whichever way it goes. -/
theorem of_branch (tracks : Tracks code visit pc stack)
    (fetched : Opcode.ofByte? (code.byteAt pc) = some .jumpi) :
    (Block.decode code visit.pc).final = ⟨pc, .branch [] (pc + 1)⟩ ∧
      ∃ word condition tail rest, stack = word :: condition :: tail ∧ rest.Describes tail ∧
        word.toNat < Block.destinationBound ∧ Sends code visit ⟨pc + 1, rest, false⟩ ∧
        Sends code visit ⟨word.low64, rest, true⟩ := by
  have decoded :
      Block.decodeInstruction code visit.pc pc = (⟨pc, .branch [] (pc + 1)⟩, pc + 1) :=
    Block.decodeInstruction_jumpi fetched
  obtain ⟨final_eq, known, successors, described, leaves, sends⟩ :=
    tracks.of_final (by rw [decoded]; rfl)
  rw [decoded] at final_eq
  refine ⟨final_eq, ?_⟩
  cases leaves with
  | jump action => simp [final_eq] at action
  | @branch _ next word _ rest action near _ =>
      obtain ⟨top, _, topRefines, tailRefines, shape⟩ :=
        List.forall₂_cons_right_iff.mp described
      obtain ⟨_, tail, _, restRefines, rfl⟩ := List.forall₂_cons_right_iff.mp tailRefines
      obtain rfl := topRefines.eq_some
      obtain ⟨first, words, rfl, first_eq, shape⟩ := List.map_eq_cons_iff.mp shape
      obtain ⟨condition, words, rfl, _, rfl⟩ := List.map_eq_cons_iff.mp shape
      cases first_eq
      obtain rfl : next = pc + 1 := by
        rw [final_eq] at action
        cases action
        rfl
      exact ⟨word, condition, words, rest, rfl, restRefines, near, sends _ (by simp),
        sends _ (by simp)⟩
  | fall action => simp [final_eq] at action
  | halt halts => simp [final_eq, Instruction.kind] at halts

end Tracks

/-- A frame that is followed through a visited block, which begins at the frame's position
when a jump destination stands there. -/
def Tracked (code : Code) (visited : List Visit) (pc : UInt64) (stack : List Word) : Prop :=
  ∃ visit ∈ visited, Tracks code visit pc stack ∧
    (Opcode.ofByte? (code.byteAt pc) = some .jumpdest → visit.pc = pc)

namespace Closed

/-- Wherever a visit sends control, a frame can be followed. -/
theorem arrive (closed : Closed code visited program) (small : code.size < 2 ^ 63)
    (member : visit ∈ visited) {successor : Successor} (sends : Sends code visit successor)
    (described : successor.stack.Describes stack) :
    Tracked code visited successor.pc stack := by
  obtain ⟨_, next, nextMember, here, refines⟩ := closed.sent visit member successor sends
  obtain ⟨successors, transferred⟩ := closed.transfers next nextMember
  rw [← here]
  exact ⟨next, nextMember, .enter small transferred (described.trans refines), fun _ => rfl⟩

theorem entry_tracked (closed : Closed code visited program) (small : code.size < 2 ^ 63) :
    Tracked code visited 0 [] := by
  obtain ⟨visit, member, here, refines⟩ := closed.entry
  obtain ⟨successors, transferred⟩ := closed.transfers visit member
  rw [← here]
  exact ⟨visit, member, .enter small transferred refines, fun _ => rfl⟩

/-- A frame that runs into a jump destination is followed through the block there. -/
theorem settle (closed : Closed code visited program) (small : code.size < 2 ^ 63)
    (member : visit ∈ visited) (tracks : Tracks code visit pc stack) :
    Tracked code visited pc stack := by
  by_cases fetched : Opcode.ofByte? (code.byteAt pc) = some .jumpdest
  · by_cases first : pc = visit.pc
    · exact ⟨visit, member, tracks, fun _ => first.symm⟩
    · have decoded : Block.decodeInstruction code visit.pc pc = (⟨pc, .fall pc⟩, pc) :=
        Block.decodeInstruction_fall fetched first
      obtain ⟨final_eq, known, successors, described, leaves, sends⟩ :=
        tracks.of_final (by rw [decoded]; rfl)
      rw [final_eq, decoded] at leaves
      cases leaves with
      | jump action => simp at action
      | branch action => simp at action
      | fall action =>
          cases action
          have sent := sends _ List.mem_cons_self
          exact closed.arrive small member sent described
      | halt halts => simp [Instruction.kind] at halts
  · exact ⟨visit, member, tracks, fun absurd => (fetched absurd).elim⟩

end Closed

/-- At a jump, wherever the frame goes the visit has sent control. -/
theorem Tracks.sends_of_moves (tracks : Tracks code visit pc stack)
    (fetched : Opcode.ofByte? (code.byteAt pc) = some opcode)
    (jumps : opcode = .jump ∨ opcode = .jumpi) (moves : code.Moves pc stack pc' stack') :
    ∃ successor, Sends code visit successor ∧ successor.pc = pc' ∧
      successor.stack.Describes stack' := by
  cases moves with
  | straight other straight _ _ =>
      rw [fetched] at other
      cases other
      rcases jumps with rfl | rfl <;> cases straight
  | push other _ =>
      rw [fetched] at other
      cases other
      rcases jumps with absurd | absurd <;> cases absurd
  | jump other operands lands =>
      obtain ⟨_, word, tail, rest, shape, described, _, sends⟩ := tracks.of_jump other
      rw [shape] at operands
      cases operands
      exact ⟨_, sends, rfl, described⟩
  | branch other operands _ lands =>
      obtain ⟨_, word, condition, tail, rest, shape, described, _, _, sends⟩ :=
        tracks.of_branch other
      rw [shape] at operands
      cases operands
      exact ⟨_, sends, rfl, described⟩
  | next other operands =>
      obtain ⟨_, word, condition, tail, rest, shape, described, _, sends, _⟩ :=
        tracks.of_branch other
      rw [shape] at operands
      cases operands
      exact ⟨_, sends, rfl, described⟩

/-- Inside a block, an instruction without a payload keeps the frame in the block. -/
theorem Tracks.of_plain (tracks : Tracks code visit pc stack)
    (fetched : Opcode.ofByte? (code.byteAt pc) = some opcode)
    (inner : opcode.isBlockFinal = false)
    (plain : opcode ≠ .jumpi ∧ ∀ index, opcode ≠ .push index)
    (first : opcode = .jumpdest → pc = visit.pc) :
    ∃ known, known.Describes stack ∧ opcode.arity.pops ≤ stack.length ∧
      stack.length + opcode.arity.pushes ≤ stackLimit + opcode.arity.pops ∧
      ∀ after, (opcode.applySym known).Describes after → Tracks code visit (pc + 1) after := by
  have decoded : Block.decodeInstruction code visit.pc pc = (⟨pc, .plain opcode⟩, pc + 1) := by
    refine Block.decodeInstruction_plain fetched ⟨?_, plain⟩ first
    rintro rfl
    cases inner
  obtain ⟨known, next, described, applied, follows⟩ :=
    tracks.of_inner (by rw [decoded]; exact inner)
  rw [decoded] at applied follows
  obtain ⟨enough, _, fits, rfl⟩ := Instruction.apply_eq_ok_iff.mp applied
  change opcode.arity.pops ≤ known.length at enough
  change (opcode.applySym known).length ≤ stackLimit at fits
  rw [opcode.length_applySym enough] at fits
  have heights := SymStack.Refines.length_eq described
  rw [List.length_map] at heights
  exact ⟨known, described, by omega, by omega, follows⟩

theorem Tracks.of_push (tracks : Tracks code visit pc stack) {index : Fin 32}
    (fetched : Opcode.ofByte? (code.byteAt pc) = some (.push index)) :
    stack.length < stackLimit ∧ Tracks code visit (pc + UInt64.ofNat (index.val + 2))
      (code.immediate (pc + 1) (index.val + 1) :: stack) := by
  have decoded : Block.decodeInstruction code visit.pc pc =
      (⟨pc, .push index (code.immediate (pc + 1) (index.val + 1))⟩,
        pc + 1 + UInt64.ofNat (index.val + 1)) := Block.decodeInstruction_push fetched
  obtain ⟨known, next, described, applied, follows⟩ := tracks.of_inner (by rw [decoded]; rfl)
  rw [decoded] at applied follows
  obtain ⟨_, _, fits, rfl⟩ := Instruction.apply_eq_ok_iff.mp applied
  have heights := SymStack.Refines.length_eq described
  rw [List.length_map] at heights
  rw [← Block.add_immediate_eq]
  refine ⟨?_, follows _ (.cons (.refl _) described)⟩
  rw [heights]
  exact fits

namespace Closed

theorem tracked_of_moves (closed : Closed code visited program) (small : code.size < 2 ^ 63)
    (tracked : Tracked code visited pc stack) (moves : code.Moves pc stack pc' stack') :
    Tracked code visited pc' stack' := by
  obtain ⟨visit, member, tracks, first⟩ := tracked
  have diverts (opcode : Opcode) (fetched : Opcode.ofByte? (code.byteAt pc) = some opcode)
      (jumps : opcode = .jump ∨ opcode = .jumpi) : Tracked code visited pc' stack' := by
    obtain ⟨successor, sends, rfl, described⟩ := tracks.sends_of_moves fetched jumps moves
    exact closed.arrive small member sends described
  cases moves with
  | @straight opcode _ fetched straight _ described =>
      obtain ⟨inner, plain⟩ := opcode.isBlockFinal_of_isStraight straight
      obtain ⟨known, knownDescribes, _, _, follows⟩ := tracks.of_plain fetched inner plain
        fun same => (first (same ▸ fetched)).symm
      have after := opcode.applySym_refines knownDescribes
      exact closed.settle small member (follows _ (described.trans after))
  | push fetched _ => exact closed.settle small member (tracks.of_push fetched).2
  | jump fetched => exact diverts _ fetched (.inl rfl)
  | branch fetched => exact diverts _ fetched (.inr rfl)
  | next fetched => exact diverts _ fetched (.inr rfl)

theorem tracked_of_visits (closed : Closed code visited program) (small : code.size < 2 ^ 63)
    (visits : code.Visits pc stack) : Tracked code visited pc stack := by
  induction visits with
  | entry => exact closed.entry_tracked small
  | move _ moves ih => exact closed.tracked_of_moves small ih moves

end Closed

/-- A frame that is followed has the operands of its instruction and room for the results,
except that a frame about to return or revert may lack operands. -/
theorem Tracked.room (tracked : Tracked code visited pc stack)
    (low : stack.length ≤ stackLimit)
    (fetched : Opcode.ofByte? (code.byteAt pc) = some opcode) :
    (opcode = .return ∨ opcode = .revert ∨ opcode.arity.pops ≤ stack.length) ∧
      stack.length + opcode.arity.pushes ≤ stackLimit + opcode.arity.pops := by
  obtain ⟨visit, member, tracks, first⟩ := tracked
  cases opcode with
  | «return» => exact ⟨.inl rfl, by simp only [Opcode.arity]; omega⟩
  | revert => exact ⟨.inr (.inl rfl), by simp only [Opcode.arity]; omega⟩
  | stop => exact ⟨.inr (.inr (Nat.zero_le _)), low⟩
  | jump =>
      obtain ⟨_, word, tail, rest, rfl, _⟩ := tracks.of_jump fetched
      simp only [Opcode.arity, List.length_cons] at low ⊢
      omega
  | jumpi =>
      obtain ⟨_, word, condition, tail, rest, rfl, _⟩ := tracks.of_branch fetched
      simp only [Opcode.arity, List.length_cons] at low ⊢
      omega
  | push index =>
      have fits := (tracks.of_push fetched).1
      exact ⟨.inr (.inr (Nat.zero_le _)), fits⟩
  | _ =>
      obtain ⟨_, _, enough, fits, _⟩ := tracks.of_plain fetched rfl (by simp)
        fun same => (first (same ▸ fetched)).symm
      exact ⟨.inr (.inr enough), fits⟩

theorem isJumpDestination_of_lands {word : Word} {rest : SymStack}
    (near : word.toNat < Block.destinationBound)
    (lands : Lands code ⟨word.low64, rest, true⟩) : code.isJumpDestination word = true := by
  obtain ⟨isCode, begins⟩ := lands rfl
  have fetched := Block.isJumpDestination_decode_iff.mp begins
  have narrow : word.toUInt64? = some word.low64 := by
    unfold Word.toUInt64?
    rw [if_pos]
    simp only [Block.destinationBound, UInt64.size] at near ⊢
    omega
  exact (Code.isJumpDestination_iff narrow).mpr ⟨isCode, fetched⟩

/-- A frame that is followed jumps only where it may. -/
theorem Closed.isJumpDestination_of_tracked (closed : Closed code visited program)
    (tracked : Tracked code visited pc stack)
    (fetched : Opcode.ofByte? (code.byteAt pc) = some opcode)
    (jumps : opcode = .jump ∨ opcode = .jumpi) {destination : Word} {others : List Word}
    (operands : stack = destination :: others) :
    code.isJumpDestination destination = true := by
  obtain ⟨visit, member, tracks, _⟩ := tracked
  have lands {rest : SymStack} (sends : Sends code visit ⟨destination.low64, rest, true⟩) :=
    (closed.sent visit member _ sends).1
  rcases jumps with rfl | rfl
  · obtain ⟨_, word, tail, rest, rfl, _, near, sends⟩ := tracks.of_jump fetched
    cases operands
    exact isJumpDestination_of_lands near (lands sends)
  · obtain ⟨_, word, condition, tail, rest, rfl, _, near, _, sends⟩ :=
      tracks.of_branch fetched
    cases operands
    exact isJumpDestination_of_lands near (lands sends)

/-- The faults of its own that a frame which is followed can stop with. -/
theorem Closed.cause_of_tracked (closed : Closed code visited program)
    (tracked : Tracked code visited pc stack)
    (low : stack.length ≤ stackLimit) {fault : Fault} (raises : code.Raises pc stack fault)
    (own : fault.isAnswer = false) :
    fault.cause ≠ .invalidJump ∧ fault.cause ≠ .stackOverflow ∧
      (fault.cause = .stackUnderflow →
        Opcode.ofByte? (code.byteAt pc) = some .return ∨
          Opcode.ofByte? (code.byteAt pc) = some .revert) := by
  cases raises with
  | unassigned absent => simp [Fault.met]
  | @arity opcode inner fetched check =>
      obtain ⟨enough, room⟩ := tracked.room low fetched
      rcases Arity.cause_of_check check with ⟨cause_eq, short⟩ | ⟨cause_eq, high⟩
      · refine ⟨by simp [cause_eq], by simp [cause_eq], fun _ => ?_⟩
        rcases enough with rfl | rfl | enough
        · exact .inl fetched
        · exact .inr fetched
        · omega
      · omega
  | jump fetched jumps operands nowhere =>
      have lands := closed.isJumpDestination_of_tracked tracked fetched jumps operands
      rw [nowhere] at lands
      cases lands
  | refused refusal =>
      have unlike {cause : Cause} (other : cause.isRefusal = false) : fault.cause ≠ cause := by
        intro same
        rw [same, other] at refusal
        cases refusal
      exact ⟨unlike rfl, unlike rfl, fun same => (unlike rfl same).elim⟩
  | answered _ _ asked => simp [Fault.isAnswer, Fault.within, asked] at own

/-- Where a visit sends control, the program has an edge to a block. -/
theorem Closed.edge_of_sends (closed : Closed code visited program) (member : visit ∈ visited)
    {successor : Successor} (sends : Sends code visit successor) :
    successor.pc ∈ program.successors visit.pc ∧
      ∃ next, program.block? successor.pc = some next := by
  obtain ⟨_, next, nextMember, here, _⟩ := closed.sent visit member successor sends
  exact ⟨(closed.edges _ _).mpr ⟨visit, member, rfl, successor, sends, rfl⟩,
    (closed.visited_iff _).mpr ⟨next, nextMember, here⟩⟩

/-- The instruction under a frame that is followed belongs to a block of the program. -/
theorem Closed.exists_instruction (closed : Closed code visited program)
    (tracked : Tracked code visited pc stack) :
    ∃ start block, program.block? start = some block ∧
      ∃ instruction ∈ block.instructions, instruction.pc = pc := by
  obtain ⟨visit, member, tracks, _⟩ := tracked
  obtain ⟨block, known⟩ := (closed.visited_iff visit.pc).mpr ⟨visit, member, rfl⟩
  have inBlock := tracks.mem_instructions
  rw [← closed.decoded _ _ known, Block.instructions, List.mem_append,
    List.mem_singleton] at inBlock
  refine ⟨visit.pc, block, known, ?_⟩
  rcases inBlock with inBody | isFinal
  · exact ⟨_, List.mem_append_left _ inBody, Block.decodeInstruction_pc code visit.pc pc⟩
  · refine ⟨block.final, List.mem_append_right _ (List.mem_singleton.mpr rfl), ?_⟩
    rw [← block.final.pc_bare, ← Block.decodeInstruction_pc code visit.pc pc, isFinal]
    rfl

/-- The instruction that ends a block of the program, as it was decoded. -/
theorem Closed.final_eq (closed : Closed code visited program) (small : code.size < 2 ^ 63)
    {start : UInt64} {block : Block} (known : program.block? start = some block) :
    block.final.bare = (Block.decode code start).final ∧
      block.final.bare = (Block.decodeInstruction code start block.final.pc).1 := by
  have final_eq : block.final.bare = (Block.decode code start).final := by
    rw [← closed.decoded _ _ known]
    rfl
  have decoded := @Block.decode_final_eq code start small
  rw [← final_eq, Instruction.pc_bare] at decoded
  exact ⟨final_eq, decoded⟩

/-- A block that falls into a jump destination has an edge to the block there. -/
theorem Closed.edge_of_fall (closed : Closed code visited program)
    (small : code.size < 2 ^ 63) {start : UInt64} {block : Block}
    (known : program.block? start = some block) (falls : block.final.kind = .fall) :
    block.final.pc ∈ program.successors start ∧
      ∃ next, program.block? block.final.pc = some next := by
  obtain ⟨visit, member, rfl⟩ := (closed.visited_iff start).mp ⟨block, known⟩
  obtain ⟨successors, transferred⟩ := closed.transfers visit member
  obtain ⟨_, _, leaves⟩ := Block.transfer_outcome_eq_ok_iff.mp transferred
  obtain ⟨final_eq, decoded⟩ := closed.final_eq small known
  have goesOn : (Block.decode code visit.pc).final.next? = some block.final.pc := by
    rw [← final_eq, decoded]
    refine (Block.opcode_of_kind rfl).2.2 ?_
    rw [← decoded, Instruction.kind_bare, falls]
  obtain ⟨successor, sent, same⟩ := leaves.exists_of_next? goesOn
  rw [← same]
  exact closed.edge_of_sends member ⟨successors, transferred, sent⟩

/-- A frame at the jump that ends a block goes along an edge of the program. The block
under the frame is that block: no other block of the program ends there. -/
theorem Closed.edge_of_jump (closed : Closed code visited program)
    (small : code.size < 2 ^ 63) {start : UInt64} {block : Block}
    (known : program.block? start = some block)
    (fetched : Opcode.ofByte? (code.byteAt block.final.pc) = some opcode)
    (jumps : opcode = .jump ∨ opcode = .jumpi)
    (diverts : block.final.kind ≠ .fall)
    (tracked : Tracked code visited block.final.pc stack)
    (moves : code.Moves block.final.pc stack pc' stack') :
    pc' ∈ program.successors start ∧ ∃ next, program.block? pc' = some next := by
  obtain ⟨visit, member, tracks, _⟩ := tracked
  obtain ⟨other, otherKnown⟩ := (closed.visited_iff visit.pc).mpr ⟨visit, member, rfl⟩
  obtain ⟨final_eq, _⟩ := closed.final_eq small known
  have ends : (Block.decode code visit.pc).final.pc = block.final.pc ∧
      (Block.decode code visit.pc).final.kind ≠ .fall := by
    rcases jumps with rfl | rfl
    · rw [(tracks.of_jump fetched).1]
      simp [Instruction.kind]
    · rw [(tracks.of_branch fetched).1]
      simp [Instruction.kind]
  obtain rfl : start = visit.pc := by
    refine (closed.leads small _ _ known).eq_of_final_pc_eq small
      (closed.leads small _ _ otherKnown) ?_ ?_ ends.2
    · rw [ends.1, ← final_eq, Instruction.pc_bare]
    · rwa [← final_eq, Instruction.kind_bare]
  obtain ⟨successor, sends, rfl, _⟩ := tracks.sends_of_moves fetched jumps moves
  exact closed.edge_of_sends member sends

end Recovery

/-! ## Runs of the machine -/

/-- A push of 3, a jump, a jump destination and a stop. -/
def leapingCode : Bytes :=
  Bytes.ofList [0x60, 0x03, 0x56, 0x5b, 0x00]

/-- A revert without operands. -/
def barrenCode : Bytes :=
  Bytes.ofList [0xfd]

section Runs

-- A call of any kind, in any environment, and a machine that it came to.
variable {σ : Type} {chain : Chain σ} {environment : Environment} {registers : Registers}
variable {call : Call} {outermost : Bytes} {state : σ} {steps : Nat} {machine : Machine σ}

/-- The frames that run a recovered code are followed by the recovery. -/
theorem closed_of_run {bytes : Bytes} {config : RecoveryConfig} {program : Program}
    (recovered : recover bytes config = .ok program) (merges : config.revisit = .merge)
    (small : bytes.size < 2 ^ 63)
    (ran : Machine.run chain environment steps
      (Machine.begin environment.config registers call outermost state) = .running machine)
    (runs : machine.frame.code.bytes = bytes) :
    ∃ visited, Recovery.Closed machine.frame.code visited program ∧
      machine.frame.code.size < 2 ^ 63 ∧ machine.frame.stack.length ≤ stackLimit ∧
      Recovery.Tracked machine.frame.code visited machine.frame.pc machine.frame.stack := by
  obtain ⟨visited, closed⟩ := closed_of_recover recovered merges
  rw [← runs, ← Code.eq_ofBytes] at closed
  have visits := (Machine.run_visiting (fun _ => Machine.begin_visiting) ran).running
  subst runs
  exact ⟨visited, closed, small, visits.length_le, closed.tracked_of_visits small visits⟩

/-- Every frame that runs a recovered code stays inside the recovered program: the
instruction under it belongs to a block, and control leaves a block only along the edges
of the program and to its blocks. A block that falls into a jump destination is left
there; one that jumps is left by the step that the machine then makes. The length of a
code is a signed 64-bit number, so that positions do not wrap around. -/
theorem recovered_program_follows_run {bytes : Bytes} {config : RecoveryConfig}
    {program : Program} (recovered : recover bytes config = .ok program)
    (merges : config.revisit = .merge) (small : bytes.size < 2 ^ 63)
    (ran : Machine.run chain environment steps
      (Machine.begin environment.config registers call outermost state) = .running machine)
    (runs : machine.frame.code.bytes = bytes) :
    (∃ start block, program.block? start = some block ∧
      ∃ instruction ∈ block.instructions, instruction.pc = machine.frame.pc) ∧
    ∀ start block, program.block? start = some block →
      block.final.pc = machine.frame.pc →
      (block.final.kind = .fall →
        machine.frame.pc ∈ program.successors start ∧
          ∃ next, program.block? machine.frame.pc = some next) ∧
      (block.final.kind = .jump ∨ block.final.kind = .branch →
        ∀ after, machine.step chain environment = .running after →
          after.frame.pc ∈ program.successors start ∧
            ∃ next, program.block? after.frame.pc = some next) := by
  obtain ⟨visited, closed, small, _, tracked⟩ :=
    closed_of_run recovered merges small ran runs
  refine ⟨closed.exists_instruction tracked, fun start block known here => ⟨?_, ?_⟩⟩
  · intro falls
    rw [← here]
    exact closed.edge_of_fall small known falls
  · intro jumps after stepped
    obtain ⟨_, decoded⟩ := closed.final_eq small known
    have kind_eq := congrArg Instruction.kind decoded
    rw [Instruction.kind_bare, here] at kind_eq
    obtain ⟨ofJump, ofBranch, _⟩ := Block.opcode_of_kind kind_eq.symm
    rw [← here] at tracked
    rcases jumps with jumps | branches
    · have fetched := ofJump jumps
      have moves := Machine.moves_of_step fetched rfl rfl stepped
      rw [← here] at fetched moves
      exact closed.edge_of_jump small known fetched (.inl rfl) (by simp [jumps]) tracked moves
    · have fetched := ofBranch branches
      have moves := Machine.moves_of_step fetched rfl rfl stepped
      rw [← here] at fetched moves
      exact closed.edge_of_jump small known fetched (.inr rfl) (by simp [branches]) tracked
        moves

/-- One step into its code the machine stands at the jump. -/
theorem leapingCode_followed :
    ∃ program, recover leapingCode {} = .ok program ∧
      3 ∈ program.successors 0 ∧ ∃ next, program.block? 3 = some next := by
  have recovers : (recover leapingCode {}).toOption.any (fun program =>
      (program.block? 0).any fun block =>
        block.final.pc == 2 && block.final.kind == .jump) = true := by
    decide +kernel
  have comes : (Machine.run (emptyChain {}) (.of none none none) 1
      (Machine.begin (Environment.of none none none).config {} {} leapingCode ())).running?.any
      (fun machine => decide (machine.frame.code.bytes = leapingCode) &&
        machine.frame.pc == 2 &&
        (machine.step (emptyChain {}) (.of none none none)).running?.any
          (·.frame.pc == 3)) = true := by
    decide +kernel
  obtain ⟨program, recovered, seen⟩ := exists_ok recovers
  simp only [Option.any_eq_true, Bool.and_eq_true, beq_iff_eq] at seen
  obtain ⟨block, known, pc_eq, kind_eq⟩ := seen
  obtain ⟨machine, ran, seen⟩ := Status.exists_running comes
  simp only [Bool.and_eq_true, beq_iff_eq, decide_eq_true_eq] at seen
  obtain ⟨⟨runs, here⟩, goesOn⟩ := seen
  obtain ⟨after, stepped, there⟩ := Status.exists_running goesOn
  obtain ⟨_, leaves⟩ := recovered_program_follows_run recovered rfl (by decide) ran runs
  have left := (leaves 0 block known (pc_eq.trans here.symm)).2 (.inl kind_eq) after stepped
  rw [beq_iff_eq.mp there] at left
  exact ⟨program, recovered, left⟩

/-- A frame that runs a recovered code never stops with a bad jump or a full stack of its
own, and lacks operands only when it returns or reverts. A fault that the chain answered
with is not the frame's own, whatever its cause. -/
theorem recovered_code_stops_soundly {bytes : Bytes} {config : RecoveryConfig}
    {program : Program} (recovered : recover bytes config = .ok program)
    (merges : config.revisit = .merge) (small : bytes.size < 2 ^ 63)
    (ran : Machine.run chain environment steps
      (Machine.begin environment.config registers call outermost state) = .running machine)
    (runs : machine.frame.code.bytes = bytes) {fault : Fault}
    (stops : machine.Stops chain environment fault) (own : fault.isAnswer = false) :
    fault.cause ≠ .invalidJump ∧ fault.cause ≠ .stackOverflow ∧
      (fault.cause = .stackUnderflow →
        Opcode.ofByte? (machine.frame.code.byteAt machine.frame.pc) = some .return ∨
          Opcode.ofByte? (machine.frame.code.byteAt machine.frame.pc) = some .revert) := by
  obtain ⟨visited, closed, -, low, tracked⟩ :=
    closed_of_run recovered merges small ran runs
  by_cases passes : Machine.isAbsorbed fault = false
  · exact closed.cause_of_tracked tracked low (stops.raises passes) own
  · simp only [Machine.isAbsorbed, Bool.or_eq_false_iff, beq_eq_false_iff_ne, ne_eq,
      not_and, not_not] at passes
    by_cases reverted : fault.cause = .executionReverted
    · simp [reverted]
    · simp [passes reverted]

/-- A revert that finds no operands is one of the two ways to lack them. -/
theorem barrenCode_lacks_operands :
    ∃ machine : Machine Unit, ∃ fault : Fault,
      machine.Stops (emptyChain {}) (.of none none none) fault ∧
      fault.cause = .stackUnderflow ∧
      (Opcode.ofByte? (machine.frame.code.byteAt machine.frame.pc) = some .return ∨
        Opcode.ofByte? (machine.frame.code.byteAt machine.frame.pc) = some .revert) := by
  have recovers : (recover barrenCode {}).toOption.any (fun _ => true) = true := by
    decide +kernel
  obtain ⟨program, recovered, _⟩ := exists_ok recovers
  let machine : Machine Unit :=
    { frame := .start 0 0 barrenCode ByteArray.empty 0 0
      callers := []
      registers := { depth := 1 }
      chain := () }
  let fault : Fault := ⟨[.instruction .revert 0, .heightBelow 0 2], .stackUnderflow⟩
  have ran : Machine.run (emptyChain {}) (.of none none none) 0
      (Machine.begin (Environment.of none none none).config {} {} barrenCode ()) =
        .running machine := rfl
  have stops : machine.Stops (emptyChain {}) (.of none none none) fault :=
    ⟨machine, rfl, rfl⟩
  have sound := recovered_code_stops_soundly recovered rfl (by decide) ran rfl stops rfl
  exact ⟨machine, fault, stops, rfl, sound.2.2 rfl⟩

end Runs

end EvmAtlas
