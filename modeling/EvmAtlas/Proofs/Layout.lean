import Mathlib.Order.Interval.Set.Defs
import EvmAtlas.Proofs.Termination

/-!
# Where blocks lie

Blocks are decoded independently of each other, from whatever position control reaches,
and nothing in decoding keeps one from starting in the middle of another. What keeps them
apart is where a recovery begins them: a leader is met by the sweep of the code, and no
block runs past a leader without ending there. So the blocks of a recovered program lie
one behind the other, and all of their instructions are on the sweep.
-/

namespace EvmAtlas

theorem immediateSize_le (byte : UInt8) : immediateSize byte ≤ 32 := by
  unfold immediateSize
  split
  · next opcode _ =>
      cases opcode with
      | push index => exact index.isLt
      | _ => exact Nat.zero_le _
  · exact Nat.zero_le _

namespace Block

variable {code : Code} {start pc first second : UInt64}
variable {body : List Instruction} {final : Instruction}

/-- The bytes that a block takes up. -/
def extent (block : Block) : Set Nat :=
  Set.Ico block.start.toNat block.stop.toNat

/-- An instruction that ends a block takes up one byte; the end right before a jump
destination takes up none. -/
theorem decodeInstruction_next_of_isFinal
    (ends : (decodeInstruction code start pc).1.isFinal = true) :
    (decodeInstruction code start pc).2 =
      if (decodeInstruction code start pc).1.kind = .fall then pc else pc + 1 := by
  unfold decodeInstruction at ends ⊢
  split at ends
  · simp [Instruction.isFinal] at ends
  · simp [Instruction.kind]
  · simp [Instruction.kind]
  · split at ends
    · simp [Instruction.isFinal, Opcode.isBlockFinal] at ends
    · next inside => simp [Instruction.kind, inside]
  · simp [Instruction.kind]
  · simp [Instruction.kind]

theorem stop_decodeFrom (small : code.size < 2 ^ 63) {steps : Nat}
    (enough : code.size ≤ pc.toNat + steps) :
    (decodeFrom code start steps pc).2.2 =
      if (decodeFrom code start steps pc).2.1.kind = .fall
      then (decodeFrom code start steps pc).2.1.pc
      else (decodeFrom code start steps pc).2.1.pc + 1 := by
  induction steps generalizing pc with
  | zero => rfl
  | succ steps ih =>
      simp only [decodeFrom]
      split
      · next ends =>
          rw [decodeInstruction_next_of_isFinal ends, decodeInstruction_pc]
      · next inner =>
          rw [Bool.not_eq_true] at inner
          have next := (toNat_decodeInstruction_next small inner).2
          apply ih
          omega

theorem stop_decode (small : code.size < 2 ^ 63) :
    (decode code start).stop =
      if (decode code start).final.kind = .fall then (decode code start).final.pc
      else (decode code start).final.pc + 1 :=
  stop_decodeFrom small (by omega)

namespace Straight

/-- A run ends inside the code, or behind it where a push that the code cuts short leads. -/
theorem final_le (small : code.size < 2 ^ 63)
    (straight : Straight code start pc body final) (inside : pc.toNat ≤ code.size + 32) :
    final.pc.toNat ≤ code.size + 32 := by
  induction straight with
  | last _ => rwa [decodeInstruction_pc]
  | @step pc _ _ inner _ ih =>
      obtain ⟨within, next⟩ := toNat_decodeInstruction_next small inner
      have width := immediateSize_le (code.byteAt pc)
      apply ih
      omega

/-- A block that falls into a jump destination has a byte before it. -/
theorem lt_final_of_fall (small : code.size < 2 ^ 63)
    (straight : Straight code start start body final) (falls : final.kind = .fall) :
    start.toNat < final.pc.toNat := by
  cases straight with
  | last ends =>
      have next := (opcode_of_kind falls).2.2 rfl
      rcases decodeInstruction_next? next with ⟨fetched, same⟩ | ⟨fetched, _⟩
      · rw [decodeInstruction_jumpi fetched] at falls
        cases falls
      · rw [decodeInstruction_plain fetched (by simp) fun _ => rfl] at falls
        cases falls
  | step inner rest =>
      have next := (toNat_decodeInstruction_next small inner).2
      have reached := rest.le_final small
      omega

end Straight

/-- A block takes up the byte at its start. -/
theorem mem_extent_decode (small : code.size < 2 ^ 63) (inside : start.toNat ≤ code.size) :
    start.toNat ∈ (decode code start).extent := by
  have straight := straight_decode code small start
  refine ⟨Nat.le_refl _, ?_⟩
  rw [stop_decode small]
  split
  · next falls => exact straight.lt_final_of_fall small falls
  · have reached := straight.le_final small
    have bounded := straight.final_le small (by omega)
    rw [UInt64.toNat_add, UInt64.toNat_one, Nat.mod_eq_of_lt (by omega)]
    omega

namespace Leads

/-- A block stops at the next leader at the latest. -/
theorem stop_le (small : code.size < 2 ^ 63) (firstLeads : Leads code first)
    (secondLeads : Leads code second) (before : first.toNat < second.toNat) :
    (decode code first).stop.toNat ≤ second.toNat := by
  rw [stop_decode small]
  by_cases reaches : second.toNat ≤ (decode code first).final.pc.toNat
  · rw [firstLeads.final_eq_fall small secondLeads before reaches]
    exact Nat.le_refl _
  · split
    · omega
    · exact (toNat_add_one_le _).trans (Nat.lt_of_not_le reaches)

/-- Blocks that begin at different leaders have no byte in common. -/
theorem not_mem_extent (small : code.size < 2 ^ 63) (firstLeads : Leads code first)
    (secondLeads : Leads code second) (different : first ≠ second) {position : Nat}
    (inFirst : position ∈ (decode code first).extent) :
    position ∉ (decode code second).extent := by
  intro inSecond
  rcases Nat.lt_or_gt_of_ne fun same => different (UInt64.toNat_inj.mp same) with
    before | after
  · have stops := firstLeads.stop_le small secondLeads before
    exact Nat.not_le_of_lt (inFirst.2.trans_le stops) inSecond.1
  · have stops := secondLeads.stop_le small firstLeads after
    exact Nat.not_le_of_lt (inSecond.2.trans_le stops) inFirst.1

/-- Every instruction of a block that begins at a leader is on the sweep. -/
theorem isStart_of_mem (small : code.size < 2 ^ 63) (leads : Leads code start)
    {instruction : Instruction} (member : instruction ∈ (decode code start).instructions) :
    code.bytes.IsStart instruction.pc.toNat :=
  (straight_decode code small start).isStart_of_mem small leads.aligned member

end Leads

/-- What was recorded on a block does not move it. -/
theorem extent_bare (block : Block) : block.bare.extent = block.extent := rfl

/-- Nor does it move its instructions. -/
theorem exists_mem_instructions_bare {block : Block} {instruction : Instruction}
    (member : instruction ∈ block.instructions) :
    ∃ bare ∈ block.bare.instructions, bare.pc = instruction.pc := by
  rw [instructions, List.mem_append, List.mem_singleton] at member
  rcases member with inBody | rfl
  · exact ⟨instruction, List.mem_append_left _ inBody, rfl⟩
  · exact ⟨block.final.bare, List.mem_append_right _ List.mem_cons_self,
      Instruction.pc_bare block.final⟩

end Block

/-- The blocks of a recovered program lie apart, and none of them reads the literal of a push
as an instruction. The length of a code is a signed 64-bit number, so that positions do not
wrap around. -/
theorem recovered_blocks_apart {bytes : Bytes} {config : RecoveryConfig} {program : Program}
    (recovered : recover bytes config = .ok program) (small : bytes.size < 2 ^ 63) :
    (∀ pc block, program.block? pc = some block →
      block.start = pc ∧ pc.toNat ∈ block.extent) ∧
    (∀ pc other block otherBlock, program.block? pc = some block →
      program.block? other = some otherBlock → pc ≠ other →
        ∀ position ∈ block.extent, position ∉ otherBlock.extent) ∧
    ∀ pc block, program.block? pc = some block →
      ∀ instruction ∈ block.instructions, instruction.pc.toNat < bytes.size →
        (CodeMap.ofBytes bytes).isCode instruction.pc = true := by
  obtain ⟨visited, finished, stage, _, rfl⟩ := stage_of_recover recovered
  change (Code.ofBytes bytes).size < 2 ^ 63 at small
  have decoded {pc : UInt64} {block : Block}
      (found : finished.program.block? pc = some block) :
      block.bare = Block.decode (Code.ofBytes bytes) pc ∧
        Block.Leads (Code.ofBytes bytes) pc ∧ pc.toNat ≤ bytes.size := by
    obtain ⟨site, known, rfl⟩ := Recovery.known_of_block? found
    exact ⟨stage.coherent.decoded _ _ known, (stage.leads small).1 _ _ known,
      stage.toNat_le_size.1 _ _ known⟩
  refine ⟨?_, ?_, ?_⟩
  · intro pc block found
    obtain ⟨same, _, inside⟩ := decoded found
    rw [← Block.extent_bare, same]
    exact ⟨congrArg Block.start same, Block.mem_extent_decode small inside⟩
  · intro pc other block otherBlock found otherFound different position inside
    obtain ⟨same, leads, _⟩ := decoded found
    obtain ⟨otherSame, otherLeads, _⟩ := decoded otherFound
    rw [← block.extent_bare, same] at inside
    rw [← otherBlock.extent_bare, otherSame]
    exact leads.not_mem_extent small otherLeads different inside
  · intro pc block found instruction member inside
    obtain ⟨same, leads, _⟩ := decoded found
    obtain ⟨bare, bareMember, pc_eq⟩ := Block.exists_mem_instructions_bare member
    rw [same] at bareMember
    have onSweep := leads.isStart_of_mem small bareMember
    rw [pc_eq] at onSweep
    exact (CodeMap.isCode_ofBytes_iff bytes _).mpr ⟨inside, onSweep⟩

/-- A push of 4, a jump, a stop, and a jump destination before a push that the code cuts short
in the middle of a literal that looks like a jump destination. -/
def truncatedCode : Bytes :=
  Bytes.ofList [0x60, 0x04, 0x56, 0x00, 0x5b, 0x61, 0x5b]

/-- A block that runs past the end of the code lies apart from the block before it. -/
theorem truncatedCode_blocks_apart :
    ∃ program block other, recover truncatedCode {} = .ok program ∧
      program.block? 0 = some block ∧ program.block? 4 = some other ∧
      truncatedCode.size < other.stop.toNat ∧
      (∀ position ∈ block.extent, position ∉ other.extent) ∧
      (CodeMap.ofBytes truncatedCode).isCode 5 = true := by
  have recovers : (recover truncatedCode {}).toOption.any (fun program =>
      (program.block? 0).isSome && (program.block? 4).any fun block =>
        decide (truncatedCode.size < block.stop.toNat) &&
          block.instructions.any (·.pc == 5)) = true := by
    decide +kernel
  obtain ⟨program, recovered, seen⟩ := exists_ok recovers
  simp only [Bool.and_eq_true, Option.isSome_iff_exists, Option.any_eq_true,
    decide_eq_true_eq, List.any_eq_true, beq_iff_eq] at seen
  obtain ⟨⟨block, found⟩, other, otherFound, past, instruction, member, here⟩ := seen
  obtain ⟨_, apart, onSweep⟩ := recovered_blocks_apart recovered (by decide)
  have isCode := onSweep 4 other otherFound instruction member (by rw [here]; decide)
  rw [here] at isCode
  exact ⟨program, block, other, recovered, found, otherFound, past,
    apart 0 4 block other found otherFound (by decide), isCode⟩

end EvmAtlas
