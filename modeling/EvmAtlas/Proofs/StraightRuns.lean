import Mathlib.Logic.Function.Iterate
import EvmAtlas.Proofs.Disassembly
import EvmAtlas.Proofs.Failure

/-!
# Decoded blocks are straight runs

Decoding is a loop without a counter. It ends because a stop is read past the end of the code,
and what it reads up to there follows a sweep that knows nothing of blocks: `Code.next` goes from an
instruction to the one behind its literal, and the instruction number `i` of a block stands where
this leads in `i` steps from the start. `isFinal_decodeInstruction_iff` says which bytes of the
sweep end a block, so that the last instruction of a block is told from the code alone.
-/

namespace EvmAtlas

/-- A byte is that of an instruction if it is read as this instruction. -/
theorem Opcode.eq_toByte_iff {byte : UInt8} {opcode : Opcode} :
    byte = opcode.toByte ↔ ofByte? byte = some opcode := by
  constructor
  · rintro rfl
    exact opcode.ofByte?_toByte
  · intro fetched
    exact (toByte_of_ofByte? fetched).symm

namespace Code

/-- The position behind the instruction at a position and its literal. -/
def next (code : Code) (pc : UInt64) : UInt64 :=
  pc + 1 + UInt64.ofNat (immediateSize (code.byteAt pc))

/-- Whether the instruction at a position ends every block that it belongs to. -/
def Ends (code : Code) (pc : UInt64) : Prop :=
  Opcode.byteIsBlockFinal (code.byteAt pc) = true ∨ code.byteAt pc = Opcode.jumpi.toByte

instance (code : Code) : DecidablePred code.Ends := fun pc =>
  inferInstanceAs (Decidable (Opcode.byteIsBlockFinal (code.byteAt pc) = true ∨
    code.byteAt pc = Opcode.jumpi.toByte))

/-- A sweep from `start` comes to a jump destination in some steps. It meets no other one after the
start, and nothing that ends a block. -/
structure Meets (code : Code) (start : UInt64) (count : Nat) : Prop where
  later : 0 < count
  destination : code.byteAt (code.next^[count] start) = Opcode.jumpdest.toByte
  first : ∀ earlier < count, 0 < earlier →
    code.byteAt (code.next^[earlier] start) ≠ Opcode.jumpdest.toByte
  unended : ∀ earlier < count, ¬ code.Ends (code.next^[earlier] start)

end Code

namespace Block

variable {code : Code} {start pc : UInt64} {body others : List Instruction}
variable {final other : Instruction}

theorem decodeInstruction_next (inner : (decodeInstruction code start pc).1.isFinal = false) :
    (decodeInstruction code start pc).2 = code.next pc := by
  unfold decodeInstruction at inner ⊢
  unfold Code.next immediateSize
  split at inner
  · next fetched => rw [fetched]; rfl
  · cases inner
  · cases inner
  · next fetched =>
      split at inner
      · next first => rw [fetched, if_pos first]; exact (UInt64.add_zero _).symm
      · cases inner
  · next opcode notPush _ _ _ fetched =>
      have none : opcode.immediateSize = 0 := by
        cases opcode with
        | push index => exact absurd rfl (notPush index)
        | _ => rfl
      simp only [fetched, none]
      exact (UInt64.add_zero _).symm
  · cases inner

/-- An instruction ends a block by itself, or as a jump destination that does not begin it. -/
theorem isFinal_decodeInstruction_iff :
    (decodeInstruction code start pc).1.isFinal = true ↔
      code.Ends pc ∨ (code.byteAt pc = Opcode.jumpdest.toByte ∧ pc ≠ start) := by
  unfold Code.Ends Opcode.byteIsBlockFinal
  simp only [Opcode.eq_toByte_iff]
  cases fetched : Opcode.ofByte? (code.byteAt pc) with
  | none => simp [decodeInstruction, fetched, Instruction.isFinal]
  | some opcode =>
      cases opcode with
      | jumpdest =>
          by_cases first : pc = start
          · subst first
            simp [decodeInstruction, fetched, Instruction.isFinal, Opcode.isBlockFinal]
          · simp [decodeInstruction, fetched, first, Instruction.isFinal, Opcode.isBlockFinal]
      | _ => simp [decodeInstruction, fetched, Instruction.isFinal, Opcode.isBlockFinal]

/-! ## Runs and the sweep -/

namespace Straight

theorem isFinal_final (straight : Straight code start pc body final) : final.isFinal = true := by
  induction straight with
  | last ends => exact ends
  | step _ _ ih => exact ih

theorem unique (straight : Straight code start pc body final)
    (again : Straight code start pc others other) : others = body ∧ other = final := by
  induction straight generalizing others with
  | last ends =>
      cases again with
      | last _ => exact ⟨rfl, rfl⟩
      | step inner _ => simp [inner] at ends
  | step inner _ ih =>
      cases again with
      | last ends => simp [inner] at ends
      | step _ rest =>
          obtain ⟨rfl, rfl⟩ := ih rest
          exact ⟨rfl, rfl⟩

/-- A run is read along the sweep. -/
theorem eq_map_range (straight : Straight code start pc body final) :
    body ++ [final] = (List.range (body.length + 1)).map fun index =>
      (decodeInstruction code start (code.next^[index] pc)).1 := by
  induction straight with
  | last _ => rfl
  | step inner _ ih =>
      rw [List.cons_append, ih, decodeInstruction_next inner]
      conv_rhs => rw [List.length_cons, List.range_succ_eq_map, List.map_cons, List.map_map]
      rfl

/-- A run lies at and behind its position. -/
theorem le_of_mem (small : code.size < 2 ^ 63) (straight : Straight code start pc body final)
    {instruction : Instruction} (member : instruction ∈ body ++ [final]) :
    pc.toNat ≤ instruction.pc.toNat := by
  induction straight with
  | last _ => rw [List.mem_singleton.mp member, decodeInstruction_pc]
  | step inner _ ih =>
      rcases List.mem_cons.mp member with rfl | later
      · rw [decodeInstruction_pc]
      · have follows := (toNat_decodeInstruction_next small inner).2
        have reached := ih later
        omega

theorem pairwise_pc (small : code.size < 2 ^ 63) (straight : Straight code start pc body final) :
    (body ++ [final]).Pairwise fun earlier later => earlier.pc < later.pc := by
  induction straight with
  | last _ => exact List.pairwise_singleton _ _
  | step inner rest ih =>
      refine List.pairwise_cons.mpr ⟨?_, ih⟩
      intro instruction member
      have follows := (toNat_decodeInstruction_next small inner).2
      have reached := rest.le_of_mem small member
      rw [decodeInstruction_pc, UInt64.lt_iff_toNat_lt]
      omega

end Straight

/-! ## Decoded blocks -/

theorem length_instructions (block : Block) :
    block.instructions.length = block.body.length + 1 :=
  List.length_append

theorem lt_length_instructions {block : Block} {index : Nat}
    (atMost : index ≤ block.body.length) : index < block.instructions.length := by
  rw [length_instructions]
  exact Nat.lt_succ_of_le atMost

section Decoded

variable (small : code.size < 2 ^ 63)

include small

theorem getElem?_instructions {index : Nat}
    (inside : index < (decode code start).instructions.length) :
    (decode code start).instructions[index]? =
      some (decodeInstruction code start (code.next^[index] start)).1 := by
  have along : (decode code start).instructions = _ :=
    (straight_decode code small start).eq_map_range
  rw [along, List.length_map, List.length_range] at inside
  rw [along, List.getElem?_map, List.getElem?_range inside, Option.map_some]

theorem getElem_instructions {index : Nat}
    (inside : index < (decode code start).instructions.length) :
    (decode code start).instructions[index] =
      (decodeInstruction code start (code.next^[index] start)).1 :=
  (List.getElem?_eq_some_iff.mp (getElem?_instructions small inside)).2

theorem isFinal_getElem_iff {index : Nat}
    (inside : index < (decode code start).instructions.length) :
    (decode code start).instructions[index].isFinal = true ↔
      index + 1 = (decode code start).instructions.length := by
  have straight := straight_decode code small start
  have length_eq := length_instructions (decode code start)
  have atMost : index ≤ (decode code start).body.length := by omega
  rcases Nat.lt_or_eq_of_le atMost with inBody | rfl
  · have inner := isFinal_of_mem_body (List.getElem_mem inBody)
    simp only [instructions, List.getElem_append_left inBody, inner, Bool.false_eq_true, false_iff]
    rw [← instructions]
    omega
  · simp [instructions, straight.isFinal_final]

/-- The sweep does not come back to the start of a block inside it. -/
theorem iterate_next_ne {index : Nat} (later : 0 < index)
    (inside : index < (decode code start).instructions.length) :
    code.next^[index] start ≠ start := by
  have first : 0 < (decode code start).instructions.length := Nat.lt_trans later inside
  have ascending := List.pairwise_iff_getElem.mp
    ((straight_decode code small start).pairwise_pc small) 0 index first inside later
  intro back
  change (decode code start).instructions[0].pc < (decode code start).instructions[index].pc
    at ascending
  rw [getElem_instructions small first, getElem_instructions small inside, decodeInstruction_pc,
    decodeInstruction_pc, back] at ascending
  exact UInt64.lt_irrefl _ ascending

theorem final_eq_iterate :
    (decode code start).final =
      (decodeInstruction code start (code.next^[(decode code start).body.length] start)).1 := by
  have inside : (decode code start).body.length < (decode code start).instructions.length :=
    lt_length_instructions (Nat.le_refl _)
  rw [← getElem_instructions small inside]
  simp [instructions]

/-- Before the last instruction of a block the sweep meets nothing that ends it. -/
theorem not_ends_of_lt {index : Nat} (inBody : index < (decode code start).body.length) :
    ¬ (code.Ends (code.next^[index] start) ∨
      (code.byteAt (code.next^[index] start) = Opcode.jumpdest.toByte ∧
        code.next^[index] start ≠ start)) := by
  have inside : index < (decode code start).instructions.length :=
    lt_length_instructions (Nat.le_of_lt inBody)
  rw [← isFinal_decodeInstruction_iff, ← getElem_instructions small inside,
    isFinal_getElem_iff small inside, length_instructions]
  omega

theorem meets_of_fall (falls : (decode code start).final.kind = .fall) :
    code.Meets start (decode code start).body.length := by
  have final_eq : (decode code start).final = _ := final_eq_iterate small
  have later : 0 < (decode code start).body.length := by
    have behind := (straight_decode code small start).lt_final_of_fall small falls
    rw [final_eq, decodeInstruction_pc] at behind
    apply Nat.pos_of_ne_zero
    intro none
    simp [none] at behind
  have destination : code.byteAt (code.next^[(decode code start).body.length] start) =
      Opcode.jumpdest.toByte := by
    rw [final_eq] at falls
    rcases decodeInstruction_next? ((opcode_of_kind falls).2.2 rfl) with
      ⟨fetched, -⟩ | ⟨fetched, -⟩
    · rw [decodeInstruction_jumpi fetched] at falls
      cases falls
    · exact Opcode.eq_toByte_iff.mpr fetched
  refine ⟨later, destination, ?_, ?_⟩
  · intro earlier before behind meets
    have inside : earlier < (decode code start).instructions.length :=
      lt_length_instructions (Nat.le_of_lt before)
    exact not_ends_of_lt small before (.inr ⟨meets, iterate_next_ne small behind inside⟩)
  · intro earlier before ends
    exact not_ends_of_lt small before (.inl ends)

/-- A block ends at the jump destination that the sweep meets first, unless it ends before. -/
theorem length_body_of_meets {count : Nat} (meets : code.Meets start count) :
    (decode code start).body.length = count := by
  have ends := (straight_decode code small start).isFinal_final
  rw [final_eq_iterate small, isFinal_decodeInstruction_iff] at ends
  rcases Nat.lt_trichotomy (decode code start).body.length count with shorter | same | longer
  · rcases ends with ends | ⟨destination, apart⟩
    · exact absurd ends (meets.unended _ shorter)
    · have later : 0 < (decode code start).body.length := by
        apply Nat.pos_of_ne_zero
        intro none
        simp [none] at apart
      exact absurd destination (meets.first _ shorter later)
  · exact same
  · have inside : count < (decode code start).instructions.length :=
      lt_length_instructions (Nat.le_of_lt longer)
    have apart := iterate_next_ne small meets.later inside
    exact absurd (.inr ⟨meets.destination, apart⟩) (not_ends_of_lt small longer)

theorem final_eq_of_meets {count : Nat} (meets : code.Meets start count) :
    (decode code start).final =
      ⟨code.next^[count] start, .fall (code.next^[count] start)⟩ := by
  have length_eq := length_body_of_meets small meets
  have apart : code.next^[count] start ≠ start :=
    iterate_next_ne small meets.later (lt_length_instructions (Nat.le_of_eq length_eq.symm))
  have fetched := Opcode.eq_toByte_iff.mp meets.destination
  rw [final_eq_iterate small, length_eq, decodeInstruction_fall fetched apart]

theorem exists_index {instruction : Instruction}
    (member : instruction ∈ (decode code start).instructions) :
    ∃ index, index < (decode code start).instructions.length ∧
      (decodeInstruction code start (code.next^[index] start)).1 = instruction := by
  obtain ⟨index, inside, rfl⟩ := List.getElem_of_mem member
  exact ⟨index, inside, (getElem_instructions small inside).symm⟩

end Decoded

/-- A block is the straight run of instructions that the code holds from a position on. -/
structure IsRun (code : Code) (start : UInt64) (block : Block) : Prop where
  /-- Decoding ends without a count of its steps, and with nothing but this block. -/
  terminates : ∀ body final,
    Straight code start start body final ↔ body = block.body ∧ final = block.final
  nonempty : block.instructions ≠ []
  /-- The last instruction ends the block, and no other one would. -/
  ends : ∀ index (inside : index < block.instructions.length),
    block.instructions[index].isFinal = true ↔ index + 1 = block.instructions.length
  /-- Each instruction stands behind the one before and its literal. -/
  follows : ∀ index (inside : index < block.instructions.length),
    block.instructions[index].pc = code.next^[index] start
  byte : ∀ instruction ∈ block.instructions, instruction.kind ≠ .fall →
    instruction.byte? = some (code.byteAt instruction.pc)
  outside : ∀ instruction ∈ block.instructions, code.size ≤ instruction.pc.toNat →
    instruction.action = .plain .stop
  /-- Only the first instruction can be a jump destination. -/
  begins : ∀ index (inside : index < block.instructions.length),
    block.instructions[index].byte? = some Opcode.jumpdest.toByte → index = 0
  falls_iff : block.final.kind = .fall ↔ ∃ count, code.Meets start count
  falls : ∀ count, code.Meets start count →
    block.final = ⟨code.next^[count] start, .fall (code.next^[count] start)⟩ ∧
      block.stop = code.next^[count] start ∧ block.instructions.length = count + 1
  ascends : start.toNat ≤ code.size →
    block.instructions.Pairwise fun earlier later => earlier.pc < later.pc
  behind : start.toNat ≤ code.size → start < block.stop

end Block

/-- Whatever a code holds and wherever a block begins, decoding ends with a straight run. The
instructions of a block follow the sweep of the code from its start, each of them read from the
byte where it stands, and it goes on up to the first one that ends a block. This one is the end
before a jump destination just if the sweep meets a jump destination first. -/
theorem decoded_block_is_run {code : Code} (small : code.size < 2 ^ 63) (start : UInt64) :
    (Block.decode code start).IsRun code start := by
  have straight := Block.straight_decode code small start
  constructor
  case terminates =>
    intro body final
    constructor
    · exact straight.unique
    · rintro ⟨rfl, rfl⟩
      exact straight
  case nonempty => simp [Block.instructions]
  case ends => exact fun index inside => Block.isFinal_getElem_iff small inside
  case follows =>
    intro index inside
    rw [Block.getElem_instructions small inside, Block.decodeInstruction_pc]
  case byte =>
    intro instruction member shown
    obtain ⟨index, -, rfl⟩ := Block.exists_index small member
    rw [Block.decodeInstruction_pc]
    exact Block.byte?_decodeInstruction shown
  case outside =>
    intro instruction member past
    obtain ⟨index, -, rfl⟩ := Block.exists_index small member
    rw [Block.decodeInstruction_pc] at past
    rw [Block.decodeInstruction_plain (Code.ofByte?_past_end past) (by simp) (by simp)]
  case begins =>
    intro index inside byte_eq
    rw [Block.getElem_instructions small inside] at byte_eq
    have shown := (Block.isSome_byte?_iff _).mp (Option.isSome_of_eq_some byte_eq)
    rw [Block.byte?_decodeInstruction shown, Option.some_inj] at byte_eq
    by_contra other
    have apart := Block.iterate_next_ne small (Nat.pos_of_ne_zero other) inside
    rw [Block.decodeInstruction_fall (Opcode.eq_toByte_iff.mp byte_eq) apart] at shown
    exact shown rfl
  case falls_iff =>
    constructor
    · intro falls
      exact ⟨_, Block.meets_of_fall small falls⟩
    · rintro ⟨count, meets⟩
      rw [Block.final_eq_of_meets small meets]
      rfl
  case falls =>
    intro count meets
    have final_eq := Block.final_eq_of_meets small meets
    refine ⟨final_eq, ?_, ?_⟩
    · rw [Block.stop_decode small, final_eq]
      rfl
    · rw [Block.length_instructions, Block.length_body_of_meets small meets]
  case ascends => exact fun _ => straight.pairwise_pc small
  case behind =>
    intro inside
    exact UInt64.lt_iff_toNat_lt.mpr (Block.mem_extent_decode small inside).2

/-- A push of the byte of a jump destination, and a jump destination. -/
def shadowedCode : Code :=
  .ofBytes (Bytes.ofList [0x60, 0x5b, 0x5b, 0x00])

/-- The literal of the push does not end its block, but the jump destination behind it does. -/
theorem shadowedCode_is_run :
    (Block.decode shadowedCode 0).final = ⟨2, .fall 2⟩ ∧
      (Block.decode shadowedCode 0).stop = 2 ∧
      (Block.decode shadowedCode 0).instructions.length = 2 ∧
      (0 : UInt64) < (Block.decode shadowedCode 0).stop := by
  have small : shadowedCode.size < 2 ^ 63 := by decide +kernel
  have run := decoded_block_is_run small 0
  have meets : shadowedCode.Meets 0 1 := by
    refine ⟨by decide, by decide +kernel, ?_, by decide +kernel⟩
    intro earlier before behind
    exact absurd before (Nat.not_lt.mpr behind)
  have position : shadowedCode.next^[1] 0 = 2 := by decide +kernel
  obtain ⟨final_eq, stop_eq, length_eq⟩ := run.falls 1 meets
  rw [position] at final_eq stop_eq
  exact ⟨final_eq, stop_eq, length_eq, run.behind (Nat.zero_le _)⟩

end EvmAtlas
