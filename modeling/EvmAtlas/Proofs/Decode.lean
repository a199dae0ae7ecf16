import Mathlib.Algebra.Group.Nat.Defs
import EvmAtlas.Flow.Block
import EvmAtlas.Proofs.Sweep

/-!
# Decoded blocks

`Block.decode` counts its steps down from the length of the code. `Straight` says the same
without a count: a block is the run of instructions that the code holds from its start up
to the first one that ends a block. The two agree for every code that 64-bit positions
can address.

A position where a block of a program may begin leads a block: the entry, a jump
destination, or the position after a conditional jump. Blocks that begin at leaders do
not share their last instruction.
-/

namespace EvmAtlas

namespace Opcode

theorem toByte_of_ofByte? {byte : UInt8} {opcode : Opcode}
    (fetched : ofByte? byte = some opcode) : opcode.toByte = byte := by
  have every : ∀ number : Fin 256,
      (ofByte? (UInt8.ofNat number)).all
        (fun opcode => opcode.toByte == UInt8.ofNat number) := by
    decide +kernel
  have here := every ⟨byte.toNat, byte.toNat_lt⟩
  simpa [fetched] using here

/-- Whether an instruction only changes the stack and the machine's data, so that control
goes on at the next byte. -/
def isStraight : Opcode → Bool
  | .stop | .jump | .jumpi | .push _ | .return | .revert | .unsupported _ => false
  | _ => true

end Opcode

namespace Code

variable {code : Code} {pc : UInt64}

theorem ofByte?_past_end (outside : code.size ≤ pc.toNat) :
    Opcode.ofByte? (code.byteAt pc) = some .stop := by
  rw [byteAt, Bytes.byteAt_of_size_le outside]
  rfl

theorem lt_size_of_ofByte?_ne_stop
    (fetched : Opcode.ofByte? (code.byteAt pc) ≠ some .stop) : pc.toNat < code.size := by
  by_contra outside
  exact fetched (ofByte?_past_end (Nat.not_lt.mp outside))

/-- The words that a jump may go to name a position where the sweep meets the byte of a jump
destination. -/
theorem isJumpDestination_iff {word : Word} (narrow : word.toUInt64? = some pc) :
    code.isJumpDestination word = true ↔
      code.isCode pc = true ∧ Opcode.ofByte? (code.byteAt pc) = some .jumpdest := by
  simp only [isJumpDestination, narrow, Bool.and_eq_true, decide_eq_true_eq, beq_iff_eq]
  constructor
  · rintro ⟨⟨_, byte⟩, isCode⟩
    rw [byte]
    exact ⟨isCode, rfl⟩
  · rintro ⟨isCode, fetched⟩
    have inside := ((isCode_iff pc).mp isCode).1
    exact ⟨⟨inside, (Opcode.toByte_of_ofByte? fetched).symm⟩, isCode⟩

end Code

namespace Block

variable {code : Code} {start pc : UInt64}

@[simp] theorem decodeInstruction_pc (code : Code) (start pc : UInt64) :
    (decodeInstruction code start pc).1.pc = pc := by
  unfold decodeInstruction
  split
  all_goals try split
  all_goals rfl

theorem decodeInstruction_push {index : Fin 32}
    (fetched : Opcode.ofByte? (code.byteAt pc) = some (.push index)) :
    decodeInstruction code start pc =
      (⟨pc, .push index (code.immediate (pc + 1) (index.val + 1))⟩,
        pc + 1 + UInt64.ofNat (index.val + 1)) := by
  simp [decodeInstruction, fetched]

/-- The position after a push, as decoding and running count it. -/
theorem add_immediate_eq (pc : UInt64) (index : Fin 32) :
    pc + 1 + UInt64.ofNat (index.val + 1) = pc + UInt64.ofNat (index.val + 2) := by
  rw [UInt64.add_assoc, UInt64.add_comm 1, ← UInt64.ofNat_one, ← UInt64.ofNat_add]

theorem decodeInstruction_jump (fetched : Opcode.ofByte? (code.byteAt pc) = some .jump) :
    decodeInstruction code start pc = (⟨pc, .jump []⟩, pc + 1) := by
  simp [decodeInstruction, fetched]

theorem decodeInstruction_jumpi (fetched : Opcode.ofByte? (code.byteAt pc) = some .jumpi) :
    decodeInstruction code start pc = (⟨pc, .branch [] (pc + 1)⟩, pc + 1) := by
  simp [decodeInstruction, fetched]

theorem decodeInstruction_fall (fetched : Opcode.ofByte? (code.byteAt pc) = some .jumpdest)
    (inside : pc ≠ start) :
    decodeInstruction code start pc = (⟨pc, .fall pc⟩, pc) := by
  simp [decodeInstruction, fetched, inside]

/-- All other instructions are decoded as they are. -/
theorem decodeInstruction_plain {opcode : Opcode}
    (fetched : Opcode.ofByte? (code.byteAt pc) = some opcode)
    (plain : opcode ≠ .jump ∧ opcode ≠ .jumpi ∧ ∀ index, opcode ≠ .push index)
    (first : opcode = .jumpdest → pc = start) :
    decodeInstruction code start pc = (⟨pc, .plain opcode⟩, pc + 1) := by
  obtain ⟨notJump, notBranch, notPush⟩ := plain
  unfold decodeInstruction
  rw [fetched]
  split
  · next same => exact (notPush _ (Option.some.inj same)).elim
  · next same => exact (notJump (Option.some.inj same)).elim
  · next same => exact (notBranch (Option.some.inj same)).elim
  · next same =>
      cases Option.some.inj same
      rw [if_pos (first rfl)]
  · next same => rw [Option.some.inj same]
  · next absent => simp at absent

/-- An instruction is decoded from the byte at its position, unless it is the end of a block
right before a jump destination. -/
theorem byte?_decodeInstruction (shown : (decodeInstruction code start pc).1.kind ≠ .fall) :
    (decodeInstruction code start pc).1.byte? = some (code.byteAt pc) := by
  unfold decodeInstruction at shown ⊢
  split at shown
  · next fetched => exact congrArg some (Opcode.toByte_of_ofByte? fetched)
  · next fetched => exact congrArg some (Opcode.toByte_of_ofByte? fetched)
  · next fetched => exact congrArg some (Opcode.toByte_of_ofByte? fetched)
  · next fetched =>
      split at shown
      · next first =>
          rw [if_pos first]
          exact congrArg some (Opcode.toByte_of_ofByte? fetched)
      · exact absurd rfl shown
  · next fetched => exact congrArg some (Opcode.toByte_of_ofByte? fetched)
  · rfl

theorem toNat_add_ofNat {pc : UInt64} {count : Nat} (small : pc.toNat < 2 ^ 63)
    (short : count < 2 ^ 63) : (pc + UInt64.ofNat count).toNat = pc.toNat + count := by
  rw [UInt64.toNat_add, UInt64.toNat_ofNat_of_lt' (by simp only [UInt64.size]; omega)]
  omega

theorem toNat_add_one {pc : UInt64} (small : pc.toNat < 2 ^ 63) :
    (pc + 1).toNat = pc.toNat + 1 :=
  toNat_add_ofNat small (by decide)

theorem toNat_add_one_le (pc : UInt64) : (pc + 1).toNat ≤ pc.toNat + 1 := by
  rw [UInt64.toNat_add]
  exact Nat.mod_le _ _

/-- The position after an instruction that does not end its block: the instruction lies
inside the program, so that nothing wraps around. -/
theorem toNat_decodeInstruction_next (small : code.size < 2 ^ 63)
    (inner : (decodeInstruction code start pc).1.isFinal = false) :
    pc.toNat < code.size ∧
      (decodeInstruction code start pc).2.toNat =
        pc.toNat + 1 + immediateSize (code.byteAt pc) := by
  have inside : pc.toNat < code.size := by
    apply Code.lt_size_of_ofByte?_ne_stop
    intro stops
    rw [decodeInstruction_plain stops (by simp) (by simp)] at inner
    simp [Instruction.isFinal, Opcode.isBlockFinal] at inner
  have pcSmall : pc.toNat < 2 ^ 63 := Nat.lt_trans inside small
  refine ⟨inside, ?_⟩
  unfold decodeInstruction at inner ⊢
  unfold immediateSize
  split at inner
  · next index fetched =>
      have width := index.isLt
      simp only [fetched, Opcode.immediateSize]
      rw [UInt64.add_assoc, UInt64.add_comm 1, ← UInt64.ofNat_one, ← UInt64.ofNat_add,
        toNat_add_ofNat pcSmall (by omega)]
      omega
  · simp [Instruction.isFinal] at inner
  · simp [Instruction.isFinal] at inner
  · next fetched =>
      split at inner
      · next first => simp only [fetched, if_pos first, toNat_add_one pcSmall,
          Opcode.immediateSize]
      · simp [Instruction.isFinal] at inner
  · next opcode notPush notJump notBranch notDestination fetched =>
      have none : opcode.immediateSize = 0 := by
        cases opcode with
        | push index => exact (notPush index rfl).elim
        | _ => rfl
      simp only [fetched, none, toNat_add_one pcSmall]
  · simp [Instruction.isFinal] at inner

/-! ## Straight runs -/

/-- The instructions that the code holds from `pc` on, in a block that began at `start`:
those before the first one that ends the block, and that one. -/
inductive Straight (code : Code) (start : UInt64) :
    UInt64 → List Instruction → Instruction → Prop where
  | last {pc : UInt64} (final : (decodeInstruction code start pc).1.isFinal = true) :
      Straight code start pc [] (decodeInstruction code start pc).1
  | step {pc : UInt64} {body : List Instruction} {final : Instruction}
      (inner : (decodeInstruction code start pc).1.isFinal = false)
      (rest : Straight code start (decodeInstruction code start pc).2 body final) :
      Straight code start pc ((decodeInstruction code start pc).1 :: body) final

theorem isFinal_of_mem_decodeFrom {steps : Nat} {instruction : Instruction}
    (member : instruction ∈ (decodeFrom code start steps pc).1) :
    instruction.isFinal = false := by
  induction steps generalizing pc with
  | zero => cases member
  | succ steps ih =>
      simp only [decodeFrom] at member
      split at member
      · cases member
      · next inner =>
          rcases List.mem_cons.mp member with rfl | later
          · exact Bool.eq_false_iff.mpr inner
          · exact ih later

/-- Only the last instruction of a block ends it. -/
theorem isFinal_of_mem_body {instruction : Instruction}
    (member : instruction ∈ (decode code start).body) : instruction.isFinal = false :=
  isFinal_of_mem_decodeFrom member

/-- Counting the steps down loses no instruction: when they are spent the position lies
past the end, where a stop is read. -/
theorem straight_decodeFrom (small : code.size < 2 ^ 63) {steps : Nat}
    (enough : code.size ≤ pc.toNat + steps) :
    Straight code start pc (decodeFrom code start steps pc).1
      (decodeFrom code start steps pc).2.1 := by
  induction steps generalizing pc with
  | zero =>
      have stops : Opcode.ofByte? (code.byteAt pc) = some .stop :=
        Code.ofByte?_past_end (by omega)
      have decoded : decodeInstruction code start pc = (⟨pc, .plain .stop⟩, pc + 1) :=
        decodeInstruction_plain stops (by simp) (by simp)
      have final : Straight code start pc [] (decodeInstruction code start pc).1 :=
        .last (by rw [decoded]; rfl)
      rw [decoded] at final
      exact final
  | succ steps ih =>
      simp only [decodeFrom]
      split
      · next final => exact .last final
      · next inner =>
          rw [Bool.not_eq_true] at inner
          obtain ⟨_, next⟩ := toNat_decodeInstruction_next small inner
          exact .step inner (ih (by omega))

theorem straight_decode (code : Code) (small : code.size < 2 ^ 63) (start : UInt64) :
    Straight code start start (decode code start).body (decode code start).final :=
  straight_decodeFrom small (by omega)

namespace Straight

variable {body : List Instruction} {final : Instruction}

theorem exists_head (straight : Straight code start pc body final) :
    ∃ rest, body ++ [final] = (decodeInstruction code start pc).1 :: rest := by
  cases straight with
  | last _ => exact ⟨[], rfl⟩
  | @step _ body _ _ _ => exact ⟨body ++ [final], rfl⟩

theorem final_eq (straight : Straight code start pc body final) :
    final = (decodeInstruction code start final.pc).1 := by
  induction straight with
  | last _ => rw [decodeInstruction_pc]
  | step _ _ ih => exact ih

theorem le_final (small : code.size < 2 ^ 63)
    (straight : Straight code start pc body final) : pc.toNat ≤ final.pc.toNat := by
  induction straight with
  | last _ => rw [decodeInstruction_pc]
  | step inner _ ih =>
      obtain ⟨_, next⟩ := toNat_decodeInstruction_next small inner
      omega

/-- A run that begins with an instruction of the sweep stays on the sweep. -/
theorem isStart_of_mem (small : code.size < 2 ^ 63)
    (straight : Straight code start pc body final) (aligned : code.bytes.IsStart pc.toNat)
    {instruction : Instruction} (member : instruction ∈ body ++ [final]) :
    code.bytes.IsStart instruction.pc.toNat := by
  induction straight with
  | last _ =>
      rw [List.nil_append, List.mem_singleton] at member
      rwa [member, decodeInstruction_pc]
  | step inner _ ih =>
      obtain ⟨_, next⟩ := toNat_decodeInstruction_next small inner
      rcases List.mem_cons.mp member with rfl | later
      · rwa [decodeInstruction_pc]
      · apply ih ?_ later
        rw [next]
        exact aligned.next

theorem isStart_final (small : code.size < 2 ^ 63)
    (straight : Straight code start pc body final) (aligned : code.bytes.IsStart pc.toNat) :
    code.bytes.IsStart final.pc.toNat :=
  straight.isStart_of_mem small aligned (List.mem_append_right _ List.mem_cons_self)

/-- A run meets every instruction start between its position and its end. -/
theorem of_isStart (small : code.size < 2 ^ 63)
    (straight : Straight code start pc body final) (aligned : code.bytes.IsStart pc.toNat)
    {other : UInt64} (otherAligned : code.bytes.IsStart other.toNat)
    (fromPc : pc.toNat ≤ other.toNat) (toFinal : other.toNat ≤ final.pc.toNat) :
    ∃ rest, Straight code start other rest final := by
  induction straight with
  | @last pc ends =>
      rw [decodeInstruction_pc] at toFinal
      obtain rfl : pc = other := UInt64.toNat_inj.mp (by omega)
      exact ⟨[], .last ends⟩
  | @step pc body final inner rest ih =>
      by_cases here : pc = other
      · subst here
        exact ⟨_, .step inner rest⟩
      · have before : pc.toNat < other.toNat :=
          Nat.lt_of_le_of_ne fromPc fun same => here (UInt64.toNat_inj.mp same)
        obtain ⟨_, next⟩ := toNat_decodeInstruction_next small inner
        have nextAligned := aligned.next
        have reached := aligned.next_le otherAligned before
        rw [← Code.byteAt, ← next] at nextAligned reached
        exact ih nextAligned reached toFinal

end Straight

/-- The decoded instruction that ends a block, in terms of the byte at its position. -/
theorem decode_final_eq (small : code.size < 2 ^ 63) :
    (decode code start).final =
      (decodeInstruction code start (decode code start).final.pc).1 :=
  (straight_decode code small start).final_eq

theorem decodeInstruction_eq_jumpdest {instruction : Instruction}
    (decoded : (decodeInstruction code start pc).1 = instruction)
    (action : instruction.action = .plain .jumpdest) :
    Opcode.ofByte? (code.byteAt pc) = some .jumpdest := by
  subst decoded
  unfold decodeInstruction at action
  split at action
  · simp at action
  · simp at action
  · simp at action
  · next fetched => exact fetched
  · next fetched =>
      cases action
      exact fetched
  · simp at action

/-- The instructions that fix where control goes on: a conditional jump, and a jump
destination that ends a block. -/
theorem decodeInstruction_next? {next : UInt64}
    (goesOn : (decodeInstruction code start pc).1.next? = some next) :
    (Opcode.ofByte? (code.byteAt pc) = some .jumpi ∧ next = pc + 1) ∨
      (Opcode.ofByte? (code.byteAt pc) = some .jumpdest ∧ next = pc) := by
  unfold decodeInstruction at goesOn
  split at goesOn
  · simp [Instruction.next?] at goesOn
  · simp [Instruction.next?] at goesOn
  · next fetched => exact .inl ⟨fetched, (Option.some.inj goesOn).symm⟩
  · next fetched =>
      split at goesOn
      · simp [Instruction.next?] at goesOn
      · exact .inr ⟨fetched, (Option.some.inj goesOn).symm⟩
  · simp [Instruction.next?] at goesOn
  · simp [Instruction.next?] at goesOn

/-- The kinds of instructions that divert control, in terms of the byte they were read
from. -/
theorem opcode_of_kind {kind : Kind}
    (kind_eq : (decodeInstruction code start pc).1.kind = kind) :
    (kind = .jump → Opcode.ofByte? (code.byteAt pc) = some .jump) ∧
      (kind = .branch → Opcode.ofByte? (code.byteAt pc) = some .jumpi) ∧
      (kind = .fall → (decodeInstruction code start pc).1.next? = some pc) := by
  subst kind_eq
  unfold decodeInstruction
  split
  · simp [Instruction.kind]
  · next fetched => simp [Instruction.kind, fetched]
  · next fetched => simp [Instruction.kind, fetched]
  · split
    · simp [Instruction.kind]
    · simp [Instruction.kind, Instruction.next?]
  · simp [Instruction.kind]
  · simp [Instruction.kind]

theorem exists_instructions_decode (code : Code) (start : UInt64) :
    ∃ rest, (decode code start).instructions =
      (decodeInstruction code start start).1 :: rest := by
  simp only [decode, instructions]
  cases left : code.size - start.toNat with
  | zero =>
      have stops : Opcode.ofByte? (code.byteAt start) = some .stop :=
        Code.ofByte?_past_end (Nat.sub_eq_zero_iff_le.mp left)
      rw [decodeInstruction_plain stops (by simp) (by simp)]
      exact ⟨[], rfl⟩
  | succ steps =>
      simp only [decodeFrom]
      split
      · exact ⟨[], rfl⟩
      · exact ⟨_, rfl⟩

theorem isJumpDestination_decode_iff :
    (decode code pc).isJumpDestination = true ↔
      Opcode.ofByte? (code.byteAt pc) = some .jumpdest := by
  obtain ⟨rest, head⟩ := exists_instructions_decode code pc
  simp only [isJumpDestination, head, beq_iff_eq]
  constructor
  · exact decodeInstruction_eq_jumpdest rfl
  · intro fetched
    rw [decodeInstruction_plain fetched (by simp) (fun _ => rfl)]

/-! ## Leaders -/

/-- A position where a block may begin: an instruction start that is the entry, a jump
destination, or comes right after a conditional jump. -/
structure Leads (code : Code) (pc : UInt64) : Prop where
  aligned : code.bytes.IsStart pc.toNat
  reason : pc = 0 ∨ Opcode.ofByte? (code.byteAt pc) = some .jumpdest ∨
    ∃ branch : UInt64, code.bytes.IsStart branch.toNat ∧
      Opcode.ofByte? (code.byteAt branch) = some .jumpi ∧ branch.toNat + 1 = pc.toNat

namespace Leads

variable {first second : UInt64}

theorem entry (code : Code) : Leads code 0 :=
  ⟨.zero code.bytes, .inl rfl⟩

theorem of_destination (isCode : code.isCode pc = true)
    (fetched : Opcode.ofByte? (code.byteAt pc) = some .jumpdest) : Leads code pc :=
  ⟨((Code.isCode_iff pc).mp isCode).2, .inr (.inl fetched)⟩

theorem of_next? (small : code.size < 2 ^ 63) (leads : Leads code start)
    (goesOn : (decode code start).final.next? = some pc) : Leads code pc := by
  have straight := straight_decode code small start
  have aligned := straight.isStart_final small leads.aligned
  rw [straight.final_eq] at goesOn
  rcases decodeInstruction_next? goesOn with ⟨fetched, rfl⟩ | ⟨fetched, rfl⟩
  · have inside := Code.lt_size_of_ofByte?_ne_stop (by rw [fetched]; simp)
    have follows := toNat_add_one (Nat.lt_trans inside small)
    have nextAligned := aligned.next
    rw [← Code.byteAt, immediateSize, fetched] at nextAligned
    refine ⟨?_, .inr (.inr ⟨_, aligned, fetched, follows.symm⟩)⟩
    rw [follows]
    exact nextAligned
  · exact ⟨aligned, .inr (.inl fetched)⟩

/-- A block that goes on to a later leader ends there, by falling into it. -/
theorem final_eq_fall (small : code.size < 2 ^ 63) (firstLeads : Leads code first)
    (secondLeads : Leads code second) (before : first.toNat < second.toNat)
    (reaches : second.toNat ≤ (decode code first).final.pc.toNat) :
    (decode code first).final = ⟨second, .fall second⟩ := by
  have straight := straight_decode code small first
  have different : second ≠ first := fun same => by simp [same] at before
  rcases secondLeads.reason with entry | destination | ⟨branch, aligned, fetched, follows⟩
  · simp [entry] at before
  · obtain ⟨rest, there⟩ :=
      straight.of_isStart small firstLeads.aligned secondLeads.aligned before.le reaches
    have decoded := decodeInstruction_fall destination different
    generalize (decode code first).final = final at there ⊢
    cases there with
    | last _ => rw [decoded]
    | step inner _ => simp [decoded, Instruction.isFinal] at inner
  · -- The conditional jump before the later leader would have ended the block.
    obtain ⟨rest, there⟩ :=
      straight.of_isStart small firstLeads.aligned aligned (by omega) (by omega)
    have decoded : decodeInstruction code first branch =
        (⟨branch, .branch [] (branch + 1)⟩, branch + 1) := decodeInstruction_jumpi fetched
    have early : (decode code first).final.pc = branch := by
      generalize (decode code first).final = final at there ⊢
      cases there with
      | last _ => rw [decoded]
      | step inner _ => simp [decoded, Instruction.isFinal] at inner
    rw [early] at reaches
    omega

theorem kind_final_eq_fall (small : code.size < 2 ^ 63) (firstLeads : Leads code first)
    (secondLeads : Leads code second) (before : first.toNat < second.toNat)
    (same : (decode code first).final.pc = (decode code second).final.pc) :
    (decode code first).final.kind = .fall := by
  have reaches := (straight_decode code small second).le_final small
  rw [← same] at reaches
  rw [firstLeads.final_eq_fall small secondLeads before reaches]
  rfl

/-- Blocks that begin at leaders and end in the same instruction are one block. -/
theorem eq_of_final_pc_eq (small : code.size < 2 ^ 63) (firstLeads : Leads code first)
    (secondLeads : Leads code second)
    (same : (decode code first).final.pc = (decode code second).final.pc)
    (firstDiverts : (decode code first).final.kind ≠ .fall)
    (secondDiverts : (decode code second).final.kind ≠ .fall) : first = second := by
  rcases Nat.lt_trichotomy first.toNat second.toNat with before | equal | after
  · have falls := firstLeads.kind_final_eq_fall small secondLeads before same
    exact (firstDiverts falls).elim
  · exact UInt64.toNat_inj.mp equal
  · have falls := secondLeads.kind_final_eq_fall small firstLeads after same.symm
    exact (secondDiverts falls).elim

end Leads

end Block

end EvmAtlas
