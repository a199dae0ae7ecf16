import EvmAtlas.Flow.Listing
import EvmAtlas.Proofs.Layout
import EvmAtlas.Proofs.Windows

/-!
# A listing loses nothing

A listing goes over the code block by block, whatever is reachable. Each block takes up the
bytes from its start to its stop, and the next block begins where it stops, so the instructions
that are listed lie one behind the other on the sweep of the code. `Instruction.Cover` says so
of a list of instructions, and it says of each that it writes the bytes that it was decoded
from. A push that the code cuts short is written with zeros, and the code runs on with zeros,
so that the bytes of all instructions are the code and zeros after it.
-/

namespace EvmAtlas

namespace Instruction

/-- The bytes that an instruction writes. A push writes its literal after its own byte, most
significant byte first. -/
def encoding (instruction : Instruction) : List UInt8 :=
  match instruction.action with
  | .push index literal =>
      (Opcode.push index).toByte :: Bytes.bigEndian (index.val + 1) literal.toNat
  | _ => instruction.byte?.toList

/-- Whether the literal of a push needs no more bytes than the push has. Nothing else has a
literal. -/
def Fits (instruction : Instruction) : Prop :=
  ∀ index literal, instruction.action = .push index literal →
    literal.toNat < 256 ^ (index.val + 1)

theorem encoding_of_ne_push {instruction : Instruction}
    (other : ∀ index literal, instruction.action ≠ .push index literal) :
    instruction.encoding = instruction.byte?.toList := by
  obtain ⟨pc, action⟩ := instruction
  cases action with
  | push index literal => exact absurd rfl (other index literal)
  | plain | invalid | jump | branch | fall => rfl

/-- Instructions that lie one behind the other from a position to another one, each of which
writes the bytes that it lies on. -/
inductive Cover (bytes : Bytes) : Nat → List Instruction → Nat → Prop where
  | nil (pc : Nat) : Cover bytes pc [] pc
  | cons {pc stop : Nat} {instruction : Instruction} {rest : List Instruction}
      (here : instruction.pc.toNat = pc) (fits : instruction.Fits)
      (writes : instruction.encoding =
        bytes.stretch pc (1 + immediateSize (bytes.byteAt pc)))
      (behind : Cover bytes (pc + 1 + immediateSize (bytes.byteAt pc)) rest stop) :
      Cover bytes pc (instruction :: rest) stop

namespace Cover

variable {bytes : Bytes} {pc middle stop : Nat} {instructions others : List Instruction}

theorem append (first : Cover bytes pc instructions middle)
    (second : Cover bytes middle others stop) :
    Cover bytes pc (instructions ++ others) stop := by
  induction first with
  | nil => exact second
  | cons here fits writes _ ih => exact .cons here fits writes (ih second)

theorem le (cover : Cover bytes pc instructions stop) : pc ≤ stop := by
  induction cover with
  | nil => exact Nat.le_refl _
  | cons _ _ _ _ ih => omega

theorem le_of_mem (cover : Cover bytes pc instructions stop) {instruction : Instruction}
    (member : instruction ∈ instructions) : pc ≤ instruction.pc.toNat := by
  induction cover with
  | nil => cases member
  | cons here _ _ _ ih =>
      rcases List.mem_cons.mp member with rfl | later
      · exact here.ge
      · have behind := ih later
        omega

theorem ascending (cover : Cover bytes pc instructions stop) :
    (instructions.map Instruction.pc).Pairwise (· < ·) := by
  induction cover with
  | nil => exact .nil
  | cons here _ _ behind ih =>
      refine List.pairwise_cons.mpr ⟨?_, ih⟩
      intro position member
      obtain ⟨instruction, later, rfl⟩ := List.mem_map.mp member
      have beyond := behind.le_of_mem later
      rw [UInt64.lt_iff_toNat_lt]
      omega

end Cover

end Instruction

namespace Block

variable {code : Code} {start pc : UInt64}

/-- Only the byte of a push is decoded as one. -/
theorem decodeInstruction_eq_push {index : Fin 32} {literal : Word}
    (action : (decodeInstruction code start pc).1.action = .push index literal) :
    Opcode.ofByte? (code.byteAt pc) = some (.push index) := by
  unfold decodeInstruction at action
  split at action
  · next fetched =>
      cases action
      exact fetched
  · simp at action
  · simp at action
  · split at action
    · simp at action
    · simp at action
  · simp at action
  · simp at action

theorem encoding_push (small : code.size < 2 ^ 63) {index : Fin 32}
    (fetched : Opcode.ofByte? (code.byteAt pc) = some (.push index)) :
    (decodeInstruction code start pc).1.Fits ∧
      (decodeInstruction code start pc).1.encoding =
        code.bytes.stretch pc.toNat (1 + (index.val + 1)) := by
  have inside : pc.toNat < code.size :=
    Code.lt_size_of_ofByte?_ne_stop (by rw [fetched]; simp)
  have size_eq := code.bytes.size_window (pc + 1).toNat (index.val + 1)
  have literal_eq : (code.immediate (pc + 1) (index.val + 1)).toNat =
      (code.bytes.window (pc + 1).toNat (index.val + 1)).toNat :=
    Word.toNat_ofBytes (by rw [size_eq]; exact index.isLt)
  rw [decodeInstruction_push fetched]
  constructor
  · intro other literal same
    cases same
    have bounded := Bytes.toNat_lt (code.bytes.window (pc + 1).toNat (index.val + 1))
    rwa [size_eq, ← literal_eq] at bounded
  · have written := Bytes.bigEndian_toNat (code.bytes.window (pc + 1).toNat (index.val + 1))
    rw [size_eq, ← literal_eq, Bytes.toList_window, toNat_add_one (by omega)] at written
    have first : code.bytes.stretch pc.toNat 1 = [(Opcode.push index).toByte] := by
      rw [Opcode.toByte_of_ofByte? fetched]
      rfl
    rw [Bytes.stretch_add, first, ← written]
    rfl

theorem encoding_decodeInstruction (small : code.size < 2 ^ 63)
    (shown : (decodeInstruction code start pc).1.kind ≠ .fall) :
    (decodeInstruction code start pc).1.Fits ∧
      (decodeInstruction code start pc).1.encoding =
        code.bytes.stretch pc.toNat (1 + immediateSize (code.byteAt pc)) := by
  have byte_eq := byte?_decodeInstruction shown
  by_cases pushes : ∃ index, Opcode.ofByte? (code.byteAt pc) = some (.push index)
  · obtain ⟨index, fetched⟩ := pushes
    rw [immediateSize, fetched]
    exact encoding_push small fetched
  · have single : immediateSize (code.byteAt pc) = 0 := by
      unfold immediateSize
      split
      · next opcode fetched =>
          cases opcode with
          | push index => exact (pushes ⟨index, fetched⟩).elim
          | _ => rfl
      · rfl
    have other (index : Fin 32) (literal : Word) :
        (decodeInstruction code start pc).1.action ≠ .push index literal := by
      intro action
      exact pushes ⟨index, decodeInstruction_eq_push action⟩
    refine ⟨fun index literal action => (other index literal action).elim, ?_⟩
    rw [Instruction.encoding_of_ne_push other, byte_eq, single]
    rfl

/-- No instruction that ends a block has immediate bytes. -/
theorem immediateSize_of_isFinal (ends : (decodeInstruction code start pc).1.isFinal = true) :
    immediateSize (code.byteAt pc) = 0 := by
  unfold immediateSize
  split
  · next opcode fetched =>
      cases opcode with
      | push index =>
          rw [decodeInstruction_push fetched] at ends
          cases ends
      | _ => rfl
  · rfl

/-- Only the end of a block right before a jump destination has no byte to list. -/
theorem isSome_byte?_iff (instruction : Instruction) :
    instruction.byte?.isSome = true ↔ instruction.kind ≠ .fall := by
  obtain ⟨pc, action⟩ := instruction
  cases action with
  | plain | invalid | push | jump | branch | fall => simp [Instruction.byte?, Instruction.kind]

theorem isFinal_of_kind_eq_fall {instruction : Instruction} (falls : instruction.kind = .fall) :
    instruction.isFinal = true := by
  obtain ⟨pc, action⟩ := instruction
  cases action with
  | fall => rfl
  | plain | invalid | push | jump | branch => cases falls

theorem Straight.cover {body : List Instruction} {final : Instruction}
    (small : code.size < 2 ^ 63) (straight : Straight code start pc body final)
    (inside : pc.toNat ≤ code.size + 32) :
    Instruction.Cover code.bytes pc.toNat
      ((body ++ [final]).filter fun instruction => instruction.byte?.isSome)
      (if final.kind = .fall then final.pc else final.pc + 1).toNat := by
  induction straight with
  | @last pc ends =>
      rw [List.nil_append, decodeInstruction_pc]
      by_cases falls : (decodeInstruction code start pc).1.kind = .fall
      · rw [if_pos falls, List.filter_cons, if_neg]
        · exact .nil pc.toNat
        · rw [isSome_byte?_iff]
          exact not_not_intro falls
      · rw [if_neg falls, List.filter_cons, if_pos ((isSome_byte?_iff _).mpr falls)]
        obtain ⟨fits, writes⟩ := encoding_decodeInstruction small falls
        refine .cons (by rw [decodeInstruction_pc]) fits writes ?_
        have next_eq : (pc + 1).toNat =
            pc.toNat + 1 + immediateSize (code.bytes.byteAt pc.toNat) := by
          rw [← Code.byteAt, immediateSize_of_isFinal ends, UInt64.toNat_add, UInt64.toNat_one,
            Nat.mod_eq_of_lt (by omega), Nat.add_zero]
        rw [next_eq]
        exact .nil _
  | @step pc body final inner rest ih =>
      obtain ⟨within, next⟩ := toNat_decodeInstruction_next small inner
      have shown : (decodeInstruction code start pc).1.kind ≠ .fall := by
        intro falls
        rw [isFinal_of_kind_eq_fall falls] at inner
        cases inner
      have width := immediateSize_le (code.byteAt pc)
      obtain ⟨fits, writes⟩ := encoding_decodeInstruction small shown
      have behind := ih (by omega)
      rw [next] at behind
      rw [List.cons_append, List.filter_cons, if_pos ((isSome_byte?_iff _).mpr shown)]
      exact .cons (by rw [decodeInstruction_pc]) fits writes behind

/-- What is listed of a block covers the bytes that it takes up. -/
theorem cover_decode (small : code.size < 2 ^ 63) (inside : start.toNat ≤ code.size) :
    Instruction.Cover code.bytes start.toNat (decode code start).listed
      (decode code start).stop.toNat := by
  rw [stop_decode small]
  exact (straight_decode code small start).cover small (by omega)

end Block

/-! ## The sweep over blocks -/

/-- The blocks that are decoded one behind the other from a position on, each where the last
one stops, for as long as the position lies inside the code. -/
inductive Sweeps (code : Code) : UInt64 → List Block → Prop where
  | done {pc : UInt64} (past : code.size ≤ pc.toNat) : Sweeps code pc []
  | next {pc : UInt64} {blocks : List Block} (inside : pc.toNat < code.size)
      (rest : Sweeps code (Block.decode code pc).stop blocks) :
      Sweeps code pc (Block.decode code pc :: blocks)

variable {code : Code} {pc : UInt64} {blocks : List Block}

theorem Sweeps.cover (small : code.size < 2 ^ 63) (sweeps : Sweeps code pc blocks) :
    ∃ stop, code.size ≤ stop ∧
      Instruction.Cover code.bytes pc.toNat (blocks.flatMap Block.listed) stop := by
  induction sweeps with
  | @done pc past => exact ⟨pc.toNat, past, .nil pc.toNat⟩
  | next inside _ ih =>
      obtain ⟨stop, past, behind⟩ := ih
      exact ⟨stop, past, (Block.cover_decode small inside.le).append behind⟩

end EvmAtlas
