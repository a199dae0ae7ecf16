import EvmAtlas.Proofs.Bounds
import EvmAtlas.Proofs.Reachability

/-!
# What the code map marks

The map of a program is packed into bytes, and a push that the program cuts short takes up positions
past its end. The bits that are set are those of the bytes behind the first one of an instruction,
wherever they lie, and all of them have room in the map. Inside the program the clear bits are the
instruction starts of the sweep.

Two checks of jumps are built on the map. The machine looks at the byte that a jump goes to, and a
recovery at the first instruction of the block that is decoded there. They accept the same places.
-/

namespace EvmAtlas

/-! ## Immediate bytes -/

/-- A sweep finds the bytes that the instructions it meets take up behind their first. -/
theorem mem_immediatesFrom_iff_exists {bytes : Bytes} {steps pc position : Nat}
    (start : bytes.IsStart pc) (enough : bytes.size ≤ pc + steps) :
    position ∈ immediatesFrom bytes steps pc ↔
      ∃ holder, bytes.IsStart holder ∧ pc ≤ holder ∧ holder < bytes.size ∧
        holder < position ∧ position ≤ holder + immediateSize (bytes.byteAt holder) := by
  induction steps generalizing pc with
  | zero =>
      constructor
      · intro member
        cases member
      · rintro ⟨holder, _, reached, inside, _⟩
        omega
  | succ steps ih =>
      simp only [immediatesFrom]
      split
      · next pcInside =>
          rw [List.mem_append, List.mem_range'_1, ih start.next (by omega)]
          constructor
          · rintro (here | ⟨holder, holderStart, reached, later⟩)
            · exact ⟨pc, start, Nat.le_refl _, pcInside, by omega, by omega⟩
            · exact ⟨holder, holderStart, by omega, later⟩
          · rintro ⟨holder, holderStart, reached, holderInside, behind, within⟩
            -- Behind the instruction at `pc` the next one on the sweep is where the rest begins.
            rcases Nat.eq_or_lt_of_le reached with rfl | before
            · left
              omega
            · right
              exact ⟨holder, holderStart, start.next_le holderStart before, holderInside, behind,
                within⟩
      · next outside =>
          constructor
          · intro member
            cases member
          · rintro ⟨holder, _, reached, inside, _⟩
            omega

theorem mem_immediates_iff_exists {bytes : Bytes} {position : Nat} :
    position ∈ immediates bytes ↔
      ∃ holder, bytes.IsStart holder ∧ holder < bytes.size ∧
        holder < position ∧ position ≤ holder + immediateSize (bytes.byteAt holder) := by
  rw [immediates, mem_immediatesFrom_iff_exists (.zero bytes) (Nat.le_add_left _ _)]
  simp only [Nat.zero_le, true_and]

/-- The bits that are set in the map of a program are those of its immediate bytes, also where it is
cut short. -/
theorem CodeMap.testBit?_ofBytes_iff {bytes : Bytes} {position : Nat} :
    testBit? (ofBytes bytes).bits position = some true ↔ position ∈ immediates bytes := by
  rw [testBit?, size_ofBytes]
  split
  · next fits => rw [testBit_ofBytes fits, Option.some_inj, decide_eq_true_eq]
  · next outside =>
      constructor
      · intro marked
        cases marked
      · intro member
        exact absurd (div_lt_width_of_mem_immediates member) outside

/-- The bits that are clear inside a program are those of its instruction starts. -/
theorem CodeMap.exists_testBit?_ofBytes {bytes : Bytes} {position : Nat}
    (inside : position < bytes.size) :
    ∃ marked, testBit? (ofBytes bytes).bits position = some marked ∧
      (marked = false ↔ bytes.IsStart position) := by
  refine ⟨_, testBit?_ofBytes inside, ?_⟩
  rw [testBit_ofBytes (div_lt_width inside), decide_eq_false_iff_not,
    mem_immediates_iff_not_isStart inside, not_not]

/-! ## Jump destinations -/

namespace Code

variable {code : Code} {pc : UInt64} {word : Word}

/-- A recovery lets a jump go where the machine does. -/
theorem isJumpDestination_ofUInt64_iff :
    code.isJumpDestination (.ofUInt64 pc) = true ↔
      code.isCode pc = true ∧ (Block.decode code pc).isJumpDestination = true := by
  rw [isJumpDestination_iff (Word.toUInt64?_ofUInt64 pc), Block.isJumpDestination_decode_iff]

/-- A word that is too wide for a position is no place to jump to. -/
theorem isJumpDestination_of_le (wide : 2 ^ 64 ≤ word.toNat) :
    code.isJumpDestination word = false := by
  have tooWide : ¬ word.toNat < UInt64.size := Nat.not_lt.mpr wide
  rw [isJumpDestination, Word.toUInt64?, if_neg tooWide]

end Code

/-- The map of a program is built inside its bytes, however the program ends: every bit that the
sweep sets has its place in them. The bits that are set are those of the bytes behind the first one
of an instruction, and inside the program the clear ones are the instruction starts, so that a
position is shown as an instruction exactly when the sweep meets it. The machine therefore lets a
jump go to a position exactly when the map shows it as an instruction and the block decoded there
begins with a jump destination; it lets none go to a word that does not fit a position. -/
theorem code_map_marks_immediates (bytes : Bytes) :
    ((immediates bytes).foldlM CodeMap.setBit? (.zeroes (bytes.size / 8 + 5)) =
        some (CodeMap.ofBytes bytes).bits ∧
      (CodeMap.ofBytes bytes).bits.size = bytes.size / 8 + 5 ∧
      ∀ position, position ∈ immediates bytes → position / 8 < bytes.size / 8 + 5) ∧
    (∀ position, CodeMap.testBit? (CodeMap.ofBytes bytes).bits position = some true ↔
      ∃ holder, bytes.IsStart holder ∧ holder < bytes.size ∧
        holder < position ∧ position ≤ holder + immediateSize (bytes.byteAt holder)) ∧
    (∀ position < bytes.size, ∃ marked,
      CodeMap.testBit? (CodeMap.ofBytes bytes).bits position = some marked ∧
      (marked = false ↔ bytes.IsStart position)) ∧
    (∀ pc : UInt64, (Code.ofBytes bytes).isJumpDestination (.ofUInt64 pc) = true ↔
      (CodeMap.ofBytes bytes).isCode pc = true ∧
      (Block.decode (.ofBytes bytes) pc).isJumpDestination = true) ∧
    ∀ word : Word, 2 ^ 64 ≤ word.toNat → (Code.ofBytes bytes).isJumpDestination word = false := by
  refine ⟨⟨?_, ?_, ?_⟩, ?_, ?_, ?_, ?_⟩
  · exact CodeMap.foldlM_immediates bytes
  · exact CodeMap.size_ofBytes bytes
  · intro position member
    exact CodeMap.div_lt_width_of_mem_immediates member
  · intro position
    rw [CodeMap.testBit?_ofBytes_iff, mem_immediates_iff_exists]
  · intro position inside
    exact CodeMap.exists_testBit?_ofBytes inside
  · intro pc
    exact Code.isJumpDestination_ofUInt64_iff
  · intro word wide
    exact Code.isJumpDestination_of_le wide

/-- Two jump destinations, of which a push reads the second as its literal, and a push of 32 bytes
that the program is too short for. -/
def cutShortCode : Bytes :=
  .ofList [0x5b, 0x60, 0x5b, 0x00, 0x00, 0x00, 0x7f]

/-- The last bit of a program that is cut short lies in the last byte of its map. -/
theorem cutShortCode_map_marks_immediates :
    (38 ∈ immediates cutShortCode ∧ 38 / 8 < cutShortCode.size / 8 + 5) ∧
    (∃ marked, CodeMap.testBit? (CodeMap.ofBytes cutShortCode).bits 2 = some marked ∧
      (marked = false ↔ cutShortCode.IsStart 2)) ∧
    CodeMap.testBit? (CodeMap.ofBytes cutShortCode).bits 38 = some true ∧
    (Code.ofBytes cutShortCode).isJumpDestination (.ofUInt64 0) = true ∧
    (Code.ofBytes cutShortCode).isJumpDestination (.ofUInt64 2) = false ∧
    (Code.ofBytes cutShortCode).isJumpDestination 0x10000000000000000 = false := by
  obtain ⟨⟨_, _, inBounds⟩, marks, clear, accepts, refuses⟩ :=
    code_map_marks_immediates cutShortCode
  have last : 38 ∈ immediates cutShortCode := by decide
  have start : cutShortCode.IsStart 6 := ⟨5, rfl⟩
  refine ⟨⟨last, inBounds 38 last⟩, clear 2 (by decide), ?_, ?_, ?_, ?_⟩
  · exact (marks 38).mpr ⟨6, start, by decide⟩
  · exact (accepts 0).mpr ⟨by decide +kernel, by decide +kernel⟩
  · rw [Bool.eq_false_iff]
    intro accepted
    exact absurd ((accepts 2).mp accepted).1 (by decide +kernel)
  · exact refuses _ (by decide +kernel)

end EvmAtlas
