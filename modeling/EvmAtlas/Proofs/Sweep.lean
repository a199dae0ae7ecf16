import Mathlib.Order.Monotone.Basic
import EvmAtlas.Code

/-!
# The sweep of a program

`Bytes.sweep` lists the instruction starts of a program: it begins at zero and steps over
each instruction together with its immediate bytes. Past the end of the program every
byte is a stop, so the sweep goes on byte by byte.

The packed code map is compared with it here: a position inside the program is marked as
an instruction exactly when the sweep meets it.
-/

namespace EvmAtlas

namespace Bytes

/-- The position of the instruction with a given number, counted from the start. -/
def sweep (bytes : Bytes) : Nat → Nat
  | 0 => 0
  | count + 1 =>
      sweep bytes count + 1 + immediateSize (bytes.byteAt (sweep bytes count))

/-- Whether the sweep meets a position. -/
def IsStart (bytes : Bytes) (pc : Nat) : Prop :=
  ∃ count, bytes.sweep count = pc

theorem byteAt_of_size_le {bytes : Bytes} {position : Nat}
    (outside : bytes.size ≤ position) : bytes.byteAt position = 0 := by
  simp [byteAt, Nat.not_lt.mpr outside]

theorem sweep_strictMono (bytes : Bytes) : StrictMono bytes.sweep := by
  apply strictMono_nat_of_lt_succ
  intro count
  simp only [sweep]
  omega

namespace IsStart

variable {bytes : Bytes} {pc other : Nat}

theorem zero (bytes : Bytes) : bytes.IsStart 0 :=
  ⟨0, rfl⟩

theorem next (start : bytes.IsStart pc) :
    bytes.IsStart (pc + 1 + immediateSize (bytes.byteAt pc)) := by
  obtain ⟨count, rfl⟩ := start
  exact ⟨count + 1, rfl⟩

/-- No instruction starts inside another one. -/
theorem next_le (start : bytes.IsStart pc) (otherStart : bytes.IsStart other)
    (before : pc < other) : pc + 1 + immediateSize (bytes.byteAt pc) ≤ other := by
  obtain ⟨count, rfl⟩ := start
  obtain ⟨otherCount, rfl⟩ := otherStart
  have later : count + 1 ≤ otherCount := (sweep_strictMono bytes).lt_iff_lt.mp before
  exact (sweep_strictMono bytes).monotone later

end IsStart

end Bytes

/-! ## Immediate bytes -/

theorem lt_of_mem_immediatesFrom {bytes : Bytes} {steps pc position : Nat}
    (member : position ∈ immediatesFrom bytes steps pc) : pc < position := by
  induction steps generalizing pc with
  | zero => simp [immediatesFrom] at member
  | succ steps ih =>
      simp only [immediatesFrom] at member
      split at member
      · rcases List.mem_append.mp member with inRange | later
        · exact (List.mem_range'_1.mp inRange).1
        · have := ih later
          omega
      · simp at member

/-- A sweep from an instruction start finds the immediate bytes inside the program: those
positions where no instruction starts. -/
theorem mem_immediatesFrom_iff {bytes : Bytes} {steps pc position : Nat}
    (start : bytes.IsStart pc) (enough : bytes.size ≤ pc + steps)
    (reached : pc ≤ position) (inside : position < bytes.size) :
    position ∈ immediatesFrom bytes steps pc ↔ ¬ bytes.IsStart position := by
  induction steps generalizing pc with
  | zero => omega
  | succ steps ih =>
      have pcInside : pc < bytes.size := by omega
      simp only [immediatesFrom, if_pos pcInside, List.mem_append, List.mem_range'_1]
      by_cases here : position = pc
      · subst here
        constructor
        · rintro (inRange | later)
          · omega
          · have := lt_of_mem_immediatesFrom later
            omega
        · exact fun notStart => (notStart start).elim
      · by_cases immediate : position < pc + 1 + immediateSize (bytes.byteAt pc)
        · constructor
          · intro _ isStart
            have := start.next_le isStart (by omega)
            omega
          · intro _
            left
            omega
        · rw [← ih start.next (by omega) (by omega)]
          constructor
          · rintro (inRange | later)
            · omega
            · exact later
          · exact Or.inr

/-! ## The packed map -/

namespace CodeMap

/-- A bit of the map is a binary digit of the byte that holds it. -/
theorem testBit_eq (bits : Bytes) (position : Nat) :
    testBit bits position =
      (bits.byteAt (position / 8)).toNat.testBit (position % 8) := by
  have small : position % 8 < 8 := Nat.mod_lt _ (by decide)
  have shift : (UInt8.ofNat (position % 8)).toNat = position % 8 :=
    UInt8.toNat_ofNat_of_lt' (Nat.lt_trans small (by decide))
  unfold testBit
  rw [Bool.eq_iff_iff, beq_iff_eq, ← UInt8.toNat_inj]
  simp only [UInt8.toNat_and, UInt8.toNat_shiftRight, shift, Nat.mod_eq_of_lt small,
    UInt8.toNat_one, Nat.and_one_is_mod, Nat.testBit_eq_decide_div_mod_eq,
    Nat.shiftRight_eq_div_pow, decide_eq_true_eq]

theorem size_setBit (bits : Bytes) (position : Nat) :
    (setBit bits position).size = bits.size := by
  unfold setBit
  split
  · simp only [← ByteArray.size_data, ByteArray.data_set, Array.size_set]
  · rfl

theorem byteAt_setBit (bits : Bytes) {position : Nat} (inside : position / 8 < bits.size)
    (index : Nat) :
    (setBit bits position).byteAt index =
      if index = position / 8 then
        bits.byteAt index ||| (1 <<< UInt8.ofNat (position % 8))
      else bits.byteAt index := by
  unfold Bytes.byteAt
  simp only [size_setBit]
  by_cases bound : index < bits.size
  · simp only [dif_pos bound, setBit, dif_pos inside, ByteArray.getElem_eq_getElem_data,
      ByteArray.data_set, Array.getElem_set]
    split <;> split <;> simp_all
  · have : index ≠ position / 8 := by omega
    simp [dif_neg bound, this]

/-- The byte with one bit set has that binary digit and no other. -/
theorem testBit_single {index other : Nat} (small : index < 8) (otherSmall : other < 8) :
    ((1 : UInt8) <<< UInt8.ofNat index).toNat.testBit other = decide (index = other) := by
  have shift : (UInt8.ofNat index).toNat = index :=
    UInt8.toNat_ofNat_of_lt' (Nat.lt_trans small (by decide))
  rw [UInt8.toNat_shiftLeft, shift, Nat.mod_eq_of_lt small, UInt8.toNat_one,
    Nat.one_shiftLeft, Nat.testBit_mod_two_pow, Nat.testBit_two_pow]
  simp [otherSmall]

theorem testBit_setBit (bits : Bytes) {target position : Nat}
    (inside : position / 8 < bits.size) :
    testBit (setBit bits target) position =
      (testBit bits position || decide (target = position)) := by
  by_cases bound : target / 8 < bits.size
  · rw [testBit_eq, testBit_eq, byteAt_setBit bits bound]
    split
    · next sameByte =>
        rw [UInt8.toNat_or, Nat.testBit_or,
          testBit_single (Nat.mod_lt _ (by decide)) (Nat.mod_lt _ (by decide))]
        congr 2
        simp only [eq_iff_iff]
        omega
    · next otherByte =>
        have different : target ≠ position := fun same => otherByte (by rw [same])
        simp [different]
  · have different : target ≠ position := by omega
    simp [setBit, bound, different]

theorem testBit_foldl_setBit (positions : List Nat) (bits : Bytes) {position : Nat}
    (inside : position / 8 < bits.size) :
    testBit (positions.foldl setBit bits) position =
      (testBit bits position || decide (position ∈ positions)) := by
  induction positions generalizing bits with
  | nil => simp
  | cons first rest ih =>
      rw [List.foldl_cons, ih _ (by rwa [size_setBit]), testBit_setBit bits inside]
      simp only [List.mem_cons, Bool.or_assoc, eq_comm (a := first), Bool.decide_or]

end CodeMap

/-- Zero bytes appended to a string read as the zeros past its end did. -/
theorem Bytes.byteAt_padRight (bytes : Bytes) (count position : Nat) :
    (bytes.padRight count).byteAt position = bytes.byteAt position := by
  induction count generalizing bytes with
  | zero => rfl
  | succ count ih =>
      rw [padRight, ih]
      unfold byteAt
      simp only [ByteArray.size_push]
      by_cases inside : position < bytes.size
      · have grown : position < bytes.size + 1 := by omega
        simp only [dif_pos inside, dif_pos grown, ByteArray.getElem_eq_getElem_data,
          ByteArray.data_push]
        exact Array.getElem_push_lt inside
      · simp only [dif_neg inside]
        split
        · next grown =>
            obtain rfl : position = bytes.data.size := by
              rw [ByteArray.size_data]
              omega
            simp only [ByteArray.getElem_eq_getElem_data, ByteArray.data_push]
            exact Array.getElem_push_eq
        · rfl

theorem Bytes.size_padRight (bytes : Bytes) (count : Nat) :
    (bytes.padRight count).size = bytes.size + count := by
  induction count generalizing bytes with
  | zero => rfl
  | succ count ih =>
      rw [padRight, ih, ByteArray.size_push]
      omega

theorem CodeMap.testBit_zeroes (count position : Nat) :
    testBit (.zeroes count) position = false := by
  rw [testBit_eq, Bytes.zeroes, Bytes.byteAt_padRight]
  simp [Bytes.byteAt]

/-- Inside the program the immediate bytes are those where no instruction starts. -/
theorem mem_immediates_iff_not_isStart {bytes : Bytes} {position : Nat}
    (inside : position < bytes.size) :
    position ∈ immediates bytes ↔ ¬ bytes.IsStart position :=
  mem_immediatesFrom_iff (.zero bytes) (Nat.le_of_eq (Nat.zero_add _).symm)
    (Nat.zero_le position) inside

/-- A bit of the map of a program is set exactly when it stands for an immediate byte. -/
theorem CodeMap.testBit_ofBytes {bytes : Bytes} {position : Nat}
    (fits : position / 8 < width bytes.size) :
    testBit (ofBytes bytes).bits position = decide (position ∈ immediates bytes) := by
  have held : position / 8 < (Bytes.zeroes (width bytes.size)).size := by
    rw [Bytes.zeroes, Bytes.size_padRight]
    exact Nat.lt_of_lt_of_le fits (Nat.le_add_left _ _)
  rw [ofBytes, testBit_foldl_setBit _ _ held, testBit_zeroes, Bool.false_or]

theorem CodeMap.div_lt_width {size position : Nat} (inside : position < size) :
    position / 8 < width size := by
  unfold width
  omega

/-- The map marks a position as an instruction exactly when it lies inside the program
and the sweep meets it. -/
theorem CodeMap.isCode_ofBytes_iff (bytes : Bytes) (pc : UInt64) :
    (ofBytes bytes).isCode pc = true ↔
      pc.toNat < bytes.size ∧ bytes.IsStart pc.toNat := by
  simp only [isCode, Bool.and_eq_true, decide_eq_true_eq, Bool.not_eq_true']
  apply and_congr_right
  intro inside
  rw [testBit_ofBytes (div_lt_width inside), decide_eq_false_iff_not,
    mem_immediates_iff_not_isStart inside, not_not]

namespace Code

variable {code : Code}

/-- A program is its bytes: the map follows from them. -/
theorem eq_ofBytes (code : Code) : code = ofBytes code.bytes := by
  obtain ⟨bytes, map, rfl⟩ := code
  rfl

theorem isCode_iff (pc : UInt64) :
    code.isCode pc = true ↔ pc.toNat < code.size ∧ code.bytes.IsStart pc.toNat := by
  rw [isCode, code.map_eq]
  exact CodeMap.isCode_ofBytes_iff code.bytes pc

end Code

end EvmAtlas
