import Mathlib.Algebra.Group.Nat.Defs
import EvmAtlas.Machine.Memory
import EvmAtlas.Proofs.Sweep

/-!
# Regions of memory

The memory that an instruction asks for is computed in 64-bit numbers from 256-bit operands.
`Region.needed?` gives a size only if nothing wraps around on the way, and memory of that
size holds every region asked for, `Memory.Holds`. Reading or writing a region that memory
holds does not fail, whichever of the two number ranges its bounds are taken from.
-/

namespace EvmAtlas

theorem Word.toNat_eq_of_toUInt64? {word : Word} {number : UInt64}
    (narrow : word.toUInt64? = some number) : word.toNat = number.toNat := by
  unfold toUInt64? at narrow
  split at narrow
  · next small =>
      cases narrow
      exact (UInt64.toNat_ofNat_of_lt' small).symm
  · cases narrow

theorem Word.toNat_low64 {word : Word} (small : word.toNat < UInt64.size) :
    word.low64.toNat = word.toNat :=
  UInt64.toNat_ofNat_of_lt' small

/-- A number below the greatest signed one is the same as a signed number. -/
theorem toInt_toInt64 {number : UInt64} (small : number.toNat < 2 ^ 63) :
    number.toInt64.toInt = number.toNat := by
  apply BitVec.toInt_eq_toNat_of_lt
  rw [UInt64.toBitVec_toInt64, UInt64.toNat_toBitVec]
  omega

namespace Memory

variable {memory : Memory} {region : Region} {offset length : Word}

/-- Whether memory holds a region: an empty one anywhere, any other one inside, with an end
that is no negative number. -/
def Holds (memory : Memory) (region : Region) : Prop :=
  region.length = 0 ∨
    region.offset.toNat + region.length.toNat ≤ memory.size ∧
      region.offset.toNat + region.length.toNat < 2 ^ 63

theorem size_grow (memory : Memory) (size : Nat) :
    (memory.grow size).size = max memory.size size := by
  rw [grow, Memory.size, Bytes.size_padRight, ← Memory.size]
  omega

theorem Holds.length_lt (holds : memory.Holds region) : region.length.toNat < 2 ^ 63 := by
  rcases holds with empty | ⟨-, small⟩
  · rw [empty]
    decide
  · omega

theorem Holds.covers (holds : memory.Holds region) :
    memory.Covers region.offset.low64.toNat region.length.low64.toNat := by
  rcases holds with empty | ⟨inside, small⟩
  · left
    rw [empty]
    rfl
  · right
    rw [Word.toNat_low64, Word.toNat_low64]
    · exact inside
    · simp only [UInt64.size]
      omega
    · simp only [UInt64.size]
      omega

theorem Holds.exists_readWords? (holds : memory.Holds ⟨offset, length⟩) :
    ∃ data, memory.readWords? offset length = some data := by
  have signed (word : Word) (small : word.toNat < 2 ^ 63) :
      word.low64.toInt64.toInt = word.toNat := by
    have low : word.low64.toNat = word.toNat := by
      apply Word.toNat_low64
      simp only [UInt64.size]
      omega
    rw [← low] at small ⊢
    exact toInt_toInt64 small
  unfold readWords? read?
  rcases holds with empty | ⟨inside, small⟩
  · rw [show length = 0 from empty]
    exact ⟨_, rfl⟩
  · dsimp only at inside small
    rw [signed offset (by omega), signed length (by omega)]
    split
    · exact ⟨_, rfl⟩
    · split
      · exact ⟨_, rfl⟩
      · rw [if_pos (by omega)]
        exact ⟨_, rfl⟩

end Memory

namespace Region

variable {region : Region} {regions : List Region} {memory : Memory} {size : UInt64}

/-- A region that is not empty stops where its offset and its length add up to, without
wrapping around. -/
theorem toNat_stop? (stops : region.stop? = some size) :
    region.length = 0 ∨ region.offset.toNat + region.length.toNat = size.toNat := by
  unfold stop? at stops
  split at stops
  · cases stops
  · next length narrow =>
      have length_eq := Word.toNat_eq_of_toUInt64? narrow
      split at stops
      · next zero =>
          left
          rw [zero] at length_eq
          exact BitVec.eq_of_toNat_eq length_eq
      · right
        split at stops
        · cases stops
        · next offset narrow =>
            have offset_eq := Word.toNat_eq_of_toUInt64? narrow
            split at stops
            · cases stops
            · next forward =>
                cases stops
                rw [UInt64.lt_iff_toNat_lt, UInt64.toNat_add] at forward
                rw [offset_eq, length_eq, UInt64.toNat_add]
                have := offset.toNat_lt
                have := length.toNat_lt
                omega

/-- The size for all of some regions is no less than that for each. -/
theorem le_stopAll? (all : stopAll? regions = some size) :
    ∀ region ∈ regions, ∃ stop, region.stop? = some stop ∧ stop.toNat ≤ size.toNat := by
  induction regions generalizing size with
  | nil => simp
  | cons first rest ih =>
      unfold stopAll? at all
      split at all
      · next stop after firstStop restStop =>
          cases all
          have first_le : stop.toNat ≤ (if after < stop then stop else after).toNat := by
            split
            · exact Nat.le_refl _
            · next shorter => exact UInt64.le_iff_toNat_le.mp (UInt64.not_lt.mp shorter)
          have rest_le : after.toNat ≤ (if after < stop then stop else after).toNat := by
            split
            · next shorter => exact Nat.le_of_lt (UInt64.lt_iff_toNat_lt.mp shorter)
            · exact Nat.le_refl _
          rintro region (_ | ⟨_, member⟩)
          · exact ⟨stop, firstStop, first_le⟩
          · obtain ⟨other, stops, other_le⟩ := ih restStop region member
            exact ⟨other, stops, Nat.le_trans other_le rest_le⟩
      · cases all

theorem le_wordCount (size : UInt64) : size.toNat ≤ (wordCount size).toNat * 32 := by
  have wide := size.toNat_lt
  unfold wordCount
  split
  · have : (0xffffffffffffffff / 32 + 1 : UInt64).toNat = 2 ^ 59 := by decide
    omega
  · next small =>
      have low : size.toNat ≤ 2 ^ 64 - 32 := by
        rw [gt_iff_lt, UInt64.not_lt, UInt64.le_iff_toNat_le] at small
        exact small
      rw [UInt64.toNat_div, UInt64.toNat_add, show (32 : UInt64).toNat = 32 from rfl,
        show (31 : UInt64).toNat = 31 from rfl]
      omega

theorem holds_of_needed? (asked : needed? regions = some size) (small : size.toNat < 2 ^ 63)
    (grown : size.toNat ≤ memory.size) : ∀ region ∈ regions, memory.Holds region := by
  unfold needed? at asked
  split at asked
  · cases asked
  · next total all =>
      dsimp only at asked
      split at asked
      · next fits =>
          cases asked
          rw [UInt64.toNat_mul, show (32 : UInt64).toNat = 32 from rfl,
            Nat.mod_eq_of_lt fits] at small grown
          have total_le := le_wordCount total
          intro region member
          obtain ⟨stop, stops, stop_le⟩ := le_stopAll? all region member
          rcases toNat_stop? stops with empty | stop_eq
          · exact .inl empty
          · right
            omega
      · cases asked

theorem length_lt_of_needed? (asked : needed? regions = some size)
    (small : size.toNat < 2 ^ 63) : ∀ region ∈ regions, region.length.low64.toNat < 2 ^ 63 := by
  intro region member
  have grown : size.toNat ≤ (Memory.empty.grow size.toNat).size := by
    rw [Memory.size_grow]
    exact Nat.le_max_right _ _
  have short := (holds_of_needed? asked small grown region member).length_lt
  rw [Word.toNat_low64]
  · exact short
  · simp only [UInt64.size]
    omega

end Region

theorem Opcode.exists_regions? {opcode : Opcode} {stack : List Word}
    (enough : opcode.arity.pops ≤ stack.length) :
    ∃ regions, opcode.regions? stack = some regions := by
  cases opcode with
  | mload | mstore | mstore8 =>
      rcases stack with _ | ⟨_, _⟩
      · cases enough
      · exact ⟨_, rfl⟩
  | sha3 | «return» | revert | log =>
      rcases stack with _ | ⟨_, _ | ⟨_, _⟩⟩
      case cons.cons => exact ⟨_, rfl⟩
      all_goals
        simp only [arity, List.length_cons, List.length_nil] at enough
        omega
  | copy =>
      rcases stack with _ | ⟨_, _ | ⟨_, _ | ⟨_, _⟩⟩⟩
      case cons.cons.cons => exact ⟨_, rfl⟩
      all_goals
        simp only [arity, List.length_cons, List.length_nil] at enough
        omega
  | extcodecopy =>
      rcases stack with _ | ⟨_, _ | ⟨_, _ | ⟨_, _ | ⟨_, _⟩⟩⟩⟩
      case cons.cons.cons.cons => exact ⟨_, rfl⟩
      all_goals
        simp only [arity, List.length_cons, List.length_nil] at enough
        omega
  | staticcall =>
      rcases stack with _ | ⟨_, _ | ⟨_, _ | ⟨_, _ | ⟨_, _ | ⟨_, _ | ⟨_, _⟩⟩⟩⟩⟩⟩
      case cons.cons.cons.cons.cons.cons => exact ⟨_, rfl⟩
      all_goals
        simp only [arity, List.length_cons, List.length_nil] at enough
        omega
  | _ => exact ⟨[], rfl⟩

end EvmAtlas
