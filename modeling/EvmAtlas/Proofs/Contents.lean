import EvmAtlas.Proofs.Regions
import EvmAtlas.Proofs.Windows

/-!
# What memory holds

Memory reads as a byte for every position, zero past its end. Growing it changes none of them,
and a write changes those of its own region. The size that some regions need is the furthest
position that one of them reaches, in unbounded numbers and rounded up to whole words.
-/

namespace EvmAtlas

namespace Bytes

theorem byteAt_eq_data (bytes : Bytes) (position : Nat) :
    bytes.byteAt position = bytes.data[position]?.getD 0 := by
  rw [byteAt_eq_getD, toList, Array.getElem?_toList]

theorem window_eq_extract {bytes : Bytes} {start size : Nat}
    (inside : start + size ≤ bytes.size) :
    bytes.window start size = bytes.extract start (start + size) := by
  have whole : size - (bytes.extract start (start + size)).size = 0 := by
    rw [ByteArray.size_extract]
    omega
  rw [window, whole, padRight]

theorem window_zero (bytes : Bytes) (start : Nat) :
    bytes.window start 0 = ByteArray.empty := by
  apply ByteArray.ext
  apply Array.eq_empty_of_size_eq_zero
  exact size_window bytes start 0

theorem byteAt_window (bytes : Bytes) {start size position : Nat} (inside : position < size) :
    (bytes.window start size).byteAt position = bytes.byteAt (start + position) := by
  rw [byteAt_eq_getD, toList_window, stretch, List.getElem?_map, List.getElem?_range' inside,
    Option.map_some, Nat.one_mul, Option.getD_some]

end Bytes

namespace Memory

variable {memory : Memory} {offset length : Word}

theorem byteAt_grow (memory : Memory) (size position : Nat) :
    (memory.grow size).bytes.byteAt position = memory.bytes.byteAt position :=
  Bytes.byteAt_padRight memory.bytes (size - memory.size) position

/-- The parts of memory after a write: what is before its region, the new bytes, and what is
behind. -/
theorem data_write {offset : Nat} {data : Bytes} (something : data.size ≠ 0) :
    (memory.write offset data.size data).bytes.data =
      memory.bytes.data.extract 0 offset ++ data.data.extract 0 data.size ++
        memory.bytes.data.extract (offset + data.size) := by
  rw [write, if_neg something, Nat.min_self]
  change _ ++ data.data.extract 0 (0 + data.size) ++
    memory.bytes.data.extract (offset + min data.size (data.size - 0)) = _
  rw [Nat.zero_add, Nat.sub_zero, Nat.min_self]

theorem byteAt_write {offset : Nat} {data : Bytes} (covers : memory.Covers offset data.size)
    (position : Nat) :
    (memory.write offset data.size data).bytes.byteAt position =
      if offset ≤ position ∧ position < offset + data.size then
        data.byteAt (position - offset)
      else memory.bytes.byteAt position := by
  by_cases nothing : data.size = 0
  · rw [write, if_pos nothing, if_neg (by omega)]
  · have inside : offset + data.size ≤ memory.bytes.data.size :=
      covers.resolve_left nothing
    have size_eq : data.data.size = data.size := rfl
    rw [Bytes.byteAt_eq_data, Bytes.byteAt_eq_data, Bytes.byteAt_eq_data, data_write nothing]
    simp only [Array.getElem?_append, Array.getElem?_extract, Array.size_append,
      Array.size_extract, size_eq]
    grind

theorem size_write {offset : Nat} {data : Bytes} (covers : memory.Covers offset data.size) :
    (memory.write offset data.size data).size = memory.size := by
  by_cases nothing : data.size = 0
  · rw [write, if_pos nothing]
  · have inside : offset + data.data.size ≤ memory.bytes.data.size :=
      covers.resolve_left nothing
    have size_eq : data.size = data.data.size := rfl
    change (memory.write offset data.size data).bytes.data.size = memory.bytes.data.size
    rw [data_write nothing, Array.size_append, Array.size_append, Array.size_extract,
      Array.size_extract, Array.size_extract, size_eq]
    omega

theorem Holds.bounds {region : Region} (holds : memory.Holds region) :
    region.length.toNat = 0 ∧ region.length.low64 = 0 ∨
      region.offset.low64.toNat = region.offset.toNat ∧
        region.length.low64.toNat = region.length.toNat ∧
        region.offset.toNat + region.length.toNat ≤ memory.size ∧
        region.offset.toNat + region.length.toNat < 2 ^ 63 := by
  have low {word : Word} (small : word.toNat < 2 ^ 63) : word.low64.toNat = word.toNat :=
    Word.toNat_low64 (Nat.lt_trans small (by decide))
  rcases holds with empty | ⟨inside, small⟩
  · left
    rw [empty]
    exact ⟨rfl, rfl⟩
  · right
    exact ⟨low (by omega), low (by omega), inside, small⟩

theorem Holds.readWords?_eq (holds : memory.Holds ⟨offset, length⟩) :
    memory.readWords? offset length =
      some (memory.bytes.window offset.toNat length.toNat) := by
  unfold readWords? read?
  rcases holds.bounds with ⟨nothing, none⟩ | ⟨offset_eq, length_eq, inside, small⟩
  · dsimp only at nothing none
    rw [nothing, none, if_pos (by decide), Bytes.window_zero]
  · dsimp only at offset_eq length_eq inside small
    rw [toInt_toInt64 (by omega), toInt_toInt64 (by omega), offset_eq, length_eq]
    split
    · next nothing => rw [Int.natCast_eq_zero.mp nothing, Bytes.window_zero]
    · rw [if_neg (by omega), if_pos (by omega), Bytes.window_eq_extract inside, Int.toNat_natCast,
        ← Int.natCast_add, Int.toNat_natCast]

theorem Holds.write_eq {region : Region} (holds : memory.Holds region) (source : Bytes)
    (start : Nat) :
    memory.write region.offset.low64.toNat region.length.low64.toNat
        (source.window start region.length.low64.toNat) =
      memory.write region.offset.toNat region.length.toNat
        (source.window start region.length.toNat) := by
  rcases holds.bounds with ⟨nothing, none⟩ | ⟨offset_eq, length_eq, -⟩
  · rw [nothing, none, write, write, if_pos (by decide), if_pos rfl]
  · rw [offset_eq, length_eq]

end Memory

/-! ## How far memory reaches -/

/-- Where some bytes end that begin at a position, zero if there are none. -/
def Memory.stop (offset size : Nat) : Nat :=
  if size = 0 then 0 else offset + size

/-- The least size in whole words that holds a number of bytes. -/
def Memory.wholeWords (size : Nat) : Nat :=
  32 * ((size + 31) / 32)

namespace Region

/-- The furthest position that one of some regions reaches. -/
def reach (regions : List Region) : Nat :=
  regions.foldr (fun region rest => max (Memory.stop region.offset.toNat region.length.toNat) rest)
    0

variable {region : Region} {regions : List Region} {size : UInt64}

theorem toNat_of_stop? (stops : region.stop? = some size) :
    size.toNat = Memory.stop region.offset.toNat region.length.toNat := by
  rcases toNat_stop? stops with empty | sum_eq
  · rw [stop?, empty, show (0 : Word).toUInt64? = some 0 from rfl] at stops
    cases stops
    rw [empty]
    rfl
  · unfold Memory.stop
    split
    · next nothing =>
        have empty : region.length = 0 := BitVec.eq_of_toNat_eq nothing
        rw [stop?, empty, show (0 : Word).toUInt64? = some 0 from rfl] at stops
        cases stops
        rfl
    · exact sum_eq.symm

theorem toNat_of_stopAll? (all : stopAll? regions = some size) : size.toNat = reach regions := by
  induction regions generalizing size with
  | nil =>
      cases all
      rfl
  | cons first rest ih =>
      unfold stopAll? at all
      split at all
      · next stop after firstStop restStop =>
          cases all
          rw [reach, List.foldr_cons, ← toNat_of_stop? firstStop, ← reach, ← ih restStop]
          split
          · next shorter =>
              rw [UInt64.lt_iff_toNat_lt] at shorter
              omega
          · next longer =>
              rw [UInt64.lt_iff_toNat_lt] at longer
              omega
      · cases all

/-- Rounding up to whole words does not wrap around. -/
theorem toNat_wordCount (size : UInt64) : (wordCount size).toNat = (size.toNat + 31) / 32 := by
  have wide := size.toNat_lt
  unfold wordCount
  split
  · next large =>
      rw [gt_iff_lt, UInt64.lt_iff_toNat_lt,
        show (0xffffffffffffffff - 31 : UInt64).toNat = 2 ^ 64 - 32 by decide] at large
      rw [show (0xffffffffffffffff / 32 + 1 : UInt64).toNat = 2 ^ 59 by decide]
      omega
  · next small =>
      rw [gt_iff_lt, UInt64.not_lt, UInt64.le_iff_toNat_le,
        show (0xffffffffffffffff - 31 : UInt64).toNat = 2 ^ 64 - 32 by decide] at small
      rw [UInt64.toNat_div, UInt64.toNat_add, show (32 : UInt64).toNat = 32 from rfl,
        show (31 : UInt64).toNat = 31 from rfl]
      omega

theorem toNat_of_needed? (asked : needed? regions = some size) :
    size.toNat = Memory.wholeWords (reach regions) := by
  unfold needed? at asked
  split at asked
  · cases asked
  · next total all =>
      dsimp only at asked
      split at asked
      · next fits =>
          cases asked
          rw [UInt64.toNat_mul, show (32 : UInt64).toNat = 32 from rfl, Nat.mod_eq_of_lt fits,
            toNat_wordCount, toNat_of_stopAll? all, Memory.wholeWords, Nat.mul_comm]
      · cases asked

end Region

end EvmAtlas
