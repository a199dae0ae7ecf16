import Mathlib.Algebra.Order.Group.Nat
import Mathlib.Data.List.Induction
import EvmAtlas.Proofs.Sweep

/-!
# Windows on a byte string

A byte string is read as if zeros without end followed it. `Bytes.stretch` is what is read from
a position on, as a list; a window holds just that. So what is read depends only on the single
bytes, and not on where the string ends and the zeros begin. The bytes of a window are found
again in the number that they write in big-endian order.
-/

namespace EvmAtlas

namespace Bytes

/-- The bytes from a position on, with zeros for those past the end. -/
def stretch (bytes : Bytes) (start count : Nat) : List UInt8 :=
  (List.range' start count).map bytes.byteAt

theorem stretch_add (bytes : Bytes) (start first rest : Nat) :
    bytes.stretch start (first + rest) =
      bytes.stretch start first ++ bytes.stretch (start + first) rest := by
  rw [stretch, stretch, stretch, ← List.map_append, List.range'_append_1]

theorem stretch_congr {left right : Bytes}
    (same : ∀ position, left.byteAt position = right.byteAt position) (start count : Nat) :
    left.stretch start count = right.stretch start count :=
  List.map_congr_left fun position _ => same position

theorem byteAt_eq_getD (bytes : Bytes) (position : Nat) :
    bytes.byteAt position = bytes.toList[position]?.getD 0 := by
  rw [byteAt, toList]
  split
  · next inside =>
      rw [Array.getElem?_toList, Array.getElem?_eq_getElem inside]
      rfl
  · next outside =>
      rw [Array.getElem?_toList, Array.getElem?_eq_none (Nat.not_lt.mp outside)]
      rfl

theorem toList_padRight (bytes : Bytes) (count : Nat) :
    (bytes.padRight count).toList = bytes.toList ++ List.replicate count 0 := by
  induction count generalizing bytes with
  | zero => rw [padRight, List.replicate_zero, List.append_nil]
  | succ count ih =>
      have pushed : toList (bytes.push 0) = toList bytes ++ [0] := Array.toList_push
      rw [padRight, ih, pushed, List.append_assoc, List.replicate_succ, List.singleton_append]

theorem length_toList (bytes : Bytes) : bytes.toList.length = bytes.size :=
  Array.length_toList

theorem toList_window (bytes : Bytes) (start size : Nat) :
    (bytes.window start size).toList = bytes.stretch start size := by
  have part : toList (bytes.extract start (start + size)) =
      ((toList bytes).drop start).take size := by
    rw [toList, ByteArray.data_extract, Array.toList_extract, List.extract_eq_take_drop,
      Nat.add_sub_cancel_left]
    rfl
  have length : (bytes.extract start (start + size)).size =
      (((toList bytes).drop start).take size).length := by
    rw [← length_toList, part]
  rw [window, toList_padRight, part, length]
  apply List.ext_getElem?
  intro index
  rw [stretch, List.getElem?_map]
  by_cases inside : index < size
  · rw [List.getElem?_range' inside, Option.map_some, Nat.one_mul, byteAt_eq_getD,
      List.getElem?_append]
    split
    · next held =>
        rw [List.getElem?_take_of_lt inside, List.getElem?_drop]
        rw [List.length_take, List.length_drop] at held
        rw [List.getElem?_eq_getElem (by omega)]
        rfl
    · next past =>
        rw [List.length_take, List.length_drop] at past ⊢
        rw [List.getElem?_replicate_of_lt (by omega), List.getElem?_eq_none (by omega)]
        rfl
  · rw [List.getElem?_eq_none, List.getElem?_eq_none]
    · rfl
    · rw [List.length_range']
      omega
    · rw [List.length_append, List.length_replicate, List.length_take]
      omega

theorem size_window (bytes : Bytes) (start size : Nat) :
    (bytes.window start size).size = size := by
  rw [← length_toList, toList_window, stretch, List.length_map, List.length_range']

/-- What is seen through a window depends on the single bytes alone. -/
theorem window_congr {left right : Bytes}
    (same : ∀ position, left.byteAt position = right.byteAt position) (start size : Nat) :
    left.window start size = right.window start size := by
  apply ByteArray.ext
  apply Array.ext'
  change (left.window start size).toList = (right.window start size).toList
  rw [toList_window, toList_window, stretch_congr same]

/-- The last `count` bytes of a number in big-endian order. -/
def bigEndian : Nat → Nat → List UInt8
  | 0, _ => []
  | count + 1, number => bigEndian count (number / 256) ++ [UInt8.ofNat number]

theorem toNat_eq_foldl (bytes : Bytes) :
    bytes.toNat = bytes.toList.foldl (fun total byte => total * 256 + byte.toNat) 0 := by
  rw [toNat, toList, Array.foldl_toList]

theorem toNat_lt (bytes : Bytes) : bytes.toNat < 256 ^ bytes.size := by
  rw [toNat_eq_foldl, ← length_toList]
  induction bytes.toList using List.reverseRecOn with
  | nil => decide
  | append_singleton first last ih =>
      rw [List.foldl_append, List.foldl_cons, List.foldl_nil, List.length_append,
        List.length_singleton, Nat.pow_succ]
      have small := last.toNat_lt
      omega

/-- A byte string is found again in the number that it writes. -/
theorem bigEndian_toNat (bytes : Bytes) : bigEndian bytes.size bytes.toNat = bytes.toList := by
  rw [toNat_eq_foldl, ← length_toList]
  induction bytes.toList using List.reverseRecOn with
  | nil => rfl
  | append_singleton first last ih =>
      have small := last.toNat_lt
      rw [List.foldl_append, List.foldl_cons, List.foldl_nil, List.length_append,
        List.length_singleton, bigEndian]
      generalize first.foldl (fun total byte => total * 256 + byte.toNat) 0 = total at ih ⊢
      have upper : (total * 256 + last.toNat) / 256 = total := by omega
      have lower : UInt8.ofNat (total * 256 + last.toNat) = last := by
        apply UInt8.toNat_inj.mp
        rw [UInt8.toNat_ofNat']
        omega
      rw [upper, lower, ih]

end Bytes

/-- A word holds up to 32 bytes as they are. -/
theorem Word.toNat_ofBytes {bytes : Bytes} (short : bytes.size ≤ 32) :
    (ofBytes bytes).toNat = bytes.toNat := by
  rw [ofBytes, BitVec.toNat_ofNat, Nat.mod_eq_of_lt]
  calc bytes.toNat
      < 256 ^ bytes.size := bytes.toNat_lt
    _ ≤ 256 ^ 32 := Nat.pow_le_pow_right (by decide) short
    _ = 2 ^ 256 := by decide

end EvmAtlas
