import EvmAtlas.Word

/-!
# Byte strings

Code, call data, return data and memory are byte strings. Reading one past its end
gives zeros; `window` is the one definition of that rule. Words and byte strings
convert through their big-endian form.
-/

namespace EvmAtlas

/-- A finite string of bytes. -/
abbrev Bytes := ByteArray

instance : DecidableEq Bytes := fun left right =>
  if equal : left.data = right.data then isTrue (ByteArray.ext equal)
  else isFalse fun same => equal (congrArg ByteArray.data same)

namespace Bytes

/-- A byte string from its list of bytes. -/
def ofList (bytes : List UInt8) : Bytes :=
  ⟨bytes.toArray⟩

/-- The list of bytes of a byte string. -/
def toList (bytes : Bytes) : List UInt8 :=
  bytes.data.toList

/-- Append zero bytes. -/
def padRight (bytes : Bytes) : Nat → Bytes
  | 0 => bytes
  | count + 1 => padRight (bytes.push 0) count

def zeroes (count : Nat) : Bytes :=
  padRight ByteArray.empty count

/-- The byte at a position, zero past the end. -/
def byteAt (bytes : Bytes) (position : Nat) : UInt8 :=
  if inside : position < bytes.size then bytes[position] else 0

/-- The `size` bytes from `start` on, with zeros for those past the end. -/
def window (bytes : Bytes) (start size : Nat) : Bytes :=
  let part := bytes.extract start (start + size)
  padRight part (size - part.size)

/-- The bytes between two positions, which have to be in order and inside. -/
def slice? (bytes : Bytes) (start stop : Int) : Option Bytes :=
  if 0 ≤ start ∧ start ≤ stop ∧ stop ≤ bytes.size then
    some (bytes.extract start.toNat stop.toNat)
  else none

/-- A window by 64-bit numbers, which wrap around: it is cut to what there is and then filled with
zeros. -/
def clipped? (bytes : Bytes) (start size : UInt64) : Option Bytes :=
  let length := UInt64.ofNat bytes.size
  let first := if length < start then length else start
  let stop := first + size
  let last := if length < stop ∨ stop < first then length else stop
  (bytes.slice? first.toNat last.toNat).map fun part =>
    part.padRight (size.toInt64.toInt - part.size).toNat

/-- The number that a byte string writes in big-endian order. -/
def toNat (bytes : Bytes) : Nat :=
  bytes.data.foldl (fun total byte => total * 256 + byte.toNat) 0

end Bytes

namespace Word

/-- The word that a byte string of at most 32 bytes writes in big-endian order; of a
longer one its last 32 bytes count. -/
def ofBytes (bytes : Bytes) : Word :=
  BitVec.ofNat 256 bytes.toNat

/-- The 32 bytes of a word in big-endian order. -/
def toBytes (word : Word) : Bytes :=
  ⟨Array.ofFn fun index : Fin 32 => UInt8.ofNat (word.toNat >>> (8 * (31 - index.val)))⟩

end Word

end EvmAtlas
