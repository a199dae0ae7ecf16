import EvmAtlas.Opcode.Effect

/-!
# Memory

The byte memory of a call frame. It only grows, in whole words, and it grows before an
instruction touches it: a write that does not fit, or a read that ends past the end, is
refused. `Opcode.regions?` says which regions an instruction touches and
`Region.needed?` how much memory they ask for. Memory is as large as it is asked to be: what can
be allocated is no part of it.
-/

namespace EvmAtlas

/-- The memory of a call frame. -/
structure Memory where
  bytes : Bytes
  deriving DecidableEq

namespace Memory

def empty : Memory :=
  ⟨ByteArray.empty⟩

def size (memory : Memory) : Nat :=
  memory.bytes.size

/-- Grow to a size; a smaller size changes nothing. A limit may allow 2^63 bytes and more, which no
machine has; growing to them succeeds here all the same. -/
def grow (memory : Memory) (size : Nat) : Memory :=
  ⟨memory.bytes.padRight (size - memory.size)⟩

/-- Whether a region lies inside the memory. An empty region lies anywhere. -/
def Covers (memory : Memory) (offset size : Nat) : Prop :=
  size = 0 ∨ offset + size ≤ memory.size

instance (memory : Memory) (offset size : Nat) : Decidable (memory.Covers offset size) :=
  inferInstanceAs (Decidable (_ ∨ _))

/-- Write the first bytes of `data`, at most `size` of them, to a region inside the
memory. -/
def write (memory : Memory) (offset size : Nat) (data : Bytes) : Memory :=
  if size = 0 then memory
  else ⟨data.copySlice 0 memory.bytes offset (min size data.size)⟩

/-- Write to a region, if it lies inside the memory. -/
def write? (memory : Memory) (offset size : Nat) (data : Bytes) : Option Memory :=
  if memory.Covers offset size then some (memory.write offset size data) else none

/-- Write the 32 bytes of a word at an offset inside the memory. -/
def writeWord? (memory : Memory) (offset : Nat) (word : Word) : Option Memory :=
  memory.write? offset 32 word.toBytes

/-- Read a region. An empty region, and one that starts at or past the end, reads as
nothing; any other has to lie inside the memory. -/
def read? (memory : Memory) (offset size : Int) : Option Bytes :=
  if size = 0 then some ByteArray.empty
  else if (memory.size : Int) ≤ offset then some ByteArray.empty
  else if 0 ≤ offset ∧ 0 ≤ size ∧ offset + size ≤ memory.size then
    some (memory.bytes.extract offset.toNat (offset + size).toNat)
  else none

/-- Read the region that two words name by their low 64 bits, taken as signed numbers. -/
def readWords? (memory : Memory) (offset size : Word) : Option Bytes :=
  memory.read? offset.low64.toInt64.toInt size.low64.toInt64.toInt

end Memory

/-- A region of memory by its offset and its length. -/
structure Region where
  offset : Word
  length : Word
  deriving DecidableEq, Repr

namespace Region

/-- The size of memory that holds a region, if it is a 64-bit number. An empty region
needs none, wherever it is. -/
def stop? (region : Region) : Option UInt64 :=
  match region.length.toUInt64? with
  | none => none
  | some length =>
      if length = 0 then some 0
      else
        match region.offset.toUInt64? with
        | none => none
        | some offset => if offset + length < offset then none else some (offset + length)

/-- The size of memory that holds all of some regions, if it is a 64-bit number. -/
def stopAll? : List Region → Option UInt64
  | [] => some 0
  | region :: rest =>
      match region.stop?, stopAll? rest with
      | some first, some second => some (if second < first then first else second)
      | _, _ => none

/-- The number of whole words that hold a number of bytes. -/
def wordCount (size : UInt64) : UInt64 :=
  if size > 0xffffffffffffffff - 31 then 0xffffffffffffffff / 32 + 1 else (size + 31) / 32

/-- The size in whole words that holds some regions, if it is a 64-bit number. -/
def needed? (regions : List Region) : Option UInt64 :=
  match stopAll? regions with
  | none => none
  | some size =>
      let words := wordCount size
      if words.toNat * 32 < UInt64.size then some (words * 32) else none

end Region

/-- The regions of memory that an instruction touches, given a stack that holds its
operands. -/
def Opcode.regions? (opcode : Opcode) (stack : List Word) : Option (List Region) :=
  match opcode with
  | .sha3 | .return | .revert | .log _ =>
      match stack with
      | offset :: length :: _ => some [⟨offset, length⟩]
      | _ => none
  | .copy _ =>
      match stack with
      | offset :: _ :: length :: _ => some [⟨offset, length⟩]
      | _ => none
  | .extcodecopy =>
      match stack with
      | _ :: offset :: _ :: length :: _ => some [⟨offset, length⟩]
      | _ => none
  | .mload | .mstore =>
      match stack with
      | offset :: _ => some [⟨offset, 32⟩]
      | _ => none
  | .mstore8 =>
      match stack with
      | offset :: _ => some [⟨offset, 1⟩]
      | _ => none
  | .staticcall =>
      match stack with
      | _ :: _ :: inOffset :: inLength :: outOffset :: outLength :: _ =>
          some [⟨outOffset, outLength⟩, ⟨inOffset, inLength⟩]
      | _ => none
  | _ => some []

end EvmAtlas
