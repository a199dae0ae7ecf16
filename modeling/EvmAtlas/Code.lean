import EvmAtlas.Opcode.Effect

/-!
# Code

A program as the machine sees it: a byte string, followed by zeros without end. Sweeping
it from the start tells the bytes that hold instructions from the immediate bytes of
pushes. `CodeMap` packs the outcome of that sweep into one bit a byte, and `Code` keeps a
byte string together with its map, so that asking for a jump destination is cheap.
-/

namespace EvmAtlas

/-- The number of immediate bytes after the instruction at a byte. -/
def immediateSize (byte : UInt8) : Nat :=
  match Opcode.ofByte? byte with
  | some opcode => opcode.immediateSize
  | none => 0

/-- The positions of immediate bytes met by a sweep from `pc` on. A push that the code
cuts short has positions past the end of the code. The sweep moves on at every step, so
as many steps as there are bytes left are enough. -/
def immediatesFrom (bytes : Bytes) : Nat → Nat → List Nat
  | 0, _ => []
  | steps + 1, pc =>
      if pc < bytes.size then
        let count := immediateSize (bytes.byteAt pc)
        List.range' (pc + 1) count ++ immediatesFrom bytes steps (pc + 1 + count)
      else []

/-- The positions of all immediate bytes of a program. -/
def immediates (bytes : Bytes) : List Nat :=
  immediatesFrom bytes bytes.size 0

/-- A bit for each byte of a program, set where it is an immediate byte. -/
structure CodeMap where
  bits : Bytes
  size : Nat
  deriving DecidableEq

namespace CodeMap

/-- Set the bit of a position; a position outside the map changes nothing. -/
def setBit (bits : Bytes) (position : Nat) : Bytes :=
  if inside : position / 8 < bits.size then
    bits.set (position / 8)
      (bits[position / 8] ||| (1 <<< UInt8.ofNat (position % 8)))
  else bits

/-- Whether the bit of a position is set. -/
def testBit (bits : Bytes) (position : Nat) : Bool :=
  ((bits.byteAt (position / 8)) >>> UInt8.ofNat (position % 8)) &&& 1 == 1

/-- The number of bytes in the map of a program. Four more than the bits of the program
fill leave room for the immediate bytes of a push that the program cuts short. -/
def width (size : Nat) : Nat :=
  size / 8 + 5

/-- The map of a program. -/
def ofBytes (bytes : Bytes) : CodeMap where
  bits := (immediates bytes).foldl setBit (.zeroes (width bytes.size))
  size := bytes.size

/-- Whether a position lies inside the program and holds an instruction. -/
def isCode (map : CodeMap) (pc : UInt64) : Bool :=
  decide (pc.toNat < map.size) && !testBit map.bits pc.toNat

end CodeMap

/-- A program together with its map. -/
structure Code where
  bytes : Bytes
  map : CodeMap
  map_eq : map = CodeMap.ofBytes bytes := by rfl

namespace Code

/-- Sweep a program once and keep its map. -/
def ofBytes (bytes : Bytes) : Code where
  bytes := bytes
  map := CodeMap.ofBytes bytes

@[simp] theorem bytes_ofBytes (bytes : Bytes) : (ofBytes bytes).bytes = bytes := rfl

def size (code : Code) : Nat :=
  code.bytes.size

/-- The byte at a position. Past the end every byte is zero, which is a stop. -/
def byteAt (code : Code) (pc : UInt64) : UInt8 :=
  code.bytes.byteAt pc.toNat

/-- The value of the immediate bytes from a position on, with zeros past the end. -/
def immediate (code : Code) (pc : UInt64) (count : Nat) : Word :=
  Word.ofBytes (code.bytes.window pc.toNat count)

/-- Whether a position holds an instruction rather than an immediate byte. -/
def isCode (code : Code) (pc : UInt64) : Bool :=
  code.map.isCode pc

/-- Whether a word is a position that a jump may go to: inside the program, a jump
destination, and no immediate byte. -/
def isJumpDestination (code : Code) (word : Word) : Bool :=
  match word.toUInt64? with
  | some pc =>
      decide (pc.toNat < code.size) && code.byteAt pc == Opcode.jumpdest.toByte
        && code.isCode pc
  | none => false

/-- One letter a byte: `c` for an instruction, `d` for an immediate byte. -/
def mapText (code : Code) : String :=
  String.ofList ((List.range code.size).map fun position =>
    if code.isCode (UInt64.ofNat position) then 'c' else 'd')

end Code

end EvmAtlas
