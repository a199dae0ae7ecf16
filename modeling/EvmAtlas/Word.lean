/-!
# Machine words

The machine computes on 256-bit words and names accounts by 160-bit addresses.
Both are bit vectors, so wrapping arithmetic is the arithmetic of the type; this
module adds the operations that the instruction set defines beyond it and the
conversions between words and 64-bit numbers.
-/

namespace EvmAtlas

/-- A 256-bit machine word. Storage slots, stored values and hashes are words too. -/
abbrev Word := BitVec 256

/-- The 160-bit name of an account. -/
abbrev Address := BitVec 160

namespace Word

/-- One for a condition that holds, zero for one that does not. -/
def ofBool (condition : Bool) : Word :=
  if condition then 1 else 0

def ofUInt64 (number : UInt64) : Word :=
  BitVec.ofNat 256 number.toNat

def low64 (word : Word) : UInt64 :=
  UInt64.ofNat word.toNat

/-- The 64-bit number a word stands for, if it is small enough to be one. -/
def toUInt64? (word : Word) : Option UInt64 :=
  if word.toNat < UInt64.size then some word.low64 else none

/-- The 64-bit number a word stands for, or the largest one. Reading from a clamped
offset lands past the end of every byte string, just as reading from the word would. -/
def clamp64 (word : Word) : UInt64 :=
  word.toUInt64?.getD (UInt64.ofNat (UInt64.size - 1))

/-- The account a word names: its low 160 bits. -/
def toAddress (word : Word) : Address :=
  word.setWidth 160

def ofAddress (address : Address) : Word :=
  address.setWidth 256

/-- Unsigned remainder, zero for a zero divisor. -/
def remainder (dividend divisor : Word) : Word :=
  if divisor = 0 then 0 else dividend.umod divisor

/-- Signed remainder with the sign of the dividend, zero for a zero divisor. -/
def signedRemainder (dividend divisor : Word) : Word :=
  if divisor = 0 then 0 else dividend.srem divisor

/-- The sum of two words reduced by a modulus without wrapping in between, zero for a
zero modulus. -/
def addModulo (left right modulus : Word) : Word :=
  if modulus = 0 then 0
  else BitVec.ofNat 256 ((left.toNat + right.toNat) % modulus.toNat)

/-- The product of two words reduced by a modulus without wrapping in between, zero for a
zero modulus. -/
def mulModulo (left right modulus : Word) : Word :=
  if modulus = 0 then 0
  else BitVec.ofNat 256 ((left.toNat * right.toNat) % modulus.toNat)

/-- Square and multiply, one exponent bit a round. Enough rounds for the bits of the
exponent give the power; a spent exponent ends early. -/
def powerRounds : Nat → Word → Nat → Word
  | 0, _, _ => 1
  | rounds + 1, base, exponent =>
      if exponent = 0 then 1
      else
        let rest := powerRounds rounds (base * base) (exponent / 2)
        if exponent % 2 = 1 then base * rest else rest

/-- A power modulo `2 ^ 256`. -/
def power (base exponent : Word) : Word :=
  powerRounds 256 base exponent.toNat

/-- Extend the sign of a value that occupies the bytes up to `index`, counted from the
least significant one. From byte 31 on the value already fills the word. -/
def extendSign (index value : Word) : Word :=
  if index.toNat < 31 then (value.setWidth (8 * (index.toNat + 1))).signExtend 256
  else value

/-- The byte at `index`, counted from the most significant one, zero past the last. -/
def byteAt (index value : Word) : Word :=
  if index.toNat < 32 then (value >>> (8 * (31 - index.toNat))) &&& 0xff else 0

/-- Shift left; a shift by the width or more gives zero. -/
def shiftLeft (shift value : Word) : Word :=
  if shift.toNat < 256 then value <<< shift.toNat else 0

/-- Shift right with zero fill; a shift by the width or more gives zero. -/
def shiftRight (shift value : Word) : Word :=
  if shift.toNat < 256 then value >>> shift.toNat else 0

/-- Shift right with sign fill. From the width on only the sign is left. -/
def shiftRightSigned (shift value : Word) : Word :=
  value.sshiftRight (min shift.toNat 256)

end Word

end EvmAtlas
