import EvmAtlas.Bytes

/-!
# Hexadecimal text

Byte strings are written with two lower-case digits a byte, numbers with the fewest
digits, words and addresses with all of theirs. Digits of either case are read.
-/

namespace EvmAtlas.Hex

/-- The lower-case digit of a number below sixteen. -/
def digit (number : Nat) : Char :=
  if number < 10 then Char.ofNat (48 + number) else Char.ofNat (87 + number)

/-- The value of a digit of either case. -/
def value? (char : Char) : Option Nat :=
  let code := char.toNat
  if 48 ≤ code ∧ code ≤ 57 then some (code - 48)
  else if 97 ≤ code ∧ code ≤ 102 then some (code - 87)
  else if 65 ≤ code ∧ code ≤ 70 then some (code - 55)
  else none

/-- The two digits of a byte. -/
def ofByte (byte : UInt8) : List Char :=
  [digit (byte.toNat / 16), digit (byte.toNat % 16)]

/-- The digits of a byte string, two a byte. -/
def ofBytes (bytes : Bytes) : String :=
  String.ofList (bytes.toList.flatMap ofByte)

/-- The fewest digits of a number. -/
def ofNat (number : Nat) : String :=
  String.ofList (Nat.toDigits 16 number)

/-- The digits of a number, filled up with zeros on the left to a given width. -/
def padded (width number : Nat) : String :=
  let digits := Nat.toDigits 16 number
  String.ofList (List.replicate (width - digits.length) '0' ++ digits)

/-- The number that digits spell, most significant first. -/
def toNat? (digits : List Char) : Option Nat :=
  digits.foldlM (fun total char => (value? char).map (total * 16 + ·)) 0

/-- The bytes that an even number of digits spell. -/
def toBytes? : List Char → Option (List UInt8)
  | [] => some []
  | [_] => none
  | high :: low :: rest => do
      let upper ← value? high
      let lower ← value? low
      let bytes ← toBytes? rest
      return UInt8.ofNat (16 * upper + lower) :: bytes

end EvmAtlas.Hex

namespace EvmAtlas

/-- The text of a word as a number: `0x` and its fewest digits. -/
def Word.text (word : Word) : String :=
  "0x" ++ Hex.ofNat word.toNat

/-- The text of a word as a hash or storage slot: `0x` and all 64 digits. -/
def Word.fullText (word : Word) : String :=
  "0x" ++ Hex.padded 64 word.toNat

/-- The text of a byte: `0x` and its fewest digits. -/
def byteText (byte : UInt8) : String :=
  "0x" ++ Hex.ofNat byte.toNat

/-- The text of a byte string inside a sentence: `0x` and its digits, and nothing at all
for the empty string. -/
def Bytes.text (bytes : Bytes) : String :=
  if bytes.size = 0 then "" else "0x" ++ Hex.ofBytes bytes

end EvmAtlas
