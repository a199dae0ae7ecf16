import EvmAtlas.Json.Value

/-!
# Hexadecimal strings in JSON

Quantities, byte strings, hashes and addresses are JSON strings that begin with `0x`. A
quantity has no leading zeros. The empty string is accepted as a quantity of zero and as
the empty byte string. Values are read as they are written, without resolving escapes.
-/

namespace EvmAtlas

namespace Hex

/-- The characters after the prefix of a hexadecimal string. -/
def dropPrefix? : List Char → Option (List Char)
  | '0' :: 'x' :: rest => some rest
  | '0' :: 'X' :: rest => some rest
  | _ => none

/-- The number of a quantity of at most `width` digits. -/
def quantity? (width : Nat) (raw : List Char) : Option Nat :=
  if raw.isEmpty then some 0
  else
    match dropPrefix? raw with
    | none | some [] => none
    | some (first :: rest) =>
        if first = '0' ∧ rest ≠ [] then none
        else if rest.length + 1 > width then none
        else toNat? (first :: rest)

/-- The bytes of a byte string. -/
def byteString? (raw : List Char) : Option Bytes :=
  if raw.isEmpty then some ByteArray.empty
  else ((dropPrefix? raw).bind toBytes?).map Bytes.ofList

/-- The number of a string of exactly `width` digits. -/
def fixed? (width : Nat) (raw : List Char) : Option Nat :=
  match dropPrefix? raw with
  | some digits => if digits.length = width then toNat? digits else none
  | none => none

end Hex

namespace Json

def toUInt64? : Json → Option UInt64
  | .string raw => (Hex.quantity? 16 raw).map UInt64.ofNat
  | _ => none

/-- A quantity of at most 256 bits. -/
def toWord? : Json → Option Word
  | .string raw => (Hex.quantity? 64 raw).map (BitVec.ofNat 256)
  | _ => none

def toBytes? : Json → Option Bytes
  | .string raw => Hex.byteString? raw
  | _ => none

/-- A hash, or a storage slot or value. -/
def toHash? : Json → Option Word
  | .string raw => (Hex.fixed? 64 raw).map (BitVec.ofNat 256)
  | _ => none

def toAddress? : Json → Option Address
  | .string raw => (Hex.fixed? 40 raw).map (BitVec.ofNat 160)
  | _ => none

/-- A value that may be absent: null for an absent one. -/
def toOption? {α : Type} (read : Json → Option α) : Json → Option (Option α)
  | .null => some none
  | value => (read value).map some

def quantity (number : Nat) : Json :=
  .string ('0' :: 'x' :: Nat.toDigits 16 number)

def bytes (data : Bytes) : Json :=
  .string ('0' :: 'x' :: data.toList.flatMap Hex.ofByte)

/-- The string of a number with a fixed count of digits. -/
def fixed (width number : Nat) : Json :=
  .string ('0' :: 'x' :: (Hex.padded width number).toList)

end Json

end EvmAtlas
