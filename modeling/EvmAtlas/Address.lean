import EvmAtlas.Keccak
import EvmAtlas.Text.Hex

/-!
# Addresses as text

An address in a message carries a checksum in the case of its letters: a letter is
upper case where the hash of the lower-case digits has a large digit. Files write
addresses in lower case.
-/

namespace EvmAtlas.Address

/-- The forty lower-case digits of an address. -/
def digits (address : Address) : List Char :=
  (Hex.padded 40 address.toNat).toList

def plainText (address : Address) : String :=
  "0x" ++ String.ofList address.digits

/-- The text of an address with its checksum in the case of the letters. -/
def text (address : Address) : String :=
  let digits := address.digits
  let mark := (keccak (String.ofList digits).toUTF8).fullText.toList.drop 2
  let marked := digits.zipWith (fun digit nibble =>
    if 8 ≤ (Hex.value? nibble).getD 0 then digit.toUpper else digit) mark
  "0x" ++ String.ofList marked

/-- The bytes spelled by the longest run of whole digit pairs at the start of a text. -/
def leadingBytes : List Char → List UInt8
  | high :: low :: rest =>
      match Hex.value? high, Hex.value? low with
      | some upper, some lower => UInt8.ofNat (16 * upper + lower) :: leadingBytes rest
      | _, _ => []
  | _ => []

/-- Read an address from any text. A leading `0x` is dropped, a missing first digit is
zero, reading ends at the first pair that is no byte, and of too many bytes the last
twenty count. -/
def ofText (text : String) : Address :=
  let chars := text.toList
  let body :=
    match chars with
    | '0' :: 'x' :: rest => rest
    | '0' :: 'X' :: rest => rest
    | rest => rest
  let even := if (String.ofList body).utf8ByteSize % 2 = 1 then '0' :: body else body
  BitVec.ofNat 160 (Bytes.ofList (leadingBytes even)).toNat

end EvmAtlas.Address
